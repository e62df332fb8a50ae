/-
The certificate client against the certificate server over a channel that neither loses nor refuses
anything: both succeed, and their sessions mirror each other.
-/
import WolfNano.CertMessages
import WolfNano.ChainRule
import WolfNano.PskAgreement

namespace WolfNano

open Duplex

/-! ### Signing and verifying -/

section Schemes

variable {B : Build} {scheme : Nat} {alg : SigAlg}

/-- What the server can sign with, the client verifies with. -/
theorem signAlg_verifyAlg (h : signAlg B scheme = some alg) : verifyAlg B scheme = some alg := by
  unfold signAlg at h
  split at h
  · rename_i hec
    obtain ⟨rfl, hecc⟩ := hec
    simpa [verifyAlg, hecc] using h
  split at h
  · rename_i hec
    obtain ⟨rfl, -, hec384, hsha⟩ := hec
    simpa [verifyAlg, hec384, hsha] using h
  split at h
  · rename_i hed
    obtain ⟨rfl, hed⟩ := hed
    simpa [verifyAlg, hed] using h
  split at h
  · rename_i hrsa
    obtain ⟨rfl, hrsa, -⟩ := hrsa
    simpa [verifyAlg, hrsa] using h
  split at h
  · rename_i hrsa
    obtain ⟨rfl, hrsa, -, hsha⟩ := hrsa
    simpa [verifyAlg, hrsa, hsha] using h
  split at h
  · rename_i hrsa
    obtain ⟨rfl, hrsa, -, hsha⟩ := hrsa
    simpa [verifyAlg, hrsa, hsha] using h
  obtain ⟨level, hlevel, h⟩ := Option.bind_eq_some_iff.1 h
  obtain ⟨⟨rfl, -⟩, hsame⟩ := Option.ite_none_right_eq_some.1 h
  cases level <;> simpa [verifyAlg, MldsaLevel.scheme, hlevel] using hsame

/-- What the client verifies with, it offers. -/
theorem signAlg_offered (h : signAlg B scheme = some alg) : scheme ∈ offeredSchemes B := by
  unfold signAlg at h
  split at h
  · rename_i hec
    obtain ⟨rfl, hecc⟩ := hec
    simp [offeredSchemes, hecc]
  split at h
  · rename_i hec
    obtain ⟨rfl, -, hec384, hsha⟩ := hec
    simp [offeredSchemes, hec384, hsha]
  split at h
  · rename_i hed
    obtain ⟨rfl, hed⟩ := hed
    simp [offeredSchemes, hed]
  split at h
  · rename_i hrsa
    obtain ⟨rfl, hrsa, -⟩ := hrsa
    simp [offeredSchemes, hrsa]
  split at h
  · rename_i hrsa
    obtain ⟨rfl, hrsa, -, hsha⟩ := hrsa
    simp [offeredSchemes, hrsa, hsha]
  split at h
  · rename_i hrsa
    obtain ⟨rfl, hrsa, -, hsha⟩ := hrsa
    simp [offeredSchemes, hrsa, hsha]
  obtain ⟨level, hlevel, h⟩ := Option.bind_eq_some_iff.1 h
  obtain ⟨⟨rfl, -⟩, -⟩ := Option.ite_none_right_eq_some.1 h
  simp [offeredSchemes, hlevel]

end Schemes

/-- A signing key and the public key that belongs to it: no call fails, the signatures have at most
`sigMax` octets, and they verify. -/
structure SigPair (P : Platform) (alg : SigAlg) (keyDer spki : Bytes) (sigMax : Nat) : Prop where
  init : P.sigInit alg = true
  input : ∀ msg, ∃ input, sigInput P alg msg = .ok input
  keys : ∃ k v, P.signKey alg keyDer = some k ∧ P.verifyKey alg spki = some v ∧
    ∀ input cap rng, sigMax ≤ cap → ∃ sig rng', P.sign alg k input cap rng = some (sig, rng') ∧
      sig.length ≤ sigMax ∧ P.verify alg v input sig = true

theorem SigPair.signs {P : Platform} {X : X509Backend} {alg : SigAlg} {keyDer spki : Bytes}
    {sigMax cap scheme : Nat} (h : SigPair P alg keyDer spki sigMax)
    (halg : signAlg P.build scheme = some alg) (hkey : X.schemeKeyOk scheme spki = true)
    (hcap : sigMax ≤ cap) (th : Bytes) (rng : P.Rng) : ∃ sig rng',
      signCv P scheme keyDer (buildCvTbs th) cap rng = .ok (sig, rng') ∧ sig.length ≤ sigMax ∧
        certVerify P X scheme spki th sig = .ok () := by
  obtain ⟨input, hinput⟩ := h.input (buildCvTbs th)
  obtain ⟨k, v, hk, hv, hsigns⟩ := h.keys
  obtain ⟨sig, rng', hsign, hlen, hverify⟩ := hsigns input cap rng hcap
  have hinit : ¬ P.sigInit alg = false := Bool.eq_false_iff.not.2 (not_not.2 h.init)
  refine ⟨sig, rng', ?_, hlen, ?_⟩
  · unfold signCv
    rw [halg]
    refine except_bind_eq_ok.2 ⟨_, hinput, ?_⟩
    refine except_bind_eq_ok.2 ⟨(), failIf_eq_ok.2 hinit, ?_⟩
    refine except_bind_eq_ok.2 ⟨_, orCrypto_eq_ok.2 hk, ?_⟩
    exact orCrypto_eq_ok.2 hsign
  · unfold certVerify
    rw [if_neg (Bool.eq_false_iff.not.2 (not_not.2 hkey)), signAlg_verifyAlg halg]
    refine except_bind_eq_ok.2 ⟨_, hinput, ?_⟩
    refine except_bind_eq_ok.2 ⟨(), failIf_eq_ok.2 hinit, ?_⟩
    refine except_bind_eq_ok.2 ⟨v, ?_, ?_⟩
    · rw [hv]
      rfl
    · apply failIf_eq_ok.2
      rw [hverify]
      exact Bool.noConfusion

/-! ### The messages of the flight -/

/-- A message with its header says how long it is. -/
theorem framed_msgLen (type : UInt8) {body : Bytes} (hbody : body.length < 2 ^ 24) :
    ([type] ++ vec24 body).length = 4 + hsMsgLen ([type] ++ vec24 body) 0 := by
  have hslice : slice ([type] ++ vec24 body) 1 3 = u24 body.length := rfl
  rw [hsMsgLen, hslice, ofBE_u24 hbody, List.length_append, vec24_length, List.length_singleton]
  omega

section Messages

variable {P : Platform} {X : X509Backend} {args : CertArgs} {sHs acc fed spki : Bytes} {off : Nat}
  {seq : UInt64}

/-- One message out of the accumulator. -/
theorem certFlightMsgs_more {fuel : Nat} {st st' : CertFlight} {msg : Bytes} {fin : Bool}
    (pre rest : Bytes) (hacc : st.acc = pre ++ msg ++ rest) (hoff : st.off = pre.length)
    (hoff' : st'.off = pre.length) (hmsg : msg.length = 4 + hsMsgLen msg 0)
    (h : certFlightMsg P X args sHs st msg = .ok (st', fin)) :
    certFlightMsgs P X args sHs (fuel + 1) st =
      if fin then .ok ({ st' with off := (pre ++ msg).length }, true)
      else certFlightMsgs P X args sHs fuel { st' with off := (pre ++ msg).length } := by
  have hlen : st.acc.length = pre.length + msg.length + rest.length := by
    rw [hacc, List.length_append, List.length_append]
  have hfield : slice st.acc (st.off + 1) 3 = slice msg 1 3 := by
    rw [hacc, hoff, List.append_assoc, slice, slice, List.drop_length_add_append,
      List.drop_append_of_le_length (by omega), List.take_append_of_le_length]
    rw [List.length_drop]
    omega
  have hmsgLen : hsMsgLen st.acc st.off = hsMsgLen msg 0 := congrArg ofBE hfield
  have hslice : slice st.acc st.off (4 + hsMsgLen st.acc st.off) = msg :=
    slice_eq_of_eq_append pre rest hacc hoff (by omega)
  have hend : st'.off + 4 + hsMsgLen st.acc st.off = (pre ++ msg).length := by
    rw [List.length_append]
    omega
  rw [certFlightMsgs, if_neg (by omega)]
  dsimp only
  rw [if_neg (by omega), hslice, h]
  show (if fin then pure ({ st' with off := st'.off + 4 + hsMsgLen st.acc st.off }, true)
    else certFlightMsgs P X args sHs fuel
      { st' with off := st'.off + 4 + hsMsgLen st.acc st.off }) = _
  rw [hend]
  rfl

theorem certFlightMsg_ee (hP : P.HandshakeOk) :
    certFlightMsg P X args sHs ⟨acc, off, seq, {}, ⟨.sha256, fed⟩, spki⟩ emptyEncExt =
      .ok (⟨acc, off, seq, ⟨true, false, false⟩, ⟨.sha256, fed ++ emptyEncExt⟩, spki⟩, false) := by
  have hcheck : checkEncExt [0, 0] args.sniOffered = .ok () := by
    cases args.sniOffered <;> decide
  rw [certFlightMsg_body]
  refine except_bind_eq_ok.2 ⟨⟨true, false, false⟩, rfl, ?_⟩
  refine except_bind_eq_ok.2 ⟨(), hcheck, ?_⟩
  unfold certFlightBody
  refine except_bind_eq_ok.2 ⟨[], rfl, ?_⟩
  exact except_bind_eq_ok.2 ⟨_, hP.toHashOk.updated _ _, rfl⟩

theorem certFlightMsg_cert (hP : P.HandshakeOk) {certDer leaf : Bytes}
    (hlen : 9 + certDer.length < 2 ^ 24)
    (hchain : X.verifyChain [certDer] args.anchor args.serverName args.pinnedKey args.now
      (leafSpkiSz P.build) = .ok leaf) :
    certFlightMsg P X args sHs ⟨acc, off, seq, ⟨true, false, false⟩, ⟨.sha256, fed⟩, spki⟩
        (certMessage certDer) =
      .ok (⟨acc, off, seq, ⟨true, true, false⟩, ⟨.sha256, fed ++ certMessage certDer⟩, leaf⟩,
      false) := by
  have hlist : parseCertList (certListBody [⟨certDer, []⟩]) = .ok [certDer] := by
    apply @parseCertList_body [⟨certDer, []⟩] (show 1 ≤ 4 by decide)
    · exact List.forall_mem_singleton.2 ⟨by dsimp only; omega, show 0 < 2 ^ 16 by decide⟩
    · rw [List.flatMap_singleton, CertEntry.encode_length]
      dsimp only [List.length_nil]
      omega
    · rw [certListBody, List.length_append, vec24_length, List.flatMap_singleton,
        CertEntry.encode_length]
      dsimp only [List.length_nil, List.length_singleton]
      omega
  rw [certFlightMsg_body]
  refine except_bind_eq_ok.2 ⟨⟨true, true, false⟩, rfl, ?_⟩
  refine except_bind_eq_ok.2 ⟨(), rfl, ?_⟩
  unfold certFlightBody
  refine except_bind_eq_ok.2 ⟨[], rfl, ?_⟩
  refine except_bind_eq_ok.2 ⟨_, hP.toHashOk.updated _ _, ?_⟩
  refine except_bind_eq_ok.2 ⟨_, except_bind_eq_ok.2 ⟨_, hlist, ?_⟩, rfl⟩
  exact except_bind_eq_ok.2 ⟨_, hchain, rfl⟩

theorem certFlightMsg_cv (hP : P.HandshakeOk) {scheme : Nat} {th sig : Bytes}
    (hscheme : scheme < 2 ^ 16) (hsig : sig.length < 2 ^ 16)
    (hth : (⟨.sha256, fed⟩ : Transcript).getHash P = .ok th)
    (hverify : certVerify P X scheme spki th sig = .ok ()) :
    certFlightMsg P X args sHs ⟨acc, off, seq, ⟨true, true, false⟩, ⟨.sha256, fed⟩, spki⟩
        (certVerifyMessage scheme sig) =
      .ok (⟨acc, off, seq, ⟨true, true, true⟩, ⟨.sha256, fed ++ certVerifyMessage scheme sig⟩,
      spki⟩,
        false) := by
  rw [certFlightMsg_body]
  refine except_bind_eq_ok.2 ⟨⟨true, true, true⟩, rfl, ?_⟩
  refine except_bind_eq_ok.2 ⟨(), rfl, ?_⟩
  unfold certFlightBody
  refine except_bind_eq_ok.2 ⟨th, hth, ?_⟩
  refine except_bind_eq_ok.2 ⟨_, hP.toHashOk.updated _ _, ?_⟩
  refine except_bind_eq_ok.2 ⟨(), except_bind_eq_ok.2
    ⟨_, parseCertVerify_body hscheme hsig, ?_⟩, rfl⟩
  exact except_bind_eq_ok.2 ⟨(), rfl, hverify⟩

theorem certFlightMsg_fin (hP : P.HandshakeOk) {th mac : Bytes}
    (hth : (⟨.sha256, fed⟩ : Transcript).getHash P = .ok th)
    (hmac : tls13FinishedMac P sHs th 32 .sha256 = .ok mac) :
    certFlightMsg P X args sHs ⟨acc, off, seq, ⟨true, true, true⟩, ⟨.sha256, fed⟩, spki⟩
        (finishedMsg mac) =
      .ok (⟨acc, off, seq, ⟨true, true, true⟩, ⟨.sha256, fed ++ finishedMsg mac⟩, spki⟩, true) := by
  have hmacLen := tls13FinishedMac_length hmac
  rw [certFlightMsg_body]
  refine except_bind_eq_ok.2 ⟨⟨true, true, true⟩, rfl, ?_⟩
  refine except_bind_eq_ok.2 ⟨(), rfl, ?_⟩
  unfold certFlightBody
  refine except_bind_eq_ok.2 ⟨th, hth, ?_⟩
  refine except_bind_eq_ok.2 ⟨_, hP.toHashOk.updated _ _, ?_⟩
  refine except_bind_eq_ok.2 ⟨(), except_bind_eq_ok.2
    ⟨(), rfl, except_bind_eq_ok.2 ⟨_, hmac, ?_⟩⟩, rfl⟩
  apply failIf_eq_ok.2
  rintro (h | h)
  · exact h hmacLen
  · exact h rfl

end Messages

/-! ### The two drivers -/

/-- The arguments of two ends that belong together: the client's checks pass on the certificate, the
server has the key to it, and there is room for the flight. -/
structure CertPair (P : Platform) (X : X509Backend) (client : CertArgs) (server : ServerCertArgs)
    (alg : SigAlg) (spki : Bytes) (sigMax : Nat) : Prop where
  connectOk : client.connectOk P.build = true
  acceptOk : server.acceptOk = true
  word : server.scratchLen < 2 ^ 32
  name : ((client.serverName.map Subtype.val).getD []).length ≤ 255
  scheme : signAlg P.build server.scheme = some alg
  keyOk : X.schemeKeyOk server.scheme spki = true
  signer : SigPair P alg server.keyDer spki sigMax
  trusted : X.verifyChain [server.certDer] client.anchor client.serverName client.pinnedKey
    client.now (leafSpkiSz P.build) = .ok spki
  clientRoom : 85 + server.certDer.length + sigMax ≤ client.ioCap P.build
  accRoom : 63 + server.certDer.length + sigMax ≤ hsAccSz P.build
  serverRoom : 85 + server.certDer.length + sigMax ≤ server.half

theorem hsAccSz_le (B : Build) : hsAccSz B ≤ 13312 := by
  unfold hsAccSz
  split <;> decide

section Flight

variable {P : Platform} {X : X509Backend} {client : CertArgs} {server : ServerCertArgs}
  {alg : SigAlg} {spki fed : Bytes} {sigMax fuel : Nat} {keys : HsKeys}

/-- The four messages of the flight, one after the other. -/
theorem certFlightMsgs_whole (hP : P.HandshakeOk) {sHs leaf sig thCv th mac : Bytes} {scheme : Nat}
    {args : CertArgs} {certDer acc : Bytes} {seq : UInt64} (hcertLen : 9 + certDer.length < 2 ^ 24)
    (hchain : X.verifyChain [certDer] args.anchor args.serverName args.pinnedKey args.now
      (leafSpkiSz P.build) = .ok leaf) (hscheme : scheme < 2 ^ 16) (hsig : sig.length < 2 ^ 16)
    (hthCv : (⟨.sha256, fed ++ emptyEncExt ++ certMessage certDer⟩ : Transcript).getHash P =
      .ok thCv)
    (hverify : certVerify P X scheme leaf thCv sig = .ok ())
    (hth : (⟨.sha256, fed ++ emptyEncExt ++ certMessage certDer ++
      certVerifyMessage scheme sig⟩ : Transcript).getHash P = .ok th)
    (hmac : tls13FinishedMac P sHs th 32 .sha256 = .ok mac)
    (hacc : acc = emptyEncExt ++ certMessage certDer ++ certVerifyMessage scheme sig ++
      finishedMsg mac) :
    certFlightMsgs P X args sHs acc.length ⟨acc, 0, seq, {}, ⟨.sha256, fed⟩, []⟩ =
      .ok (⟨acc, acc.length, seq, ⟨true, true, true⟩, ⟨.sha256, fed ++ emptyEncExt ++
        certMessage certDer ++ certVerifyMessage scheme sig ++ finishedMsg mac⟩, leaf⟩, true) := by
  have hfinLen := finishedMsg_size (tls13FinishedMac_length hmac)
  have hlen : 4 ≤ acc.length := by
    rw [hacc, List.length_append, hfinLen]
    omega
  obtain ⟨fuel, hfuel⟩ := Nat.exists_eq_add_of_le' hlen
  rw [hfuel]
  have hcertMsg : (certMessage certDer).length = 4 + hsMsgLen (certMessage certDer) 0 := by
    apply framed_msgLen
    rw [certListBody, List.length_append, vec24_length, List.flatMap_singleton,
      CertEntry.encode_length]
    dsimp only [List.length_nil, List.length_singleton]
    omega
  have hcvMsg : (certVerifyMessage scheme sig).length =
      4 + hsMsgLen (certVerifyMessage scheme sig) 0 := by
    apply framed_msgLen
    rw [certVerifyBody, List.length_append, vec16_length, u16_length]
    omega
  have hfinMsg : (finishedMsg mac).length = 4 + hsMsgLen (finishedMsg mac) 0 := hfinLen
  refine (certFlightMsgs_more [] (certMessage certDer ++ (certVerifyMessage scheme sig ++
    finishedMsg mac)) ?_ rfl rfl rfl (certFlightMsg_ee hP)).trans ?_
  · rw [hacc]
    simp only [List.nil_append, List.append_assoc]
  refine (certFlightMsgs_more emptyEncExt (certVerifyMessage scheme sig ++ finishedMsg mac)
    ?_ rfl rfl hcertMsg (certFlightMsg_cert hP hcertLen hchain)).trans ?_
  · rw [hacc]
    simp only [List.append_assoc]
  refine (certFlightMsgs_more (emptyEncExt ++ certMessage certDer) (finishedMsg mac) hacc rfl rfl
    hcvMsg (certFlightMsg_cv hP hscheme hsig hthCv hverify)).trans ?_
  refine (certFlightMsgs_more (emptyEncExt ++ certMessage certDer ++ certVerifyMessage scheme sig)
    [] ?_ rfl rfl hfinMsg (certFlightMsg_fin hP hth hmac)).trans ?_
  · rw [hacc, List.append_nil]
  · rw [← hacc, hfuel]
    rfl

/-- The client reads a flight in one record behind a ChangeCipherSpec. -/
theorem certFlight_record {rec flight : Bytes} {st : CertFlight} {tc : Transcript}
    (hfits : (⟨recAppdata, rec⟩ : Rec).Fits (client.ioCap P.build)) (hrec : 22 ≤ rec.length)
    (hopen : openRecord P keys.sKey keys.sIv 0 rec = .ok (recHandshake, flight))
    (hroom : flight.length ≤ hsAccSz P.build)
    (hmsgs : certFlightMsgs P X client keys.sHs flight.length ⟨flight, 0, 1, {}, tc, []⟩ =
      .ok (st, true)) :
    Prog.Gets (certFlight P X client keys (fuel + 2) ⟨[], 0, 0, {}, tc, []⟩)
      (ccsRec.bytes ++ rec) []
      st := by
  have hcap : 6 ≤ client.ioCap P.build := (Nat.le_trans (by decide) hrec).trans hfits.le_cap
  rw [certFlight]
  refine (recvRecord_gets (ccsRec_fits hcap)).reads_bind ?_
  rw [if_pos (show ccsRec.isCcs = true from rfl), certFlight]
  refine (recvRecord_gets hfits).last ?_
  rw [if_neg (show ¬ (⟨recAppdata, rec⟩ : Rec).isCcs = true from Bool.false_ne_true)]
  refine .failIf_bind (not_not.2 rfl) ?_
  refine (recordUnprotect_gets hrec hopen).reads_bind (.failIf_bind (not_not.2 rfl) ?_)
  refine .failIf_bind ?_ (.note_bind ?_)
  · rw [List.length_nil]
    omega
  · exact .lift_bind hmsgs Prog.gets_pure

/-- The server sends its flight, and the client reads it behind a ChangeCipherSpec. -/
theorem certFlight_gets (hP : P.HandshakeOk) (hopens : P.OpensSealed)
    (hpair : CertPair P X client server alg spki sigMax) (hkeys : keys.Proper) (rng : P.Rng) :
    ∃ rec flight th mac,
      Prog.Gets (sendCertFlight P server keys ⟨.sha256, fed⟩ rng) [] rec ⟨.sha256, fed ++ flight⟩ ∧
      (⟨.sha256, fed ++ flight⟩ : Transcript).getHash P = .ok th ∧
      tls13FinishedMac P keys.cHs th 32 .sha256 = .ok mac ∧
      Prog.Gets (connectCertFlight P X (fuel + 2) client keys ⟨.sha256, fed⟩)
        (ccsRec.bytes ++ rec) [] (th, mac) := by
  have hclient := hpair.clientRoom
  have hacc := hpair.accRoom
  have hserver := hpair.serverRoom
  have haccMax := hsAccSz_le P.build
  have hword : server.half < 2 ^ 32 := (Nat.div_le_self _ _).trans_lt hpair.word
  have hcertLen := certMessage_length server.certDer
  obtain ⟨thCv, -, hthCv⟩ := hP.transcriptHash (fed ++ emptyEncExt ++ certMessage server.certDer)
  have hfront : (emptyEncExt ++ certMessage server.certDer).length =
      19 + server.certDer.length := by
    rw [List.length_append, hcertLen]
    show 6 + _ = _
    omega
  obtain ⟨sig, rng', hsign, hsigLen, hverify⟩ := hpair.signer.signs hpair.scheme hpair.keyOk
    (show sigMax ≤ server.half - (emptyEncExt ++
    certMessage server.certDer).length - 8 by omega) thCv rng
  have hcvLen := certVerifyMessage_length server.scheme sig
  obtain ⟨th, -, hth⟩ := hP.transcriptHash
    (fed ++ emptyEncExt ++ certMessage server.certDer ++ certVerifyMessage server.scheme sig)
  obtain ⟨mac, hmac⟩ := hP.finishedMac keys.sHs th
  have hfinLen := finishedMsg_size (tls13FinishedMac_length hmac)
  obtain ⟨flight, hflight⟩ : ∃ flight, emptyEncExt ++ certMessage server.certDer ++
    certVerifyMessage server.scheme sig ++ finishedMsg mac = flight := ⟨_, rfl⟩
  have hlen : flight.length = 63 + server.certDer.length + sig.length := by
    rw [← hflight, List.length_append, List.length_append, hfront, hcvLen, hfinLen]
    omega
  have hmax : flight.length ≤ maxPlaintext := by
    have hvalue : maxPlaintext = 16384 := rfl
    omega
  obtain ⟨rec, hseal, hopen⟩ := sealed_opens hP.toRecordOk hopens hkeys.2 0
    (show recHandshake ≠ 0 by decide) hmax
  have hsize := sealRecord_length hseal
  have hsize' : 22 ≤ rec.length := by omega
  have hfits : (⟨recAppdata, rec⟩ : Rec).Fits (client.ioCap P.build) :=
    sealRecord_fits hseal hmax (by omega)
  obtain ⟨th', -, hth'⟩ := hP.transcriptHash (fed ++ flight)
  obtain ⟨mac', hmac'⟩ := hP.finishedMac keys.cHs th'
  have hscheme := offeredSchemes_lt _ _ (signAlg_offered hpair.scheme)
  have hmsgs := @certFlightMsgs_whole P X fed hP keys.sHs spki sig thCv th mac server.scheme client
    server.certDer flight 1 (by omega) hpair.trusted hscheme (by omega) hthCv hverify hth hmac
    hflight.symm
  have hfed : fed ++ emptyEncExt ++ certMessage server.certDer ++
      certVerifyMessage server.scheme sig ++
      finishedMsg mac = fed ++ flight := by
    rw [← hflight]
    simp only [List.append_assoc]
  rw [hfed] at hmsgs
  refine ⟨rec, flight, th', mac', ?_, hth', hmac', ?_⟩
  · have hcert : serverCertBuild (server.half - emptyEncExt.length) server.certDer =
        .ok (certMessage server.certDer) :=
      serverCertBuild_fits (by omega) (by show _ ≤ _ - 6; omega)
    have hcv : serverCertVerifySign P (server.half - (emptyEncExt ++
        certMessage server.certDer).length) server.scheme server.keyDer thCv rng =
          .ok (certVerifyMessage server.scheme sig) :=
      serverCertVerifySign_fits (by omega) (by omega) hsign
    refine .lift_bind (encExtBuild_eq (by omega)) (.lift_bind (hP.toHashOk.updated _ _) ?_)
    refine .lift_bind hcert (.lift_bind (hP.toHashOk.updated _ _) (.lift_bind hthCv ?_))
    refine .lift_bind hcv (.lift_bind (hP.toHashOk.updated _ _)
      (.lift_bind hth (.lift_bind hmac ?_)))
    refine .failIf_bind ?_ (.note_bind (.lift_bind (hP.toHashOk.updated _ _) ?_))
    · rw [List.length_append, hfront, hcvLen]
      show ¬ _ + 4 + 32 + 5 + 1 + 16 > _
      omega
    rw [hfed, hflight]
    exact (recordProtect_gets hmax hseal).sends_bind (sendRecord_gets.last Prog.gets_pure)
  · refine (certFlight_record hfits hsize' hopen (by omega) hmsgs).last ?_
    exact .lift_bind hth' (.lift_bind hmac' Prog.gets_pure)

end Flight

/-- The client driver from its first read to the handshake keys. -/
def certAfterHello (P : Platform) (fuel : Nat) (args : CertArgs) (st : ClientStart P)
    (tc : Transcript) :
    Shell (HsKeys × Bytes × Transcript) := do
  let (tc, ecdhe) ← recvServerHello P fuel (args.ioCap P.build) (-1) st.sid st.ks tc
  let th ← Prog.lift (tc.getHash P)
  let early ← Prog.lift (tls13Extract P [] (zeros 32) .sha256)
  let keys ← Prog.lift (deriveHsKeys P early ecdhe st.emptyHash th)
  Prog.note (.writeKey keys.cKey keys.cIv)
  pure (keys, st.emptyHash, tc)

section Drivers

variable {P : Platform} {X : X509Backend} {rng rng' : P.Rng}

theorem connectCertHello_split {fuel : Nat} {args : CertArgs} {st : ClientStart P} {msg : Bytes}
    {tc : Transcript} (hstart : clientStart P rng = .ok st)
    (hhello : clientHelloBuildEx P.build args.scratchLen st.random32 st.sid 32 st.cliPub
      args.serverName =
      .ok msg) (htc : st.tc.update P msg = .ok tc) :
    connectCertHello P fuel rng args =
      (do
        sendPlainRecord recHandshake msg
        sendCcs
        certAfterHello P fuel args st tc) := by
  unfold connectCertHello
  rw [hstart, Prog.lift_ok_bind, hhello, Prog.lift_ok_bind, htc, Prog.lift_ok_bind]
  rfl

theorem connectCertImpl_eq {fuel : Nat} {args : CertArgs} {sess : Session}
    (hok : args.connectOk P.build = true) :
    ∃ k, connectCertImpl P X fuel rng args sess = ((connectCertHello P fuel rng args).run >>= k) ∧
      ∀ keys emptyHash tc, ∃ k', k (.ok (keys, emptyHash, tc)) =
          ((connectCertFlight P X fuel args keys tc).run >>= k') ∧
        ∀ th mac, ∃ k'', k' (.ok (th, mac)) =
            ((sendClientFinished P args.scratchLen keys mac).run >>= k'') ∧
          ∃ k₃, k'' (.ok ()) = (establishClient P keys emptyHash th args.scratchLen >>= k₃) ∧
            ∀ s, k₃ (.ok (), s) = pure (.ok (), s) := by
  unfold connectCertImpl
  rw [if_neg (Bool.not_eq_false _ ▸ hok)]
  refine ⟨_, rfl, ?_⟩
  intro keys emptyHash tc
  refine ⟨_, rfl, ?_⟩
  intro th mac
  exact ⟨_, rfl, _, rfl, fun _ => rfl⟩

theorem acceptCertEx_eq {fuel : Nat} {args : ServerCertArgs} {sess : Session}
    (hok : args.acceptOk = true) :
    ∃ k, acceptCertEx P fuel rng args sess = ((acceptCertBody P fuel rng args).run >>= k) ∧
      ∀ keys emptyHash th, k (.ok (keys, emptyHash, th)) =
        establishServer P fuel sess keys emptyHash th args.scratchLen args.half
          args.enc := by
  unfold acceptCertEx
  rw [if_neg (Bool.not_eq_false _ ▸ hok)]
  exact ⟨_, rfl, fun _ _ _ => rfl⟩

variable {client : CertArgs} {server : ServerCertArgs} {alg : SigAlg} {spki : Bytes} {sigMax : Nat}

theorem CertPair.sizes (hpair : CertPair P X client server alg spki sigMax) :
    4096 ≤ client.scratchLen ∧ 4096 ≤ client.ioCap P.build ∧ 4096 ≤ server.scratchLen := by
  have hconnect := hpair.connectOk
  have haccept := hpair.acceptOk
  simp only [CertArgs.connectOk, Bool.and_eq_true, decide_eq_true_eq] at hconnect
  simp only [ServerCertArgs.acceptOk, Bool.and_eq_true, decide_eq_true_eq] at haccept
  have hmin : certScratchMin P.build =
      certIoMin P.build + hsAccSz P.build + leafSpkiSz P.build := rfl
  have hio : 4096 ≤ certIoMin P.build := by
    unfold certIoMin
    split <;> decide
  have hcap : client.ioCap P.build =
      client.scratchLen - (hsAccSz P.build + leafSpkiSz P.build) := rfl
  omega

/-- The ClientHello that is sent, and what the server makes of it. -/
theorem certHello_taken (hP : P.HandshakeOk) (hpair : CertPair P X client server alg spki sigMax)
    (rng : P.Rng) :
    ∃ st msg ch, clientStart P rng = .ok st ∧
      clientHelloBuildEx P.build client.scratchLen st.random32 st.sid 32 st.cliPub
        client.serverName =
        .ok msg ∧
      sha256Hash P [] = .ok st.emptyHash ∧ st.tc = ⟨.sha256, []⟩ ∧ st.ks.Made st.cliPub ∧
      st.sid.length = 32 ∧
      (∀ (fuel : Nat) (tc : Transcript), Prog.Gets (acceptHello P (fuel + 1) server.scratchLen tc)
        (plainRec recHandshake msg).bytes [] ⟨msg, ch, tc, false⟩) ∧
      AnswerDecoded P.build msg st.sid st.cliPub ch ∧ ch.hasSigAlg msg server.scheme = true := by
  obtain ⟨st, hstart, hempty, htc, hmade⟩ := clientStart_ok hP rng
  obtain ⟨hrandom, hsid, hpub⟩ := clientStart_lengths hstart
  obtain ⟨hclientMin, -, hserverMin⟩ := hpair.sizes
  have hname := hpair.name
  obtain ⟨name, hnameEq⟩ : ∃ name, (client.serverName.map Subtype.val).getD [] = name := ⟨_, rfl⟩
  rw [hnameEq] at hname
  obtain ⟨ch, hparse, hdecoded⟩ :=
    @offer_parsed P.build name st.cliPub st.random32 st.sid hrandom hsid.le hpub hname
  have hlen := offerHello_length_le hrandom hsid hpub hname
  have hmsgLen := @HelloParts.encode_msgLen (offerHello P.build name st.cliPub st.random32 st.sid)
    (by omega)
  obtain ⟨F, hF, hbuild⟩ := @clientHelloBuildEx_appends P.build name st.cliPub st.random32
    st.sid hrandom
  generalize (offerHello P.build name st.cliPub st.random32 st.sid).encode = msg at *
  have hwritten : if msg.length ≤ client.scratchLen then F (.init client.scratchLen) =
      .wrote client.scratchLen msg else (F (.init client.scratchLen)).err = true :=
      hF.init (by omega)
  rw [if_pos (by omega)] at hwritten
  have hchecks : ¬ (st.cliPub.length ≠ P.build.group.pubSz ∨ st.sid.length > 32 ∨
      name.length > 255) := by
    omega
  have hhello := hbuild client.scratchLen client.serverName hnameEq
  rw [if_neg hchecks, hwritten, hsid] at hhello
  have hmax : maxPlaintext = 16384 := rfl
  refine ⟨st, msg, ch, hstart, hhello, hempty, htc, hmade, hsid, ?_, hdecoded.answer,
    (hdecoded.sigAlgs _).2 (signAlg_offered hpair.scheme)⟩
  intro fuel tc
  exact acceptHello_gets hmsgLen (by omega) (by omega) hparse hdecoded.keyShare.1

/-- What the two ends say, from the ClientHello to the client's Finished. -/
theorem cert_talk (hP : P.HandshakeOk) (hopens : P.OpensSealed) (hagree : P.KeysAgree)
    (hpair : CertPair P X client server alg spki sigMax)
    (hrandom : ∀ b g, P.rngBlock rng' 32 = some (b, g) → b ≠ hrrRandom) (fuel fuel' : Nat) :
    ∃ st msg hello rec last keys tc th mac,
      connectCertHello P (fuel + 2) rng client =
        (do
          sendPlainRecord recHandshake msg
          sendCcs
          certAfterHello P (fuel + 2) client st ⟨.sha256, msg⟩) ∧
      Prog.Gets (acceptCertBody P (fuel' + 2) rng' server) (plainRec recHandshake msg).bytes
        (hello ++ (ccsRec.bytes ++ rec)) (keys, st.emptyHash, th) ∧
      Prog.Gets (certAfterHello P (fuel + 2) client st ⟨.sha256, msg⟩) hello []
        (keys, st.emptyHash, tc) ∧
      Prog.Gets (connectCertFlight P X (fuel + 2) client keys tc) (ccsRec.bytes ++ rec) []
        (th, mac) ∧
      Prog.Gets (sendClientFinished P client.scratchLen keys mac) [] last () ∧
      tls13FinishedMac P keys.cHs th 32 .sha256 = .ok mac ∧
      Prog.Gets (recvClientFinished P server.scratchLen server.half server.enc keys mac
        (fuel' + 2)) (ccsRec.bytes ++ last) [] () := by
  obtain ⟨st, msg, ch, hstart, hhello, hempty, htc, hmade, hsid, hread, hdecoded, hscheme⟩ :=
    certHello_taken hP hpair rng
  obtain ⟨emptyHash, random32, rng₁, hserver, hempty', hdraw⟩ := serverStart_returns hP rng'
  obtain rfl : emptyHash = st.emptyHash := Except.ok.inj (hempty'.symm.trans hempty)
  have hrandomLen := P.rngBlock_length hdraw
  obtain ⟨-, hclientMin, hserverMin⟩ := hpair.sizes
  have hhalf : server.half = server.scratchLen / 2 := rfl
  have hshareSz := srvShareSz_le P.build.group
  obtain ⟨srvPub, secret, rng₂, hpub, hshared, hsent⟩ :=
    @sendServerHello_gets P random32 st.sid false hP hagree st.ks st.cliPub msg msg ch ⟨.sha256, []⟩
      server.scratchLen hmade hdecoded hrandomLen hsid (by omega) rng₁
  have htaken := @recvServerHello_gets P random32 st.sid srvPub false hP st.ks secret msg (fuel + 1)
    (client.ioCap P.build) hrandomLen (hrandom _ _ hdraw) hsid hpub hshared (by omega)
  generalize (answerParts P random32 st.sid srvPub false).encode = sh at hsent htaken
  obtain ⟨th, -, hth⟩ := hP.transcriptHash (msg ++ sh)
  obtain ⟨early, hearly⟩ := hP.extracted [] (zeros 32)
  obtain ⟨keys, hkeys, hproper⟩ := hP.hsKeys early secret st.emptyHash th
  obtain ⟨rec, flight, th', mac, hflight, hth', hmac, hgot⟩ :=
    @certFlight_gets P X client server alg spki (msg ++ sh) sigMax fuel keys hP hopens hpair
      hproper rng₂
  obtain ⟨last, hlast, hfinished⟩ := @clientFinished_gets P client.scratchLen server.half
    fuel' server.scratchLen server.enc keys mac hP hopens hproper
    (tls13FinishedMac_length hmac) (by omega) (by omega) (by
      rintro off ⟨⟩
      omega)
  refine ⟨st, msg, (plainRec recHandshake sh).bytes, rec, last, keys,
    ⟨.sha256, msg ++ sh⟩, th', mac, ?_, ?_, ?_, hgot, hlast, hmac, hfinished⟩
  · refine connectCertHello_split hstart hhello ?_
    rw [htc]
    exact hP.toHashOk.updated _ _
  · have hoffered : ¬ ch.hasSigAlg msg server.scheme = false := by
      rw [hscheme]
      exact Bool.noConfusion
    rw [← List.append_assoc]
    refine .lift_bind hserver ((hread _ _).turn (.failIf_bind hoffered ?_))
    refine .lift_bind (hP.toHashOk.updated _ _) ?_
    refine hsent.sends_bind (.lift_bind hearly (.lift_bind hth (.lift_bind hkeys (.note_bind ?_))))
    exact hflight.last (.lift_bind hth' Prog.gets_pure)
  · refine htaken.last (.lift_bind hth (.lift_bind hearly (.lift_bind hkeys (.note_bind ?_))))
    exact Prog.gets_pure

theorem cert_meet (hP : P.HandshakeOk) (hopens : P.OpensSealed) (hagree : P.KeysAgree)
    (hpair : CertPair P X client server alg spki sigMax)
    (hrandom : ∀ b g, P.rngBlock rng' 32 = some (b, g) → b ≠ hrrRandom) (sess sess' : Session)
    {fuel fuel' : Nat} (hfuel : 2 ≤ fuel) (hfuel' : 2 ≤ fuel') :
    Meet (connectCertImpl P X fuel rng client sess) (acceptCertEx P fuel' rng' server sess')
      client.scratchLen server.scratchLen := by
  obtain ⟨fuel, rfl⟩ := Nat.exists_eq_add_of_le' hfuel
  obtain ⟨fuel', rfl⟩ := Nat.exists_eq_add_of_le' hfuel'
  obtain ⟨st, msg, hello, rec, last, keys, tc, th, mac, hbody, hserver, hafter, hflight,
    hlast, hmac, hfinished⟩ := @cert_talk P X rng rng' client server alg spki sigMax hP hopens
      hagree hpair hrandom fuel fuel'
  obtain ⟨our, peer, hour, hpeer, hours, htheirs⟩ :=
    sessions_mirror hP .zero sess' keys.hs st.emptyHash th client.scratchLen server.scratchLen
  obtain ⟨k, hconnect, hk⟩ := @connectCertImpl_eq P X rng (fuel + 2) client sess hpair.connectOk
  obtain ⟨k', hk', hk''⟩ := hk keys st.emptyHash tc
  obtain ⟨k'', hk'', k₃, hk₃, hdone⟩ := hk'' th mac
  obtain ⟨q, haccept, hq⟩ := @acceptCertEx_eq P rng' (fuel' + 2) server sess' hpair.acceptOk
  have hgreet : (connectCertHello P (fuel + 2) rng client).run.Goes []
      ((plainRec recHandshake msg).bytes ++ ccsRec.bytes)
      (certAfterHello P (fuel + 2) client st ⟨.sha256, msg⟩).run [] := by
    generalize certAfterHello P (fuel + 2) client st ⟨.sha256, msg⟩ = rest at hbody ⊢
    have hccs : (sendCcs >>= fun _ => rest).run.Goes [] (ccsRec.bytes ++ []) rest.run [] :=
      Prog.Gets.goes sendPlainRecord_gets (.start _ [])
    rw [List.append_nil] at hccs
    rw [hbody]
    exact Prog.Gets.goes sendPlainRecord_gets hccs
  have hestablish : (k'' (.ok ())).Goes [] []
      (.done (.ok (), .fresh our peer client.scratchLen)) [] := by
    have hgo : (establishClient P keys st.emptyHash th client.scratchLen >>= k₃).Goes [] []
        (k₃ (.ok (), .fresh our peer client.scratchLen)) [] := (establishClient_goes hours).bind k₃
    rw [hdone] at hgo
    rw [hk₃]
    exact hgo
  have hfinish : (k' (.ok (th, mac))).Goes [] last
      (.done (.ok (), .fresh our peer client.scratchLen)) [] := by
    rw [hk'']
    have hgo := hlast.run_all.trans hestablish
    rw [List.append_nil] at hgo
    exact hgo
  have hmiddle : (k (.ok (keys, st.emptyHash, tc))).Goes (ccsRec.bytes ++ rec) last
      (.done (.ok (), .fresh our peer client.scratchLen)) [] := by
    rw [hk']
    exact hflight.run_all.trans hfinish
  have hall := hafter.run.trans hmiddle
  have hend := (hq _ _ _).symm ▸ establishServer_goes htheirs hmac hfinished
  obtain ⟨n, hends⟩ := Pair.endsIn_of_turns (hgreet.bind k) hserver.run hall hend
  rw [hconnect, haccept]
  exact ⟨our, peer, n, hour, hpeer, hends⟩

/-- The certificate client and the certificate server agree: on every schedule of the two over a
reliable channel both calls succeed, and the sessions mirror each other. -/
theorem cert_agreement (P : Platform) (X : X509Backend) (hP : P.HandshakeOk)
    (hopens : P.OpensSealed) (hagree : P.KeysAgree) (client : CertArgs)
    (server : ServerCertArgs) (alg : SigAlg) (spki : Bytes) (sigMax : Nat)
    (hpair : CertPair P X client server alg spki sigMax) (rng rng' : P.Rng)
    (hrandom : ∀ b g, P.rngBlock rng' 32 = some (b, g) → b ≠ hrrRandom) (sess sess' : Session)
    (fuel fuel' : Nat) (hfuel : 2 ≤ fuel) (hfuel' : 2 ≤ fuel') :
    ∃ (our peer : TrafficKeys) (n : Nat), our.Proper ∧ peer.Proper ∧
      Pair.EndsIn ⟨connectCertImpl P X fuel rng client sess,
      acceptCertEx P fuel' rng' server sess', [], []⟩
        n ⟨.done (.ok (), .fresh our peer client.scratchLen),
          .done (.ok (), .fresh peer our server.scratchLen), [], []⟩ := by
  exact cert_meet hP hopens hagree hpair hrandom sess sess' hfuel hfuel'

end Drivers

namespace Sample

/-- The SubjectPublicKeyInfo of the certificates with the key `[9]`. -/
def pairSpki : Bytes := tlv 0x30 (tlv 0x30 (tlv 0x06 oidEd25519) ++ tlv 0x03 [0, 9])

def pairClient : CertArgs := ⟨cert 1 [9], 16384, none, none, 1590969600, true⟩

def pairServer : ServerCertArgs := ⟨cert 2 [9], pairSpki, 0x0807, 4096, true⟩

def pairBackend : X509Backend := nativeBackend x509Build (fun _ _ => false)

theorem certPair : CertPair platform pairBackend pairClient pairServer .ed25519 pairSpki 32 where
  connectOk := by decide
  acceptOk := by decide
  word := by decide
  name := by decide
  scheme := by decide
  keyOk := by decide +kernel
  signer := {
    init := rfl
    input := fun msg => ⟨msg, rfl⟩
    keys := by
      refine ⟨pairSpki, pairSpki, rfl, rfl, ?_⟩
      intro input cap rng hcap
      refine ⟨be 32 (ofBE pairSpki + 3 * ofBE input), rng, if_pos hcap, (be_length _ _).le, ?_⟩
      exact beq_self_eq_true _ }
  trusted := by
    have hsome :
        (pairBackend.verifyChain [pairServer.certDer] pairClient.anchor pairClient.serverName
          pairClient.pinnedKey pairClient.now (leafSpkiSz platform.build)).toOption =
          some pairSpki := by
      decide +kernel
    revert hsome
    generalize pairBackend.verifyChain [pairServer.certDer] pairClient.anchor pairClient.serverName
      pairClient.pinnedKey pairClient.now (leafSpkiSz platform.build) = x
    intro hsome
    cases x with
    | error e => cases hsome
    | ok spki => exact congrArg Except.ok (Option.some.inj hsome)
  clientRoom := by decide +kernel
  accRoom := by decide +kernel
  serverRoom := by decide +kernel

end Sample

theorem cert_agreement_sample : ∃ (our peer : TrafficKeys) (n : Nat), our.Proper ∧ peer.Proper ∧
    Pair.EndsIn ⟨connectCertImpl Sample.platform Sample.pairBackend 2 (7 : Nat)
      Sample.pairClient .zero,
        acceptCertEx Sample.platform 2 (100 : Nat) Sample.pairServer .zero, [], []⟩ n
      ⟨.done (.ok (), .fresh our peer 16384), .done (.ok (), .fresh peer our 4096), [], []⟩ := by
  refine cert_agreement Sample.platform Sample.pairBackend Sample.handshakeOk Sample.opensSealed
    Sample.keysAgree Sample.pairClient Sample.pairServer .ed25519 Sample.pairSpki 32 Sample.certPair
    (7 : Nat) (100 : Nat) ?_ .zero .zero 2 2 (Nat.le_refl 2) (Nat.le_refl 2)
  intro b g h
  obtain ⟨hb, -⟩ := Prod.mk.inj (Option.some.inj h)
  rw [← hb]
  decide

end WolfNano
