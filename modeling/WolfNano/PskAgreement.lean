/-
The PSK client against the PSK server over a channel that neither loses nor refuses anything:
both succeed, and their sessions mirror each other.
-/
import WolfNano.HelloSent
import WolfNano.Turns
import WolfNano.Buffers
import WolfNano.Interleaving
import WolfNano.Duplex.DerForm

namespace WolfNano

open Duplex

section Client

variable {P : Platform} {rng : P.Rng} {args : PskArgs}

theorem pskBinder_ok (hP : P.HandshakeOk) (psk emptyHash front : Bytes) :
    ∃ early binder, pskBinder P psk emptyHash front = .ok (early, binder) := by
  obtain ⟨early, hearly⟩ := hP.extracted [] psk
  obtain ⟨binderKey, hkey⟩ := hP.derived early emptyHash "ext binder"
  obtain ⟨th, hth⟩ := hP.toHashOk.hashed front
  obtain ⟨binder, hbinder⟩ := hP.finishedMac binderKey th
  refine ⟨early, binder, ?_⟩
  refine except_bind_eq_ok.2 ⟨_, hearly, ?_⟩
  refine except_bind_eq_ok.2 ⟨_, hkey, ?_⟩
  refine except_bind_eq_ok.2 ⟨_, hth, ?_⟩
  exact except_bind_eq_ok.2 ⟨_, hbinder, rfl⟩

/-- A ClientHello that fits is written whole. -/
theorem buildClientHello_room {B : Build} {random32 sid pub identity : Bytes}
    (hrandom : random32.length = 32) (hsid : sid.length = 32) (hpub : pub.length = B.group.pubSz)
    (hid : identity.length ≤ 0xFFFF) {cap : Nat}
    (hroom : pskHelloOverhead B + identity.length ≤ cap) :
    (buildClientHello B (.init cap) random32 sid pub B.group.id identity).w =
      .wrote cap (pskOffer B random32 sid pub identity (zeros 32)).encode := by
  obtain ⟨F, T, C, hF, -, -, hbuild⟩ :=
    @buildClientHello_appends B pub random32 sid identity hrandom hsid
  have hlen := @pskOffer_length B random32 sid pub identity (zeros 32) hrandom hsid hpub
    (zeros_length 32)
  have hover : pskHelloOverhead B = 163 + 2 * (pskSchemes B).length + B.group.pubSz := rfl
  have hschemes := pskSchemes_length B
  have hpubSz := B.group.pubSz_le
  have hwritten : if _ ≤ cap then F (.init cap) = .wrote cap _ else (F (.init cap)).err = true :=
    hF.init (by omega)
  rw [if_pos (by omega)] at hwritten
  rw [hbuild]
  exact hwritten

theorem pskClientHello_fits (hP : P.HandshakeOk) {st : ClientStart P}
    (hrandom : st.random32.length = 32) (hsid : st.sid.length = 32)
    (hpub : st.cliPub.length = P.build.group.pubSz) (hid : args.identity.val.length ≤ 0xFFFF)
    (hroom : pskHelloOverhead P.build + args.identity.val.length ≤ args.scratchLen) :
    ∃ early binder msg, pskClientHello P args st = .ok (early, msg) ∧ binder.length = 32 ∧
      (pskOffer P.build st.random32 st.sid st.cliPub args.identity.val binder).encode = msg ∧
      pskBinder P args.psk st.emptyHash (msg.take (msg.length - 35)) = .ok (early, binder) := by
  have hwrote := buildClientHello_room hrandom hsid hpub hid hroom
  obtain ⟨hello, hhello⟩ : ∃ hello, buildClientHello P.build (.init args.scratchLen)
    st.random32 st.sid st.cliPub P.build.group.id args.identity.val = hello := ⟨_, rfl⟩
  rw [hhello] at hwrote
  have hfits : hello.w.err = false := by
    rw [hwrote]
    rfl
  obtain ⟨early, binder, hbinder⟩ :=
    pskBinder_ok hP args.psk st.emptyHash (hello.w.buf.take hello.truncOff)
  have hbinderLen := pskBinder_length hbinder
  obtain ⟨hmsg, htrunc, -⟩ :=
    buildClientHello_fits hrandom hsid hpub hid hhello hfits hbinderLen
  obtain ⟨front, hfront⟩ := @pskOffer_front P.build st.random32 st.sid st.cliPub args.identity.val
  have hfrontLen : (pskOffer P.build st.random32 st.sid st.cliPub args.identity.val
      binder).encode.length - 35 ≤ front.length := by
    rw [hfront binder hbinderLen, List.length_append, hbinderLen]
    omega
  refine ⟨early, binder, _, ?_, hbinderLen, rfl, ?_⟩
  · unfold pskClientHello
    rw [hhello]
    refine except_bind_eq_ok.2 ⟨(), failIf_eq_ok.2 (Bool.eq_false_iff.1 hfits), ?_⟩
    refine except_bind_eq_ok.2 ⟨_, hbinder, ?_⟩
    exact congrArg (fun m => Except.ok (early, m)) hmsg
  · have hsame : hello.w.buf.take hello.truncOff = (pskOffer P.build st.random32 st.sid st.cliPub
        args.identity.val binder).encode.take ((pskOffer P.build st.random32 st.sid st.cliPub
        args.identity.val binder).encode.length - 35) := by
      have hbuf : hello.w.buf = front ++ zeros 32 := by
        rw [hwrote, ← hfront _ (zeros_length 32)]
        rfl
      rw [htrunc, hbuf, List.take_append_of_le_length hfrontLen]
      rw [← @List.take_append_of_le_length _ front binder _ hfrontLen, ← hfront binder hbinderLen]
    rw [← hsame]
    exact hbinder

end Client

section Server

variable {P : Platform} {rng : P.Rng} {args : PskArgs}

/-- The server computes the binder that the client sent. -/
theorem acceptBinder_returns (hP : P.HandshakeOk) {emptyHash early binder msg : Bytes}
    {ch : ClientHello} {b : Bool} (hdecoded : PskDecoded args.identity.val binder msg
      (msg.length - 35)
      (msg.length - 32) ch) (hlen : binder.length = 32)
    (hbinder : pskBinder P args.psk emptyHash (msg.take (msg.length - 35)) = .ok (early, binder)) :
    acceptBinder P args emptyHash ⟨msg, ch, ⟨.sha256, []⟩, b⟩ = .ok (early, ⟨.sha256, msg⟩) := by
  obtain ⟨early', hearly, hrest⟩ := except_bind_eq_ok.1 hbinder
  obtain ⟨binderKey, hkey, hrest⟩ := except_bind_eq_ok.1 hrest
  obtain ⟨th, hth, hrest⟩ := except_bind_eq_ok.1 hrest
  obtain ⟨mac, hmac, heq⟩ := except_bind_eq_ok.1 hrest
  cases heq
  obtain ⟨hidLen, idOff, hidOff, hidAt⟩ := hdecoded.identity
  obtain ⟨hbinderOff, -, hbinderAt⟩ := hdecoded.binder
  unfold acceptBinder
  dsimp only
  refine except_bind_eq_ok.2 ⟨(), failIf_eq_ok.2 ?_, ?_⟩
  · rw [hdecoded.havePsk, hidLen, helloBytes, hidOff]
    rintro (h | h | h)
    · cases h
    · exact h rfl
    · exact h hidAt.2
  refine except_bind_eq_ok.2 ⟨_, hearly, ?_⟩
  refine except_bind_eq_ok.2 ⟨_, hkey, ?_⟩
  refine except_bind_eq_ok.2 ⟨_, hP.toHashOk.updated _ _, ?_⟩
  rw [hdecoded.trunc]
  refine except_bind_eq_ok.2 ⟨_, hth, ?_⟩
  refine except_bind_eq_ok.2 ⟨_, hmac, ?_⟩
  refine except_bind_eq_ok.2 ⟨(), failIf_eq_ok.2 ?_, ?_⟩
  · rw [helloBytes, hbinderOff]
    intro h
    apply h
    have hat := hbinderAt.2
    rw [hlen] at hat
    exact hat.symm
  refine except_bind_eq_ok.2 ⟨_, hP.toHashOk.updated _ _, ?_⟩
  rw [List.nil_append, List.take_append_drop]
  rfl

end Server

/-! ### The server's flight -/

/-- The EncryptedExtensions of the server. -/
def emptyEncExt : Bytes := [8, 0, 0, 2, 0, 0]

section Flight

variable {P : Platform}

theorem encExtBuild_eq {cap : Nat} (hcap : 6 ≤ cap) : encExtBuild cap = .ok emptyEncExt := by
  have hwriter : encExtWriter cap = .wrote cap [8, 0, 0, 2, 0, 0] :=
    encExt_appends.fits cap [] (by decide) hcap
  rw [encExtBuild_writer, hwriter]
  rfl

theorem pskFlightMsg_ee (hP : P.HandshakeOk) {sHs fed acc : Bytes} {off : Nat} {seq : UInt64} :
    pskFlightMsg P sHs ⟨acc, off, seq, false, ⟨.sha256, fed⟩⟩ emptyEncExt =
      .ok (⟨acc, off, seq, true, ⟨.sha256, fed ++ emptyEncExt⟩⟩, false) := by
  have hcheck : checkEncExt [0, 0] false = .ok () := by decide
  unfold pskFlightMsg
  dsimp only
  rw [if_pos (show emptyEncExt.getD 0 0 = hsEncryptedExt from rfl)]
  refine except_bind_eq_ok.2 ⟨(), failIf_eq_ok.2 Bool.false_ne_true, ?_⟩
  refine except_bind_eq_ok.2 ⟨(), hcheck, ?_⟩
  exact except_bind_eq_ok.2 ⟨_, hP.toHashOk.updated _ _, rfl⟩

theorem pskFlightMsg_fin (hP : P.HandshakeOk) {sHs fed acc th mac : Bytes} {off : Nat}
    {seq : UInt64} (hth : (⟨.sha256, fed⟩ : Transcript).getHash P = .ok th)
    (hmac : tls13FinishedMac P sHs th 32 .sha256 = .ok mac) :
    pskFlightMsg P sHs ⟨acc, off, seq, true, ⟨.sha256, fed⟩⟩ (finishedMsg mac) =
      .ok (⟨acc, off, seq, true, ⟨.sha256, fed ++ finishedMsg mac⟩⟩, true) := by
  have hmacLen := tls13FinishedMac_length hmac
  have htype : (finishedMsg mac).getD 0 0 = hsFinished := rfl
  unfold pskFlightMsg
  dsimp only
  rw [htype, if_neg (show ¬ hsFinished = hsEncryptedExt by decide), if_pos rfl]
  refine except_bind_eq_ok.2 ⟨(), failIf_eq_ok.2 ?_, ?_⟩
  · rintro (h | h)
    · cases h
    · exact h hmacLen
  refine except_bind_eq_ok.2 ⟨_, hth, except_bind_eq_ok.2 ⟨_, hmac, ?_⟩⟩
  refine except_bind_eq_ok.2 ⟨(), failIf_eq_ok.2 (not_not.2 rfl), ?_⟩
  exact except_bind_eq_ok.2 ⟨_, hP.toHashOk.updated _ _, rfl⟩

/-- The two messages of the flight, one after the other. -/
theorem pskFlightMsgs_whole (hP : P.HandshakeOk) {sHs fed th mac : Bytes} {seq : UInt64}
    (hth : (⟨.sha256, fed ++ emptyEncExt⟩ : Transcript).getHash P = .ok th)
    (hmac : tls13FinishedMac P sHs th 32 .sha256 = .ok mac) :
    pskFlightMsgs P sHs (emptyEncExt ++ finishedMsg mac).length
        ⟨emptyEncExt ++ finishedMsg mac, 0, seq, false, ⟨.sha256, fed⟩⟩ =
      .ok (⟨emptyEncExt ++ finishedMsg mac, 42, seq, true,
        ⟨.sha256, fed ++ emptyEncExt ++ finishedMsg mac⟩⟩, true) := by
  have hfinLen := finishedMsg_size (tls13FinishedMac_length hmac)
  have hlen : (emptyEncExt ++ finishedMsg mac).length = 42 := by
    rw [List.length_append, hfinLen]
    rfl
  have hfirstLen : hsMsgLen (emptyEncExt ++ finishedMsg mac) 0 = 2 := rfl
  have hsecondLen : hsMsgLen (emptyEncExt ++ finishedMsg mac) 6 = 32 := rfl
  have hfirst : slice (emptyEncExt ++ finishedMsg mac) 0 (4 + 2) = emptyEncExt := rfl
  have hsecond : slice (emptyEncExt ++ finishedMsg mac) 6 (4 + 32) = finishedMsg mac :=
    slice_eq_of_eq_append emptyEncExt [] (List.append_nil _).symm rfl hfinLen.symm
  generalize hacc : emptyEncExt ++ finishedMsg mac = acc at *
  have hsize : pskPlainSz = 512 := rfl
  rw [hlen, pskFlightMsgs]
  dsimp only
  rw [if_neg (by omega), hfirstLen, if_neg (by omega), if_neg (by omega), hfirst,
    pskFlightMsg_ee hP]
  show pskFlightMsgs P sHs 41 ⟨acc, 6, seq, true, ⟨.sha256, fed ++ emptyEncExt⟩⟩ = _
  rw [pskFlightMsgs]
  dsimp only
  rw [if_neg (by omega), hsecondLen, if_neg (by omega), if_neg (by omega), hsecond,
    pskFlightMsg_fin hP hth hmac]
  rfl

/-- The server sends its flight, and the client reads it behind a ChangeCipherSpec. -/
theorem pskFlight_gets (hP : P.HandshakeOk) (hopens : P.OpensSealed) {keys : HsKeys}
    (hkeys : keys.Proper) {fed : Bytes} {scratchLen cap fuel : Nat} (hcap : 64 ≤ cap) :
    ∃ rec flight, Prog.Gets (sendPskFlight P scratchLen keys ⟨.sha256, fed⟩) [] rec
        ⟨.sha256, fed ++ flight⟩ ∧
      ∃ st : PskFlight, st.tc = ⟨.sha256, fed ++ flight⟩ ∧
        Prog.Gets (pskFlight P cap keys (fuel + 2) ⟨[], 0, 0, false, ⟨.sha256, fed⟩⟩)
          (ccsRec.bytes ++ rec) [] st := by
  obtain ⟨th, -, hth⟩ := hP.transcriptHash (fed ++ emptyEncExt)
  obtain ⟨mac, hmac⟩ := hP.finishedMac keys.sHs th
  have hfinLen := finishedMsg_size (tls13FinishedMac_length hmac)
  have hlen : (emptyEncExt ++ finishedMsg mac).length = 42 := by
    rw [List.length_append, hfinLen]
    rfl
  have hmax : (emptyEncExt ++ finishedMsg mac).length ≤ maxPlaintext := by
    rw [hlen]
    decide
  obtain ⟨rec, hseal, hopen⟩ := sealed_opens hP.toRecordOk hopens hkeys.2 0
    (show recHandshake ≠ 0 by decide) hmax
  have hsize := sealRecord_length hseal
  have hfits : (⟨recAppdata, rec⟩ : Rec).Fits cap := sealRecord_fits hseal hmax (by omega)
  have hmsgs := @pskFlightMsgs_whole P hP keys.sHs fed th mac 1 hth hmac
  refine ⟨rec, emptyEncExt ++ finishedMsg mac, ?_, ⟨emptyEncExt ++ finishedMsg mac, 42, 1, true,
    ⟨.sha256, fed ++ emptyEncExt ++ finishedMsg mac⟩⟩, ?_, ?_⟩
  · refine .lift_bind (encExtBuild_eq (by decide)) (.lift_bind (hP.toHashOk.updated _ _) ?_)
    refine .lift_bind hth (.lift_bind hmac (.note_bind (.lift_bind (hP.toHashOk.updated _ _) ?_)))
    refine (recordProtect_gets hmax hseal).sends_bind ?_
    refine sendRecord_gets.last ?_
    rw [List.append_assoc]
    exact Prog.gets_pure
  · exact congrArg (Transcript.mk .sha256) (List.append_assoc ..)
  · rw [pskFlight]
    refine (recvRecord_gets (ccsRec_fits (show 6 ≤ cap by omega))).reads_bind ?_
    rw [if_pos (show ccsRec.isCcs = true from rfl), pskFlight]
    refine (recvRecord_gets hfits).last ?_
    rw [if_neg (show ¬ (⟨recAppdata, rec⟩ : Rec).isCcs = true from Bool.false_ne_true)]
    refine .failIf_bind (not_not.2 rfl) (.failIf_bind ?_ ?_)
    · show ¬ (rec.length < 5 + 16 ∨ rec.length - (5 + 16) > 512 - 0)
      omega
    refine (recordUnprotect_gets (by omega) hopen).reads_bind (.failIf_bind (not_not.2 rfl) ?_)
    exact .lift_bind hmsgs Prog.gets_pure

end Flight

/-! ### The two drivers -/

variable (P : Platform)

/-- `wn_Connect_Psk_ex` from its first read on. -/
def pskAfterHello (fuel : Nat) (args : PskArgs) (st : ClientStart P) (early : Bytes)
    (tc : Transcript) : Shell (HsKeys × Bytes × Bytes) := do
  let (tc, ecdhe) ← recvServerHello P fuel args.scratchLen 0 st.sid st.ks tc
  let th ← Prog.lift (tc.getHash P)
  let keys ← Prog.lift (deriveHsKeys P early ecdhe st.emptyHash th)
  Prog.note (.writeKey keys.cKey keys.cIv)
  let flight ← pskFlight P args.scratchLen keys fuel ⟨[], 0, 0, false, tc⟩
  let th ← Prog.lift (flight.tc.getHash P)
  let mac ← Prog.lift (tls13FinishedMac P keys.cHs th 32 .sha256)
  sendClientFinished P args.scratchLen keys mac
  pure (keys, st.emptyHash, th)

variable {P}

theorem connectPskBody_split {fuel : Nat} {rng : P.Rng} {args : PskArgs} {st : ClientStart P}
    {early msg : Bytes} {tc : Transcript} (hstart : clientStart P rng = .ok st)
    (hhello : pskClientHello P args st = .ok (early, msg)) (htc : st.tc.update P msg = .ok tc) :
    connectPskBody P fuel rng args =
      (do
        sendPlainRecord recHandshake msg
        sendCcs
        pskAfterHello P fuel args st early tc) := by
  unfold connectPskBody
  rw [hstart, Prog.lift_ok_bind, hhello, Prog.lift_ok_bind]
  dsimp only
  rw [htc, Prog.lift_ok_bind]
  rfl

/-- The arguments of two ends that belong together: one PSK and one identity, and room for the
ClientHello. -/
structure PskPair (B : Build) (client server : PskArgs) : Prop where
  connectOk : client.connectOk = true
  acceptOk : server.acceptOk B = true
  psk : server.psk = client.psk
  identity : server.identity = client.identity
  named : 0 < client.identity.val.length
  record : pskHelloOverhead B + client.identity.val.length ≤ 2 ^ 14
  clientRoom : pskHelloOverhead B + client.identity.val.length ≤ client.scratchLen
  serverRoom : 5 + (pskHelloOverhead B + client.identity.val.length) ≤ server.scratchLen / 2

section Agreement

variable {client server : PskArgs} {rng rng' : P.Rng}

/-- The ClientHello that is sent, and what the server makes of it. -/
theorem pskHello_taken (hP : P.HandshakeOk) (hargs : PskPair P.build client server) (rng : P.Rng) :
    ∃ st early msg ch, clientStart P rng = .ok st ∧ pskClientHello P client st = .ok (early, msg) ∧
      sha256Hash P [] = .ok st.emptyHash ∧ st.tc = ⟨.sha256, []⟩ ∧ st.ks.Made st.cliPub ∧
      st.sid.length = 32 ∧
      (∀ (fuel : Nat) (tc : Transcript), Prog.Gets (acceptHello P (fuel + 1) server.scratchLen tc)
        (plainRec recHandshake msg).bytes [] ⟨msg, ch, tc, false⟩) ∧
      AnswerDecoded P.build msg st.sid st.cliPub ch ∧
      acceptBinder P server st.emptyHash ⟨msg, ch, ⟨.sha256, []⟩, false⟩ =
        .ok (early, ⟨.sha256, msg⟩) := by
  obtain ⟨st, hstart, hempty, htc, hmade⟩ := clientStart_ok hP rng
  obtain ⟨hrandom, hsid, hpub⟩ := clientStart_lengths hstart
  have hrecord := hargs.record
  have hroom := hargs.serverRoom
  have hidLen : client.identity.val.length ≤ 0xFFFF := by
    have haccepted := hargs.connectOk
    simp only [PskArgs.connectOk, Bool.and_eq_true, decide_eq_true_eq] at haccepted
    exact haccepted.2
  obtain ⟨early, binder, msg, hhello, hbinderLen, hmsg, hbinder⟩ :=
    pskClientHello_fits hP hrandom hsid hpub hidLen hargs.clientRoom
  have hlen := @pskOffer_length P.build st.random32 st.sid st.cliPub client.identity.val
    binder hrandom hsid hpub hbinderLen
  obtain ⟨ch, hparse, hdecoded, hanswer⟩ :=
    pskOffer_parsed hrandom hsid hpub hbinderLen hargs.named hrecord hmsg
  have hmsgLen := @HelloParts.encode_msgLen
    (pskOffer P.build st.random32 st.sid st.cliPub client.identity.val binder) (by omega)
  rw [hmsg] at hlen hmsgLen
  have hread : ∀ (fuel : Nat) (tc : Transcript), Prog.Gets
      (acceptHello P (fuel + 1) server.scratchLen tc) (plainRec recHandshake msg).bytes []
        ⟨msg, ch, tc, false⟩ := fun fuel tc =>
    acceptHello_gets hmsgLen (hlen.trans_le hrecord) (by omega) hparse hanswer.keyShare.1
  rw [← hargs.identity] at hdecoded
  rw [← hargs.psk] at hbinder
  exact ⟨st, early, msg, ch, hstart, hhello, hempty, htc, hmade, hsid, hread, hanswer,
    acceptBinder_returns hP hdecoded hbinderLen hbinder⟩

/-- What the two ends say, from the ClientHello to the client's Finished. -/
theorem psk_talk (hP : P.HandshakeOk) (hopens : P.OpensSealed) (hagree : P.KeysAgree)
    (hargs : PskPair P.build client server)
    (hrandom : ∀ b g, P.rngBlock rng' 32 = some (b, g) → b ≠ hrrRandom) (fuel fuel' : Nat) :
    ∃ st early msg answer last keys th mac,
      connectPskBody P (fuel + 2) rng client =
        (do
          sendPlainRecord recHandshake msg
          sendCcs
          pskAfterHello P (fuel + 2) client st early ⟨.sha256, msg⟩) ∧
      Prog.Gets (acceptPskBody P (fuel' + 2) rng' server) (plainRec recHandshake msg).bytes answer
        (keys, st.emptyHash, th) ∧
      Prog.Gets (pskAfterHello P (fuel + 2) client st early ⟨.sha256, msg⟩) answer last
        (keys, st.emptyHash, th) ∧
      tls13FinishedMac P keys.cHs th 32 .sha256 = .ok mac ∧
      Prog.Gets (recvClientFinished P server.scratchLen flightSz ⟨flightSz, none⟩ keys mac
        (fuel' + 2))
        (ccsRec.bytes ++ last) [] () := by
  obtain ⟨st, early, msg, ch, hstart, hhello, hempty, htc, hmade, hsid, hread, hdecoded, hbinder⟩ :=
    pskHello_taken hP hargs rng
  obtain ⟨emptyHash, random32, rng₁, hserver, hempty', hdraw⟩ := serverStart_returns hP rng'
  obtain rfl : emptyHash = st.emptyHash := Except.ok.inj (hempty'.symm.trans hempty)
  have hrandomLen := P.rngBlock_length hdraw
  have hclientMin : 2048 ≤ client.scratchLen := by
    have haccepted := hargs.connectOk
    simp only [PskArgs.connectOk, Bool.and_eq_true, decide_eq_true_eq] at haccepted
    exact haccepted.1.2
  have hserverMin : 2048 ≤ server.scratchLen := by
    have haccepted := hargs.acceptOk
    simp only [PskArgs.acceptOk, Bool.and_eq_true, decide_eq_true_eq] at haccepted
    exact (acceptScratchMin_ge _).trans haccepted.2
  have hshareSz := srvShareSz_le P.build.group
  obtain ⟨srvPub, secret, rng₂, hpub, hshared, hsent⟩ :=
    @sendServerHello_gets P random32 st.sid true hP hagree st.ks st.cliPub msg msg ch ⟨.sha256, []⟩
      server.scratchLen hmade hdecoded hrandomLen hsid (by omega) rng₁
  have htaken := @recvServerHello_gets P random32 st.sid srvPub true hP st.ks secret msg (fuel + 1)
    client.scratchLen hrandomLen (hrandom _ _ hdraw) hsid hpub hshared (by omega)
  generalize (answerParts P random32 st.sid srvPub true).encode = sh at hsent htaken
  obtain ⟨th, -, hth⟩ := hP.transcriptHash (msg ++ sh)
  obtain ⟨keys, hkeys, hproper⟩ := hP.hsKeys early secret st.emptyHash th
  obtain ⟨rec, flight, hflight, st', htc', hgot⟩ :=
    @pskFlight_gets P hP hopens keys hproper (msg ++ sh) server.scratchLen client.scratchLen fuel
      (by omega)
  obtain ⟨th', -, hth'⟩ := hP.transcriptHash (msg ++ sh ++ flight)
  obtain ⟨mac, hmac⟩ := hP.finishedMac keys.cHs th'
  obtain ⟨last, hlast, hfinished⟩ := @clientFinished_gets P client.scratchLen flightSz
    fuel' server.scratchLen ⟨flightSz, none⟩ keys mac hP hopens hproper
    (tls13FinishedMac_length hmac) (by omega) (by decide) (by rintro off ⟨⟩)
  refine ⟨st, early, msg, (plainRec recHandshake sh).bytes ++ ccsRec.bytes ++ rec, last, keys,
    th', mac, ?_, ?_, ?_, hmac, hfinished⟩
  · refine connectPskBody_split hstart hhello ?_
    rw [htc]
    exact hP.toHashOk.updated _ _
  · refine .lift_bind hserver ((hread _ _).turn (.lift_bind hbinder ?_))
    refine hsent.sends_bind (.lift_bind hth (.lift_bind hkeys (.note_bind ?_)))
    exact hflight.last (.lift_bind hth' Prog.gets_pure)
  · rw [List.append_assoc]
    refine htaken.reads_bind (.lift_bind hth (.lift_bind hkeys (.note_bind ?_)))
    refine hgot.turn ?_
    rw [htc']
    exact .lift_bind hth' (.lift_bind hmac (hlast.last Prog.gets_pure))

theorem connectPskEx_eq {fuel : Nat} {args : PskArgs} {sess : Session}
    (hok : args.connectOk = true) :
    ∃ k, connectPskEx P fuel rng args sess = ((connectPskBody P fuel rng args).run >>= k) ∧
      ∀ keys emptyHash th, k (.ok (keys, emptyHash, th)) =
        establishClient P keys emptyHash th args.scratchLen := by
  unfold connectPskEx
  rw [if_neg (Bool.not_eq_false _ ▸ hok)]
  exact ⟨_, rfl, fun _ _ _ => rfl⟩

theorem acceptPskEx_eq {fuel : Nat} {args : PskArgs} {sess : Session}
    (hok : args.acceptOk P.build = true) :
    ∃ k, acceptPskEx P fuel rng args sess = ((acceptPskBody P fuel rng args).run >>= k) ∧
      ∀ keys emptyHash th, k (.ok (keys, emptyHash, th)) =
        establishServer P fuel sess keys emptyHash th args.scratchLen flightSz
          ⟨flightSz, none⟩ := by
  unfold acceptPskEx
  rw [if_neg (Bool.not_eq_false _ ▸ hok)]
  exact ⟨_, rfl, fun _ _ _ => rfl⟩

theorem psk_meet (hP : P.HandshakeOk) (hopens : P.OpensSealed) (hagree : P.KeysAgree)
    (hargs : PskPair P.build client server)
    (hrandom : ∀ b g, P.rngBlock rng' 32 = some (b, g) → b ≠ hrrRandom) (sess sess' : Session)
    {fuel fuel' : Nat} (hfuel : 2 ≤ fuel) (hfuel' : 2 ≤ fuel') :
    Meet (connectPskEx P fuel rng client sess) (acceptPskEx P fuel' rng' server sess')
      client.scratchLen server.scratchLen := by
  obtain ⟨fuel, rfl⟩ := Nat.exists_eq_add_of_le' hfuel
  obtain ⟨fuel', rfl⟩ := Nat.exists_eq_add_of_le' hfuel'
  obtain ⟨st, early, msg, answer, last, keys, th, mac, hbody, hserver, hclient, hmac, hfinished⟩ :=
    @psk_talk P client server rng rng' hP hopens hagree hargs hrandom fuel fuel'
  obtain ⟨our, peer, hour, hpeer, hours, htheirs⟩ :=
    sessions_mirror hP .zero sess' keys.hs st.emptyHash th client.scratchLen server.scratchLen
  obtain ⟨k, hconnect, hk⟩ := @connectPskEx_eq P rng (fuel + 2) client sess hargs.connectOk
  obtain ⟨k', haccept, hk'⟩ := @acceptPskEx_eq P rng' (fuel' + 2) server sess' hargs.acceptOk
  have hgreet : (connectPskBody P (fuel + 2) rng client).run.Goes []
      ((plainRec recHandshake msg).bytes ++ ccsRec.bytes)
      (pskAfterHello P (fuel + 2) client st early ⟨.sha256, msg⟩).run [] := by
    generalize pskAfterHello P (fuel + 2) client st early ⟨.sha256, msg⟩ = rest at hbody ⊢
    have hccs : (sendCcs >>= fun _ => rest).run.Goes [] (ccsRec.bytes ++ []) rest.run [] :=
      Prog.Gets.goes sendPlainRecord_gets (.start _ [])
    rw [List.append_nil] at hccs
    rw [hbody]
    exact Prog.Gets.goes sendPlainRecord_gets hccs
  have hlast := hclient.run_all.trans ((hk _ _ _).symm ▸ establishClient_goes hours)
  have hend := (hk' _ _ _).symm ▸ establishServer_goes htheirs hmac hfinished
  rw [List.append_nil] at hlast
  obtain ⟨n, hends⟩ := Pair.endsIn_of_turns (hgreet.bind k) hserver.run hlast hend
  rw [hconnect, haccept]
  exact ⟨our, peer, n, hour, hpeer, hends⟩

/-- The PSK client and the PSK server agree: on every schedule of the two over a reliable channel
both calls succeed, and the sessions mirror each other. -/
theorem psk_agreement (P : Platform) (hP : P.HandshakeOk) (hopens : P.OpensSealed)
    (hagree : P.KeysAgree) (client server : PskArgs) (hargs : PskPair P.build client server)
    (rng rng' : P.Rng) (hrandom : ∀ b g, P.rngBlock rng' 32 = some (b, g) → b ≠ hrrRandom)
    (sess sess' : Session) (fuel fuel' : Nat) (hfuel : 2 ≤ fuel) (hfuel' : 2 ≤ fuel') :
    ∃ (our peer : TrafficKeys) (n : Nat), our.Proper ∧ peer.Proper ∧
      Pair.EndsIn ⟨connectPskEx P fuel rng client sess, acceptPskEx P fuel' rng' server sess',
      [], []⟩ n
        ⟨.done (.ok (), .fresh our peer client.scratchLen),
          .done (.ok (), .fresh peer our server.scratchLen), [], []⟩ := by
  exact psk_meet hP hopens hagree hargs hrandom sess sess' hfuel hfuel'

end Agreement

namespace Sample

/-- The number that both sides of the sample's key agreement share. -/
theorem shared_eq {m : Nat} (hm : 32 ≤ m) (k k' : Nat) :
    be 32 (k * ofBE (be m k')) = be 32 (k * k') := by
  have hdvd : 256 ^ 32 ∣ 256 ^ m := Nat.pow_dvd_pow 256 hm
  have hmod : k * (k' % 256 ^ m) % 256 ^ 32 = k * k' % 256 ^ 32 := by
    rw [Nat.mul_mod, Nat.mod_mod_of_dvd _ hdvd, ← Nat.mul_mod]
  apply ofBE_inj
  · rw [be_length, be_length]
  · rw [ofBE_be, ofBE_be, ofBE_be]
    exact hmod

theorem handshakeOk : platform.HandshakeOk where
  toRecordOk := recordOk
  toHashOk := ⟨fun _ _ => rfl, fun _ => rfl⟩
  rng _ _ := rfl
  hashInit := rfl
  extract _ _ := rfl
  hmac _ _ := rfl
  dhInit _ := rfl
  dhMake _ _ := rfl
  dhPublic _ _ _ _ _ := rfl
  dhShared _ _ _ _ _ _ _ := rfl
  kemInit := rfl
  kemMake _ := rfl
  kemPublic _ _ _ _ := rfl
  kemEncap _ _ _ _ := rfl
  kemDecap _ _ _ _ _ _ _ _ := rfl

theorem keysAgree : platform.KeysAgree where
  dh c (k : Nat) pub (k' : Nat) pub' h h' := by
    have hpub : be c.pubSz k = pub := Option.some.inj h.2
    have hpub' : be c.pubSz k' = pub' := Option.some.inj h'.2
    have hsize : 32 ≤ c.pubSz := by
      cases c <;> decide
    have hsame : be 32 (k * ofBE pub') = be 32 (k' * ofBE pub) := by
      rw [← hpub, ← hpub', shared_eq hsize, shared_eq hsize, Nat.mul_comm]
    exact congrArg some hsame
  kem (k : Nat) pub (g : Nat) ct ss g' ss' h hencap hdecap := by
    have hpub : be 1184 k = pub := Option.some.inj h.2
    obtain ⟨hcts, -⟩ := Prod.mk.inj (Option.some.inj hencap)
    obtain ⟨hct, hss⟩ := Prod.mk.inj hcts
    have hss' : be 32 (k * ofBE ct) = ss' := Option.some.inj hdecap
    rw [← hss', ← hct, ← hss, ← hpub, shared_eq (by decide), shared_eq (by decide), Nat.mul_comm]

/-- The server of the samples, with room for the ClientHello in half of its buffer. -/
theorem pskPair : PskPair platform.build pskArgs pskArgs := by
  constructor <;> decide +kernel

end Sample

theorem psk_agreement_sample : ∃ (our peer : TrafficKeys) (n : Nat), our.Proper ∧ peer.Proper ∧
    Pair.EndsIn ⟨connectPskEx Sample.platform 2 (7 : Nat) Sample.pskArgs .zero,
        acceptPskEx Sample.platform 2 (100 : Nat) Sample.pskArgs .zero, [], []⟩ n
      ⟨.done (.ok (), .fresh our peer 2048), .done (.ok (), .fresh peer our 2048), [], []⟩ := by
  refine psk_agreement Sample.platform Sample.handshakeOk Sample.opensSealed Sample.keysAgree
    Sample.pskArgs Sample.pskArgs Sample.pskPair (7 : Nat) (100 : Nat) ?_ .zero .zero 2 2
    (Nat.le_refl 2) (Nat.le_refl 2)
  intro b g h
  obtain ⟨hb, -⟩ := Prod.mk.inj (Option.some.inj h)
  rw [← hb]
  decide

end WolfNano
