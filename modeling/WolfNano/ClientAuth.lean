/-
What a client knows of its server when it succeeds: the ServerHello it accepted, the
messages of the flight, and the transcripts their checks were made over.
-/
import WolfNano.FlightEnd
import WolfNano.Reading

namespace WolfNano

open Duplex

/-! ### The ServerHello -/

/-- The checks on a ServerHello, of a client that offered this session id. -/
structure HelloAccepted (B : Build) (pskSelected : Int) (sid msg : Bytes) (sh : ServerHello) :
    Prop where
  parsed : serverHelloParse msg = .ok sh
  notRetry : sh.isHelloRetry = false
  cipher : sh.cipher = cipherAes128GcmSha256
  version : sh.version = 0x0304
  group : sh.group = B.group.id
  share : sh.keyShare.isSome = true ∧ sh.keyShareLen = B.group.srvShareSz
  psk : sh.pskSelected = pskSelected
  sessionId : sh.sessionIdLen = 32 ∧ sh.sessionId.map (fun off => slice msg off 32) = some sid

/-- The hash of these handshake bytes. -/
def transcriptHash (P : Platform) (b : Bytes) : Except Err Bytes :=
  (⟨.sha256, b⟩ : Transcript).getHash P

section Hello

variable {P : Platform} {fuel cap : Nat} {tr : List (Act Ev)} {tc tc' : Transcript}

theorem serverHelloOk_iff {B : Build} {pskSelected : Int} {sid msg : Bytes} {sh : ServerHello} :
    serverHelloOk B sid pskSelected msg sh = true ↔
      sh.keyShare.isSome = true ∧ sh.keyShareLen = B.group.srvShareSz ∧
        sh.cipher = cipherAes128GcmSha256 ∧ sh.version = 0x0304 ∧ sh.group = B.group.id ∧
          sh.pskSelected = pskSelected ∧ sh.sessionIdLen = 32 ∧
            sh.sessionId.map (fun off => slice msg off 32) = some sid := by
  unfold serverHelloOk
  simp only [Bool.and_eq_true, beq_iff_eq, and_assoc]

theorem recvSkipCcs_reads {r : Rec} (h : Prog.Ok (recvSkipCcs cap fuel) tr r) :
    ∃ t, tr = t ++ r.reads := by
  induction fuel generalizing tr with
  | zero => exact absurd h Prog.ok_spin
  | succ fuel ih =>
      obtain ⟨r', s, t, rfl, hread, h⟩ := Prog.ok_bind.1 h
      by_cases hccs : r'.isCcs = true
      · rw [if_pos hccs] at h
        obtain ⟨u, rfl⟩ := ih h
        exact ⟨s ++ u, (List.append_assoc ..).symm⟩
      · rw [if_neg hccs] at h
        obtain ⟨rfl, rfl⟩ := Prog.ok_pure.1 h
        obtain ⟨-, rfl⟩ := recvRecord_ok.1 hread
        exact ⟨[], List.append_nil _⟩

/-- A ServerHello that was accepted is a record of the run. -/
theorem recvServerHello_ok {pskSelected : Int} {sid ecdhe : Bytes} {ks : KeyShare P}
    (h : Prog.Ok (recvServerHello P fuel cap pskSelected sid ks tc) tr (tc', ecdhe)) :
    ∃ (t : List (Act Ev)) (r : Rec) (sh : ServerHello), tr = t ++ r.reads ∧ r.rtype = recHandshake ∧
      HelloAccepted P.build pskSelected sid r.fragment sh ∧
        tc' = { tc with fed := tc.fed ++ r.fragment } ∧
          keyShareShared P ks (sh.share r.fragment) = .ok ecdhe := by
  unfold recvServerHello at h
  simp only [Prog.ok_bind, Prog.ok_failIf, Prog.ok_lift, Prog.ok_pure] at h
  obtain ⟨r, s, _, rfl, hskip, _, _, _, rfl, ⟨rfl, htype⟩, sh, _, _, rfl, ⟨rfl, hparse⟩, _, _, _,
    rfl, ⟨rfl, hretry⟩, tc₁, _, _, rfl, ⟨rfl, htc⟩, _, _, _, rfl, ⟨rfl, hok⟩, ecdhe', _, _, rfl,
    ⟨rfl, hshared⟩, rfl, heq⟩ := h
  cases heq
  obtain ⟨t, rfl⟩ := recvSkipCcs_reads hskip
  obtain ⟨hshare, hlen, hcipher, hversion, hgroup, hpsk, hsidLen, hsid⟩ :=
    serverHelloOk_iff.1 (Bool.not_eq_false _ ▸ hok)
  refine ⟨t, r, sh, by simp, not_not.1 htype, ?_, Transcript.update_eq htc, hshared⟩
  exact ⟨hparse, Bool.eq_false_iff.2 hretry, hcipher, hversion, hgroup, ⟨hshare, hlen⟩, hpsk,
    hsidLen, hsid⟩

theorem clientStart_tc {rng : P.Rng} {st : ClientStart P} (h : clientStart P rng = .ok st) :
    st.tc = ⟨.sha256, []⟩ := by
  unfold clientStart at h
  simp only [except_bind_eq_ok, except_pure_eq_ok] at h
  obtain ⟨_, -, _, -, _, -, _, -, _, -, tc, htc, rfl⟩ := h
  unfold transcriptInit at htc
  split at htc
  · split at htc
    · exact (Except.ok.inj htc).symm
    · cases htc
  · cases htc

theorem sendPlainRecord_ok {type : UInt8} {body : Bytes} {u : Unit}
    (h : Prog.Ok (sendPlainRecord type body) tr u) :
    sends tr = [plainHeader type body.length, body] := by
  unfold sendPlainRecord at h
  simp only [Prog.ok_bind, Prog.ok_failIf, Prog.ok_send] at h
  obtain ⟨_, _, _, rfl, rfl, _, _, _, rfl, ⟨rfl, -⟩, _, _, _, rfl, rfl, rfl, -⟩ := h
  rfl

end Hello

/-! ### The PSK flight -/

section Psk

variable {P : Platform} {sHs : Bytes} {s s' : PskParse} {msg : Bytes}

theorem pskStep_encExt (h : pskStep P sHs s msg = .ok (s', false)) :
    hsType msg = hsEncryptedExt ∧ checkEncExt (msg.drop 4) false = .ok () ∧
      s'.tc = { s.tc with fed := s.tc.fed ++ msg } := by
  unfold pskStep pskFlightMsg at h
  dsimp only at h
  by_cases hee : msg.getD 0 0 = hsEncryptedExt
  · rw [if_pos hee] at h
    simp only [except_map_bind, except_bind_eq_ok] at h
    obtain ⟨_, -, _, hcheck, tc, htc, heq⟩ := h
    cases heq
    exact ⟨hee, hcheck, Transcript.update_eq htc⟩
  · rw [if_neg hee] at h
    split at h
    · simp only [except_map_bind, except_bind_eq_ok] at h
      obtain ⟨_, -, _, -, _, -, _, -, _, -, heq⟩ := h
      cases heq
    · cases h

theorem pskStep_finished (h : pskStep P sHs s msg = .ok (s', true)) :
    hsType msg = hsFinished ∧ (msg.drop 4).length = 32 ∧
      (∃ th, s.tc.getHash P = .ok th ∧
        tls13FinishedMac P sHs th 32 .sha256 = .ok (msg.drop 4)) ∧
      s'.tc = { s.tc with fed := s.tc.fed ++ msg } := by
  unfold pskStep pskFlightMsg at h
  dsimp only at h
  by_cases hee : msg.getD 0 0 = hsEncryptedExt
  · rw [if_pos hee] at h
    simp only [except_map_bind, except_bind_eq_ok] at h
    obtain ⟨_, -, _, -, _, -, heq⟩ := h
    cases heq
  · rw [if_neg hee] at h
    by_cases hfin : msg.getD 0 0 = hsFinished
    · rw [if_pos hfin] at h
      simp only [except_map_bind, except_bind_eq_ok, failIf_eq_ok] at h
      obtain ⟨_, hshape, th, hth, mac, hmac, _, hsame, tc, htc, heq⟩ := h
      cases heq
      rw [not_not.1 hsame] at hmac
      exact ⟨hfin, not_not.1 (not_or.1 hshape).2, ⟨th, hth, hmac⟩, Transcript.update_eq htc⟩
    · rw [if_neg hfin] at h
      cases h

/-- The two messages of the PSK flight. -/
theorem pskReads {p rest : Bytes} {tc : Transcript}
    (h : (pskReassembly P sHs).Reads ⟨0, false, tc⟩ p s' rest true) :
    ∃ ee fin, p = ee ++ fin ++ rest ∧ IsHsMsg ee ∧ IsHsMsg fin ∧
      hsType ee = hsEncryptedExt ∧ checkEncExt (ee.drop 4) false = .ok () ∧
      hsType fin = hsFinished ∧ (fin.drop 4).length = 32 ∧
      (∃ th, ({ tc with fed := tc.fed ++ ee } : Transcript).getHash P = .ok th ∧
        tls13FinishedMac P sHs th 32 .sha256 = .ok (fin.drop 4)) ∧
      s'.tc = { tc with fed := tc.fed ++ ee ++ fin } := by
  cases h with
  | last hpull =>
      obtain ⟨-, -, -, -, hstep⟩ := pskPull_msg.1 hpull
      have hexpected := pskStep_expected hstep
      cases (List.cons.inj hexpected).2
  | @next _ s₁ _ _ _ n _ hpull hrest =>
      obtain ⟨hhdr, hsize, -, hle, hstep⟩ := pskPull_msg.1 hpull
      have hexpected := pskStep_expected hstep
      have hone : s₁.expected = [hsFinished] := (List.cons.inj hexpected).2.symm
      obtain ⟨htype, hcheck, htc⟩ := pskStep_encExt hstep
      cases hrest with
      | @last _ _ _ n' hpull' =>
          obtain ⟨hhdr', hsize', -, hle', hstep'⟩ := pskPull_msg.1 hpull'
          obtain ⟨htype', hlen, hmac, htc'⟩ := pskStep_finished hstep'
          rw [htc] at hmac htc'
          refine ⟨p.take n, (p.drop n).take n', ?_, pulled_isHsMsg hsize hle,
            pulled_isHsMsg hsize' hle', htype, hcheck, htype', hlen, hmac, htc'⟩
          rw [List.append_assoc, List.take_append_drop, List.take_append_drop]
      | @next _ s₂ _ _ _ n' _ hpull' hrest' =>
          obtain ⟨-, -, -, -, hstep'⟩ := pskPull_msg.1 hpull'
          have hexpected' := pskStep_expected hstep'
          rw [hone] at hexpected'
          have hnone : s₂.expected = [] := (List.cons.inj hexpected').2.symm
          unfold PskParse.expected at hnone
          split at hnone
          · cases hnone
          · cases hnone

end Psk

/-! ### The certificate flight -/

/-- The signature of a CertificateVerify takes the rest of its body. -/
theorem parseCertVerify_spans {body sig : Bytes} {scheme : Nat}
    (h : parseCertVerify body = .ok (scheme, sig)) :
    4 ≤ body.length ∧ scheme = ofBE (body.take 2) ∧ sig = body.drop 4 := by
  let first := (Reader.init body).uint 2
  let second := first.2.uint 2
  have hdef : parseCertVerify body =
      failIf (second.2.err = true ∨ add32 second.2.pos second.1 ≠ body.length) .decode >>=
        fun _ => pure (first.1, slice body second.2.pos second.1) := rfl
  rw [hdef, except_bind_eq_ok] at h
  obtain ⟨_, hfail, heq⟩ := h
  obtain ⟨herr, hspan⟩ := not_or.1 (failIf_eq_ok.1 hfail)
  obtain ⟨herr₁, hroom, hread₂⟩ := Reader.uint_noErr (Bool.eq_false_iff.2 herr)
  obtain ⟨-, -, hread₁⟩ := Reader.uint_noErr herr₁
  have hrest : first.2 = ⟨body, 2, false⟩ := congrArg Prod.snd hread₁
  rw [hrest] at hroom
  have hfirst : first.1 = ofBE (body.take 2) := congrArg Prod.fst hread₁
  have hread : second = (ofBE (slice body 2 2), ⟨body, 4, false⟩) := by
    rw [hrest] at hread₂
    exact (congrArg (Reader.uint · 2) hrest).trans hread₂
  have hsecond : second.1 = ofBE (slice body 2 2) := congrArg Prod.fst hread
  have hpos : second.2.pos = 4 := congrArg (fun x => x.2.pos) hread
  rw [hpos, hsecond] at hspan
  rw [hpos, hfirst, hsecond] at heq
  cases heq
  have hlen : 4 ≤ body.length := hroom
  have hcv : ofBE (slice body 2 2) < 2 ^ 16 := by
    refine ofBE_lt_u16 ?_
    exact slice_length (by omega)
  have hend : 4 + ofBE (slice body 2 2) = body.length := by
    have hwrap : add32 4 (ofBE (slice body 2 2)) = body.length := not_not.1 hspan
    rwa [add32_eq (by omega)] at hwrap
  exact ⟨hlen, rfl, List.take_of_length_le (by rw [List.length_drop]; exact hend ▸ by omega)⟩

section Cert

variable {P : Platform} {X : X509Backend} {args : CertArgs} {sHs : Bytes} {s s' : CertParse}
  {msg : Bytes} {last : Bool}

/-- What each message of the certificate flight is checked for. -/
structure CertChecked (P : Platform) (X : X509Backend) (args : CertArgs) (sHs : Bytes)
    (s s' : CertParse) (msg : Bytes) : Prop where
  encExt : hsType msg = hsEncryptedExt → checkEncExt (msg.drop 4) args.sniOffered = .ok ()
  chain : hsType msg = hsCertificate → ∃ certs, parseCertList (msg.drop 4) = .ok certs ∧
    X.verifyChain certs args.anchor args.serverName args.pinnedKey args.now
      (leafSpkiSz P.build) = .ok s'.spki
  verify : hsType msg = hsCertVerify → s'.spki = s.spki ∧ ∃ th scheme sig,
    s.tc.getHash P = .ok th ∧ parseCertVerify (msg.drop 4) = .ok (scheme, sig) ∧
      certVerify P X scheme s.spki th sig = .ok ()
  finished : hsType msg = hsFinished → (msg.drop 4).length = 32 ∧ ∃ th,
    s.tc.getHash P = .ok th ∧ tls13FinishedMac P sHs th 32 .sha256 = .ok (msg.drop 4)
  tc : s'.tc = { s.tc with fed := s.tc.fed ++ msg }

theorem certFlightBody_checked {st st' : CertFlight} {seen : FlightSeen}
    (hcheck : hsType msg = hsEncryptedExt → checkEncExt (msg.drop 4) args.sniOffered = .ok ())
    (h : certFlightBody P X args sHs st seen msg = .ok (st', last)) :
    CertChecked P X args sHs st.parse st'.parse msg := by
  unfold certFlightBody at h
  simp only [except_bind_eq_ok] at h
  obtain ⟨th, hth, tc, htc, h⟩ := h
  have hfed := Transcript.update_eq htc
  by_cases hcert : msg.getD 0 0 = hsCertificate
  · rw [if_pos hcert] at h
    unfold certFlightCertificate at h
    simp only [except_bind_eq_ok] at h
    obtain ⟨st₁, ⟨certs, hcerts, spki, hspki, heq'⟩, heq⟩ := h
    cases heq'
    cases heq
    exact ⟨hcheck, fun _ => ⟨certs, hcerts, hspki⟩, fun h => absurd (hcert.symm.trans h)
      (by decide), fun h => absurd (hcert.symm.trans h) (by decide), hfed⟩
  · rw [if_neg hcert] at h
    by_cases hverify : msg.getD 0 0 = hsCertVerify
    · rw [if_pos hverify] at h
      have hhash : st.tc.getHash P = .ok th := by
        rwa [certFlightSnapshot, if_pos (.inl hverify)] at hth
      unfold certFlightVerify at h
      simp only [except_bind_eq_ok] at h
      obtain ⟨_, ⟨⟨scheme, sig⟩, hparse, _, -, hverified⟩, heq⟩ := h
      cases heq
      exact ⟨hcheck, fun h => absurd h hcert, fun _ => ⟨rfl, th, scheme, sig, hhash, hparse,
        hverified⟩, fun h => absurd (hverify.symm.trans h) (by decide), hfed⟩
    · rw [if_neg hverify] at h
      by_cases hfin : msg.getD 0 0 = hsFinished
      · rw [if_pos hfin] at h
        have hhash : st.tc.getHash P = .ok th := by
          rwa [certFlightSnapshot, if_pos (.inr hfin)] at hth
        unfold certFlightFinished at h
        simp only [except_bind_eq_ok, failIf_eq_ok] at h
        obtain ⟨_, ⟨_, -, mac, hmac, hsame⟩, heq⟩ := h
        cases heq
        obtain ⟨hlen, heqMac⟩ := not_or.1 hsame
        rw [not_not.1 heqMac] at hmac
        exact ⟨hcheck, fun h => absurd h hcert, fun h => absurd h hverify,
          fun _ => ⟨not_not.1 hlen, th, hhash, hmac⟩, hfed⟩
      · rw [if_neg hfin] at h
        cases h
        exact ⟨hcheck, fun h => absurd h hcert, fun h => absurd h hverify,
          fun h => absurd h hfin, hfed⟩

theorem certStep_checked (h : certStep P X args sHs s msg = .ok (s', last)) :
    CertChecked P X args sHs s s' msg := by
  unfold certStep at h
  rw [certFlightMsg_body] at h
  simp only [except_map_bind, except_bind_eq_ok] at h
  obtain ⟨seen, -, _, hcheck, h⟩ := h
  cases hbody : certFlightBody P X args sHs ⟨[], s.off, 0, s.seen, s.tc, s.spki⟩ seen msg with
  | error e =>
      rw [hbody] at h
      cases h
  | ok x =>
      rw [hbody] at h
      cases h
      obtain ⟨hencExt, hchain, hverify, hfinished, htc⟩ := certFlightBody_checked
        (fun hee => (if_pos hee).symm.trans hcheck) hbody
      exact ⟨hencExt, hchain, hverify, hfinished, htc⟩

/-- The next message of a flight, and the rest of the flight. -/
theorem certReads_next {p rest : Bytes} {type : UInt8} {types : List UInt8}
    (h : (certReassembly P X args sHs).Reads s p s' rest true) (hseen : s.seen.InOrder)
    (hexpected : s.seen.expected = type :: types) :
    ∃ msg p' s₁, p = msg ++ p' ∧ IsHsMsg msg ∧ hsType msg = type ∧
      CertChecked P X args sHs s s₁ msg ∧
        (types = [] → s₁ = s' ∧ p' = rest) ∧
          (types ≠ [] → s₁.seen.InOrder ∧ s₁.seen.expected = types ∧
            (certReassembly P X args sHs).Reads s₁ p' s' rest true) := by
  cases h with
  | @last _ _ _ n hpull =>
      obtain ⟨hhdr, hsize, hle, hstep⟩ := certPull_msg.1 hpull
      obtain ⟨-, htypes⟩ := certStep_expected hseen hstep
      obtain ⟨htype, hnil⟩ := List.cons.inj (hexpected.symm.trans htypes)
      refine ⟨p.take n, p.drop n, s', (List.take_append_drop n p).symm,
        pulled_isHsMsg hsize hle, htype.symm, certStep_checked hstep, fun _ => ⟨rfl, rfl⟩,
        fun hne => absurd hnil hne⟩
  | @next _ s₁ _ _ _ n _ hpull hrest =>
      obtain ⟨hhdr, hsize, hle, hstep⟩ := certPull_msg.1 hpull
      obtain ⟨hseen₁, htypes⟩ := certStep_expected hseen hstep
      obtain ⟨htype, hmore⟩ := List.cons.inj (hexpected.symm.trans htypes)
      refine ⟨p.take n, p.drop n, s₁, (List.take_append_drop n p).symm,
        pulled_isHsMsg hsize hle, htype.symm, certStep_checked hstep, ?_,
        fun _ => ⟨hseen₁, hmore.symm, hrest⟩⟩
      rintro rfl
      have hsome : s₁.seen.expected ≠ [] := by
        unfold FlightSeen.expected certTypes
        split_ifs <;> exact List.cons_ne_nil _ _
      exact absurd hmore.symm hsome

/-- The four messages of the certificate flight, and what each was checked against. -/
structure CertMessages (P : Platform) (X : X509Backend) (args : CertArgs) (sHs before : Bytes)
    (ee cert verify fin : Bytes) (certs : List Bytes) (spki : Bytes) (scheme : Nat)
    (sig : Bytes) : Prop where
  encExt : IsHsMsg ee ∧ hsType ee = hsEncryptedExt ∧
    checkEncExt (ee.drop 4) args.sniOffered = .ok ()
  chain : IsHsMsg cert ∧ hsType cert = hsCertificate ∧
    parseCertList (cert.drop 4) = .ok certs ∧
      X.verifyChain certs args.anchor args.serverName args.pinnedKey args.now
        (leafSpkiSz P.build) = .ok spki
  certVerify : IsHsMsg verify ∧ hsType verify = hsCertVerify ∧
    parseCertVerify (verify.drop 4) = .ok (scheme, sig) ∧ sig = (verify.drop 4).drop 4 ∧
      ∃ th, transcriptHash P (before ++ ee ++ cert) = .ok th ∧
        WolfNano.certVerify P X scheme spki th sig = .ok ()
  finished : IsHsMsg fin ∧ hsType fin = hsFinished ∧ (fin.drop 4).length = 32 ∧
    ∃ th, transcriptHash P (before ++ ee ++ cert ++ verify) = .ok th ∧
      tls13FinishedMac P sHs th 32 .sha256 = .ok (fin.drop 4)

theorem certReads {p rest before : Bytes}
    (h : (certReassembly P X args sHs).Reads ⟨0, {}, ⟨.sha256, before⟩, []⟩ p s' rest true) :
    ∃ ee cert verify fin certs spki scheme sig, p = ee ++ cert ++ verify ++ fin ++ rest ∧
      CertMessages P X args sHs before ee cert verify fin certs spki scheme sig ∧
        s'.tc = ⟨.sha256, before ++ ee ++ cert ++ verify ++ fin⟩ := by
  have hinOrder : (({} : FlightSeen)).InOrder := ⟨fun h => (nomatch h), fun h => (nomatch h)⟩
  obtain ⟨ee, p₁, s₁, rfl, hee, heeType, hchecked₁, -, hmore⟩ :=
    @certReads_next _ _ _ _ _ _ _ _ hsEncryptedExt _ h hinOrder rfl
  obtain ⟨hinOrder₁, hexpected₁, h₁⟩ := hmore (List.cons_ne_nil _ _)
  obtain ⟨cert, p₂, s₂, rfl, hcert, hcertType, hchecked₂, -, hmore⟩ :=
    certReads_next h₁ hinOrder₁ hexpected₁
  obtain ⟨hinOrder₂, hexpected₂, h₂⟩ := hmore (List.cons_ne_nil _ _)
  obtain ⟨verify, p₃, s₃, rfl, hverify, hverifyType, hchecked₃, -, hmore⟩ :=
    certReads_next h₂ hinOrder₂ hexpected₂
  obtain ⟨hinOrder₃, hexpected₃, h₃⟩ := hmore (List.cons_ne_nil _ _)
  obtain ⟨fin, p₄, s₄, rfl, hfin, hfinType, hchecked₄, hend, -⟩ :=
    certReads_next h₃ hinOrder₃ hexpected₃
  obtain ⟨rfl, rfl⟩ := hend rfl
  have htc₁ := hchecked₁.tc
  have htc₂ := hchecked₂.tc
  have htc₃ := hchecked₃.tc
  have htc₄ := hchecked₄.tc
  rw [htc₁] at htc₂
  rw [htc₂] at htc₃
  rw [htc₃] at htc₄
  obtain ⟨certs, hcerts, hchain⟩ := hchecked₂.chain hcertType
  obtain ⟨hspki₃, th, scheme, sig, hth, hparse, hverified⟩ := hchecked₃.verify hverifyType
  obtain ⟨hlen, th', hth', hmac⟩ := hchecked₄.finished hfinType
  rw [htc₂] at hth
  rw [htc₃] at hth'
  refine ⟨ee, cert, verify, fin, certs, s₂.spki, scheme, sig, ?_, ?_, htc₄⟩
  · simp only [List.append_assoc]
  · exact ⟨⟨hee, heeType, hchecked₁.encExt heeType⟩, ⟨hcert, hcertType, hcerts, hchain⟩,
      ⟨hverify, hverifyType, hparse, (parseCertVerify_spans hparse).2.2, th, hth, hverified⟩,
      ⟨hfin, hfinType, hlen, th', hth', hmac⟩⟩

end Cert

/-! ### The PSK client -/

/-- What a PSK client that succeeded has checked. -/
structure PskAuthenticated (P : Platform) (rng : P.Rng) (args : PskArgs) (tr : List (Act Ev))
    (s : Session) (st : ClientStart P) (early hello : Bytes) (r : Rec) (sh : ServerHello)
    (ecdhe : Bytes) (keys : HsKeys) (ee fin rest : Bytes) : Prop where
  start : clientStart P rng = .ok st
  hello_eq : pskClientHello P args st = .ok (early, hello)
  sent : [plainHeader recHandshake hello.length, hello] <+: sends tr
  received : ∃ t u, tr = t ++ r.reads ++ u
  rtype : r.rtype = recHandshake
  accepted : HelloAccepted P.build 0 st.sid r.fragment sh
  shared : keyShareShared P st.ks (sh.share r.fragment) = .ok ecdhe
  keys_eq : ∃ th, transcriptHash P (hello ++ r.fragment) = .ok th ∧
    deriveHsKeys P early ecdhe st.emptyHash th = .ok keys
  flight : (openedContents P tr).flatten = ee ++ fin ++ rest
  encExt : IsHsMsg ee ∧ hsType ee = hsEncryptedExt ∧ checkEncExt (ee.drop 4) false = .ok ()
  finished : IsHsMsg fin ∧ hsType fin = hsFinished ∧ (fin.drop 4).length = 32
  mac : ∃ th, transcriptHash P (hello ++ r.fragment ++ ee) = .ok th ∧
    tls13FinishedMac P keys.sHs th 32 .sha256 = .ok (fin.drop 4)
  session : ∃ th our peer, transcriptHash P (hello ++ r.fragment ++ ee ++ fin) = .ok th ∧
    appSecrets P "c ap traffic" "s ap traffic" keys.hs st.emptyHash (zeros 32) th =
      .ok (our, peer) ∧ s = .fresh our peer args.scratchLen

section Runs

variable {P : Platform} {fuel : Nat} {rng : P.Rng} {sess s : Session} {tr : List (Act Ev)}

theorem establishClient_ok {keys : HsKeys} {emptyHash th : Bytes} {scratchLen : Nat}
    (h : (establishClient P keys emptyHash th scratchLen).Runs tr (.ok (), s)) :
    ∃ our peer, appSecrets P "c ap traffic" "s ap traffic" keys.hs emptyHash (zeros 32) th =
      .ok (our, peer) ∧ s = .fresh our peer scratchLen := by
  unfold establishClient at h
  split at h
  · cases h.2
  · rename_i hest
    obtain ⟨_, _, _, rfl, -, -, heq⟩ := Proc.runs_seq.1 h
    cases heq
    exact sessionEstablishWith_ok.1 hest

/-- A client that failed leaves no established session. -/
theorem establishClient_unestablished {keys : HsKeys} {emptyHash th : Bytes} {scratchLen : Nat}
    {e : Err} (h : (establishClient P keys emptyHash th scratchLen).Runs tr (.error e, s)) :
    s.established = false := by
  unfold establishClient at h
  split at h
  · rename_i hest
    cases h.2
    exact (sessionEstablishWith_error hest).2.1
  · obtain ⟨_, _, _, rfl, -, -, heq⟩ := Proc.runs_seq.1 h
    cases heq

theorem connectPskHello_ok {args : PskArgs} {keys : HsKeys} {emptyHash : Bytes}
    {tc : Transcript}
    (h : Prog.Ok (connectPskHello P fuel rng args) tr (keys, emptyHash, tc)) :
    ∃ (st : ClientStart P) (early hello : Bytes) (r : Rec) (sh : ServerHello) (ecdhe th : Bytes),
      clientStart P rng = .ok st ∧
      pskClientHello P args st = .ok (early, hello) ∧
      [plainHeader recHandshake hello.length, hello] <+: sends tr ∧
      (∃ t u, tr = t ++ r.reads ++ u) ∧ r.rtype = recHandshake ∧
      HelloAccepted P.build 0 st.sid r.fragment sh ∧
      keyShareShared P st.ks (sh.share r.fragment) = .ok ecdhe ∧
      transcriptHash P (hello ++ r.fragment) = .ok th ∧
      deriveHsKeys P early ecdhe st.emptyHash th = .ok keys ∧ emptyHash = st.emptyHash ∧
      tc = ⟨.sha256, hello ++ r.fragment⟩ := by
  unfold connectPskHello at h
  simp only [Prog.ok_lift_bind] at h
  obtain ⟨st, hst, ⟨early, hello⟩, hhello, tc₁, htc₁, h⟩ := h
  obtain ⟨_, t₁, _, rfl, hsend, h⟩ := Prog.ok_bind.1 h
  obtain ⟨_, t₂, _, rfl, hccs, h⟩ := Prog.ok_bind.1 h
  obtain ⟨⟨tc₂, ecdhe⟩, t₃, _, rfl, hrecv, h⟩ := Prog.ok_bind.1 h
  obtain ⟨th, hth, h⟩ := Prog.ok_lift_bind.1 h
  obtain ⟨keys', hkeys, h⟩ := Prog.ok_lift_bind.1 h
  obtain ⟨_, rfl, hpure⟩ := Prog.ok_note_bind.1 h
  obtain ⟨rfl, heq⟩ := Prog.ok_pure.1 hpure
  cases heq
  obtain ⟨t, r, sh, rfl, htype, haccepted, htc₂, hshared⟩ := recvServerHello_ok hrecv
  have hfed₁ := Transcript.update_eq htc₁
  rw [clientStart_tc hst] at hfed₁
  have hfed : tc₂ = ⟨.sha256, hello ++ r.fragment⟩ := by
    rw [htc₂, hfed₁]
    rfl
  rw [hfed] at hth
  refine ⟨st, early, hello, r, sh, ecdhe, th, hst, hhello, ?_, ?_, htype, haccepted, hshared, hth,
    hkeys, rfl, hfed⟩
  · simp only [sends_append, sendPlainRecord_ok hsend]
    exact List.prefix_append _ _
  · exact ⟨t₁ ++ (t₂ ++ t), _, by simp only [List.append_assoc]; rfl⟩

theorem pskFlight_messages {scratchLen : Nat} {keys : HsKeys} {tc : Transcript} {st : PskFlight}
    (h : Prog.Ok (pskFlight P scratchLen keys fuel ⟨[], 0, 0, false, tc⟩) tr st) :
    ∃ rest, (pskReassembly P keys.sHs).Reads ⟨0, false, tc⟩ (openedContents P tr).flatten
      st.parse rest true := by
  have hgood : (pskLoop P keys scratchLen).Good ⟨[], 0, 0, false, tc⟩ := Nat.le_refl 0
  obtain ⟨rest, houtcome⟩ := FlightLoop.ok_outcome hgood
    ((pskReassembly P keys.sHs).empty _) h
  exact ⟨rest, Reassembly.outcome_reads houtcome⟩

theorem connectPskEx_authenticated {args : PskArgs}
    (h : (connectPskEx P fuel rng args sess).Runs tr (.ok (), s)) :
    ∃ st early hello r sh ecdhe keys ee fin rest,
      PskAuthenticated P rng args tr s st early hello r sh ecdhe keys ee fin rest := by
  unfold connectPskEx at h
  by_cases hok : args.connectOk = false
  · rw [if_pos hok] at h
    cases h.2
  · rw [if_neg hok] at h
    rcases Prog.runs_run_bind.1 h with ⟨e, _, _, -, -, hend⟩ |
      ⟨⟨keys, emptyHash, th⟩, t, u, rfl, hbody, hend⟩
    · cases hend.2
    · rw [connectPskBody_eq] at hbody
      simp only [Prog.ok_bind] at hbody
      obtain ⟨⟨keys', emptyHash', tc⟩, t₁, _, rfl, hhello, flight, t₂, t₃, rfl, hflight,
        hfinished⟩ := hbody
      have hopened₁ := connectPskHello_opens.contents hhello
      have hopened₃ := connectPskFinished_opens.contents hfinished
      have hopened₄ := establishClient_opens hend
      obtain ⟨st, early, hello, r, sh, ecdhe, th₁, hst, hhelloEq, hsent, ⟨t, t', rfl⟩, htype,
        haccepted, hshared, hth₁, hkeys, rfl, rfl⟩ := connectPskHello_ok hhello
      obtain ⟨rest, hreads⟩ := pskFlight_messages hflight
      obtain ⟨ee, fin, hbytes, hee, hfin, heeType, hcheck, hfinType, hlen, ⟨th₂, hth₂, hmac⟩,
        htc⟩ := pskReads hreads
      unfold connectPskFinished at hfinished
      simp only [Prog.ok_bind, Prog.ok_lift, Prog.ok_pure] at hfinished
      obtain ⟨th₃, _, _, rfl, ⟨rfl, hth₃⟩, _, _, _, rfl, ⟨rfl, -⟩, _, _, _, rfl, -, rfl, heq⟩ :=
        hfinished
      cases heq
      obtain ⟨our, peer, happ, rfl⟩ := establishClient_ok hend
      have htc' : flight.tc = ⟨.sha256, hello ++ r.fragment ++ ee ++ fin⟩ := htc
      rw [htc'] at hth₃
      refine ⟨st, early, hello, r, sh, ecdhe, keys, ee, fin, rest, hst, hhelloEq, ?_, ?_, htype,
        haccepted, hshared, ⟨th₁, hth₁, hkeys⟩, ?_, ⟨hee, heeType, hcheck⟩,
        ⟨hfin, hfinType, hlen⟩, ⟨th₂, hth₂, hmac⟩, ⟨th, our, peer, hth₃, happ, rfl⟩⟩
      · rw [sends_append, sends_append]
        exact (hsent.trans (List.prefix_append _ _)).trans (List.prefix_append _ _)
      · exact ⟨t, _, by simp only [List.append_assoc]; rfl⟩
      · simp only [openedContents_append] at hopened₁ hopened₃ ⊢
        rw [hopened₁, hopened₃, hopened₄]
        simpa using hbytes

theorem connectPskEx_unestablished {args : PskArgs} {e : Err} (hok : args.connectOk = true)
    (h : (connectPskEx P fuel rng args sess).Runs tr (.error e, s)) :
    s.established = false := by
  unfold connectPskEx at h
  rw [if_neg (by simp [hok])] at h
  rcases Prog.runs_run_bind.1 h with ⟨e, _, _, -, -, hend⟩ |
    ⟨⟨keys, emptyHash, th⟩, t, u, rfl, -, hend⟩
  · cases hend.2
    rfl
  · exact establishClient_unestablished hend

/-- A PSK client that succeeds has authenticated the server, and its session is established
when it succeeds and only then. -/
theorem psk_server_authenticated (P : Platform) {fuel : Nat} {rng : P.Rng} {args : PskArgs}
    {sess s : Session} {tr : List (Act Ev)} {ret : Ret}
    (h : (connectPskEx P fuel rng args sess).Runs tr (ret, s)) :
    (ret = .ok () → ∃ st early hello r sh ecdhe keys ee fin rest,
      PskAuthenticated P rng args tr s st early hello r sh ecdhe keys ee fin rest) ∧
    (args.connectOk = true → (s.established = true ↔ ret = .ok ())) := by
  constructor
  · rintro rfl
    exact connectPskEx_authenticated h
  · intro hok
    cases ret with
    | error e =>
        rw [connectPskEx_unestablished hok h]
        exact iff_of_false Bool.false_ne_true (fun heq => nomatch heq)
    | ok u =>
        obtain ⟨_, _, _, _, _, _, _, _, _, _, hauth⟩ := connectPskEx_authenticated h
        obtain ⟨_, our, peer, -, -, rfl⟩ := hauth.session
        exact iff_of_true rfl rfl

end Runs

seal Proc.Runs in
theorem psk_server_authenticated_sample :
    ∃ st early hello r sh ecdhe keys ee fin rest,
      PskAuthenticated Sample.platform (7 : Nat) Sample.pskArgs Sample.clientTrace
        Sample.clientSession st early hello r sh ecdhe keys ee fin rest :=
  (psk_server_authenticated Sample.platform Sample.pskClient_runs).1 rfl

/-! ### The certificate client -/

/-- What a certificate client that succeeded has checked. -/
structure CertAuthenticated (P : Platform) (X : X509Backend) (rng : P.Rng) (args : CertArgs)
    (tr : List (Act Ev)) (s : Session) (st : ClientStart P) (hello : Bytes) (r : Rec)
    (sh : ServerHello) (ecdhe early : Bytes) (keys : HsKeys) (ee cert verify fin rest : Bytes)
    (certs : List Bytes) (spki : Bytes) (scheme : Nat) (sig : Bytes) : Prop where
  start : clientStart P rng = .ok st
  hello_eq : clientHelloBuildEx P.build args.scratchLen st.random32 st.sid 32 st.cliPub
    args.serverName = .ok hello
  sent : [plainHeader recHandshake hello.length, hello] <+: sends tr
  received : ∃ t u, tr = t ++ r.reads ++ u
  rtype : r.rtype = recHandshake
  accepted : HelloAccepted P.build (-1) st.sid r.fragment sh
  shared : keyShareShared P st.ks (sh.share r.fragment) = .ok ecdhe
  keys_eq : tls13Extract P [] (zeros 32) .sha256 = .ok early ∧
    ∃ th, transcriptHash P (hello ++ r.fragment) = .ok th ∧
      deriveHsKeys P early ecdhe st.emptyHash th = .ok keys
  flight : (openedContents P tr).flatten = ee ++ cert ++ verify ++ fin ++ rest
  messages : CertMessages P X args keys.sHs (hello ++ r.fragment) ee cert verify fin certs spki
    scheme sig
  session : ∃ th our peer,
    transcriptHash P (hello ++ r.fragment ++ ee ++ cert ++ verify ++ fin) = .ok th ∧
      appSecrets P "c ap traffic" "s ap traffic" keys.hs st.emptyHash (zeros 32) th =
        .ok (our, peer) ∧ s = .fresh our peer args.scratchLen

section Runs

variable {P : Platform} {X : X509Backend} {fuel : Nat} {rng : P.Rng} {sess s : Session}
  {tr : List (Act Ev)} {args : CertArgs}

theorem connectCertHello_ok {keys : HsKeys} {emptyHash : Bytes} {tc : Transcript}
    (h : Prog.Ok (connectCertHello P fuel rng args) tr (keys, emptyHash, tc)) :
    ∃ (st : ClientStart P) (early hello : Bytes) (r : Rec) (sh : ServerHello) (ecdhe th : Bytes),
      clientStart P rng = .ok st ∧
      clientHelloBuildEx P.build args.scratchLen st.random32 st.sid 32 st.cliPub
        args.serverName = .ok hello ∧
      [plainHeader recHandshake hello.length, hello] <+: sends tr ∧
      (∃ t u, tr = t ++ r.reads ++ u) ∧ r.rtype = recHandshake ∧
      HelloAccepted P.build (-1) st.sid r.fragment sh ∧
      keyShareShared P st.ks (sh.share r.fragment) = .ok ecdhe ∧
      tls13Extract P [] (zeros 32) .sha256 = .ok early ∧
      transcriptHash P (hello ++ r.fragment) = .ok th ∧
      deriveHsKeys P early ecdhe st.emptyHash th = .ok keys ∧ emptyHash = st.emptyHash ∧
      tc = ⟨.sha256, hello ++ r.fragment⟩ := by
  unfold connectCertHello at h
  simp only [Prog.ok_lift_bind] at h
  obtain ⟨st, hst, hello, hhello, tc₁, htc₁, h⟩ := h
  obtain ⟨_, t₁, _, rfl, hsend, h⟩ := Prog.ok_bind.1 h
  obtain ⟨_, t₂, _, rfl, hccs, h⟩ := Prog.ok_bind.1 h
  obtain ⟨⟨tc₂, ecdhe⟩, t₃, _, rfl, hrecv, h⟩ := Prog.ok_bind.1 h
  obtain ⟨th, hth, h⟩ := Prog.ok_lift_bind.1 h
  obtain ⟨early, hearly, h⟩ := Prog.ok_lift_bind.1 h
  obtain ⟨keys', hkeys, h⟩ := Prog.ok_lift_bind.1 h
  obtain ⟨_, rfl, hpure⟩ := Prog.ok_note_bind.1 h
  obtain ⟨rfl, heq⟩ := Prog.ok_pure.1 hpure
  cases heq
  obtain ⟨t, r, sh, rfl, htype, haccepted, htc₂, hshared⟩ := recvServerHello_ok hrecv
  have hfed₁ := Transcript.update_eq htc₁
  rw [clientStart_tc hst] at hfed₁
  have hfed : tc₂ = ⟨.sha256, hello ++ r.fragment⟩ := by
    rw [htc₂, hfed₁]
    rfl
  rw [hfed] at hth
  refine ⟨st, early, hello, r, sh, ecdhe, th, hst, hhello, ?_, ?_, htype, haccepted, hshared,
    hearly, hth, hkeys, rfl, hfed⟩
  · simp only [sends_append, sendPlainRecord_ok hsend]
    exact List.prefix_append _ _
  · exact ⟨t₁ ++ (t₂ ++ t), _, by simp only [List.append_assoc]; rfl⟩

theorem certFlight_messages {keys : HsKeys} {tc : Transcript} {st : CertFlight}
    (h : Prog.Ok (certFlight P X args keys fuel ⟨[], 0, 0, {}, tc, []⟩) tr st) :
    ∃ rest, (certReassembly P X args keys.sHs).Reads ⟨0, {}, tc, []⟩
      (openedContents P tr).flatten st.parse rest true := by
  have hgood : (certLoop P keys X args).Good ⟨[], 0, 0, {}, tc, []⟩ := Nat.le_refl 0
  obtain ⟨rest, houtcome⟩ := FlightLoop.ok_outcome hgood
    ((certReassembly P X args keys.sHs).empty _) h
  exact ⟨rest, Reassembly.outcome_reads houtcome⟩

/-- The parts of a run that succeeds. -/
theorem connectCertImpl_ok (h : (connectCertImpl P X fuel rng args sess).Runs tr (.ok (), s)) :
    ∃ keys emptyHash tc th mac t₁ t₂ t₃ t₄, tr = t₁ ++ (t₂ ++ (t₃ ++ t₄)) ∧
      Prog.Ok (connectCertHello P fuel rng args) t₁ (keys, emptyHash, tc) ∧
      Prog.Ok (connectCertFlight P X fuel args keys tc) t₂ (th, mac) ∧
      Prog.Ok (sendClientFinished P args.scratchLen keys mac) t₃ () ∧
      (establishClient P keys emptyHash th args.scratchLen).Runs t₄ (.ok (), s) := by
  unfold connectCertImpl at h
  by_cases hok : args.connectOk P.build = false
  · rw [if_pos hok] at h
    cases h.2
  · rw [if_neg hok] at h
    rcases Prog.runs_run_bind.1 h with ⟨e, _, _, -, -, hend⟩ |
      ⟨⟨keys, emptyHash, tc⟩, t₁, _, rfl, hhello, h⟩
    · cases hend.2
    · rcases Prog.runs_run_bind.1 h with ⟨e, _, _, -, -, hend⟩ |
        ⟨⟨th, mac⟩, t₂, _, rfl, hflight, h⟩
      · obtain ⟨_, _, _, -, -, hend⟩ := Proc.runs_seq.1 hend
        cases hend.2
      · rcases Prog.runs_run_bind.1 h with ⟨e, _, _, -, -, hend⟩ |
          ⟨_, t₃, _, rfl, hfinished, h⟩
        · obtain ⟨_, _, _, -, -, hend⟩ := Proc.runs_seq.1 hend
          cases hend.2
        · obtain ⟨⟨ret, sess'⟩, t₄, t₅, rfl, hest, hend⟩ := Proc.runs_seq.1 h
          cases ret with
          | error e =>
              obtain ⟨_, _, _, -, -, hend⟩ := Proc.runs_seq.1 hend
              cases hend.2
          | ok u =>
              obtain ⟨rfl, heq⟩ := hend
              cases heq
              refine ⟨keys, emptyHash, tc, th, mac, t₁, t₂, t₃, t₄, ?_, hhello, hflight,
                hfinished, hest⟩
              rw [List.append_nil]

theorem connectCertImpl_authenticated
    (h : (connectCertImpl P X fuel rng args sess).Runs tr (.ok (), s)) :
    ∃ st hello r sh ecdhe early keys ee cert verify fin rest certs spki scheme sig,
      CertAuthenticated P X rng args tr s st hello r sh ecdhe early keys ee cert verify fin rest
        certs spki scheme sig := by
  obtain ⟨keys, emptyHash, tc, th, mac, t₁, t₂, t₃, t₄, rfl, hhello, hflight, hfinished, hest⟩ :=
    connectCertImpl_ok h
  have hopened₁ := connectCertHello_opens.contents hhello
  have hopened₃ := sendClientFinished_opens.contents hfinished
  have hopened₄ := establishClient_opens hest
  obtain ⟨st, early, hello, r, sh, ecdhe, th₁, hst, hhelloEq, hsent, ⟨t, u, rfl⟩, htype,
    haccepted, hshared, hearly, hth₁, hkeys, rfl, rfl⟩ := connectCertHello_ok hhello
  unfold connectCertFlight at hflight
  simp only [Prog.ok_bind, Prog.ok_lift, Prog.ok_pure] at hflight
  obtain ⟨flight, t₂, _, rfl, hflight, th₂, _, _, rfl, ⟨rfl, hth₂⟩, _, _, _, rfl, ⟨rfl, -⟩, rfl,
    heq⟩ := hflight
  cases heq
  obtain ⟨rest, hreads⟩ := certFlight_messages hflight
  obtain ⟨ee, cert, verify, fin, certs, spki, scheme, sig, hbytes, hmessages, htc⟩ :=
    certReads hreads
  obtain ⟨our, peer, happ, rfl⟩ := establishClient_ok hest
  have htc' : flight.tc = ⟨.sha256, hello ++ r.fragment ++ ee ++ cert ++ verify ++ fin⟩ := htc
  rw [htc'] at hth₂
  refine ⟨st, hello, r, sh, ecdhe, early, keys, ee, cert, verify, fin, rest, certs, spki, scheme,
    sig, hst, hhelloEq, ?_, ?_, htype, haccepted, hshared, ⟨hearly, th₁, hth₁, hkeys⟩, ?_,
    hmessages, ⟨th, our, peer, hth₂, happ, rfl⟩⟩
  · rw [sends_append]
    exact hsent.trans (List.prefix_append _ _)
  · exact ⟨t, _, by simp only [List.append_assoc]; rfl⟩
  · simp only [openedContents_append] at hopened₁ hopened₃ ⊢
    rw [hopened₁, hopened₃, hopened₄]
    simpa [openedContents] using hbytes

theorem connectCertImpl_unestablished {e : Err} (hok : args.connectOk P.build = true)
    (h : (connectCertImpl P X fuel rng args sess).Runs tr (.error e, s)) :
    s.established = false := by
  unfold connectCertImpl at h
  rw [if_neg (by simp [hok])] at h
  rcases Prog.runs_run_bind.1 h with ⟨_, _, _, -, -, hend⟩ | ⟨_, _, _, -, -, h⟩
  · cases hend.2
    rfl
  · rcases Prog.runs_run_bind.1 h with ⟨_, _, _, -, -, hend⟩ | ⟨_, _, _, -, -, h⟩
    · obtain ⟨_, _, _, -, -, hend⟩ := Proc.runs_seq.1 hend
      cases hend.2
      rfl
    · rcases Prog.runs_run_bind.1 h with ⟨_, _, _, -, -, hend⟩ | ⟨_, _, _, -, -, h⟩
      · obtain ⟨_, _, _, -, -, hend⟩ := Proc.runs_seq.1 hend
        cases hend.2
        rfl
      · obtain ⟨⟨ret, sess'⟩, _, _, -, hest, hend⟩ := Proc.runs_seq.1 h
        cases ret with
        | ok u => cases hend.2
        | error e' =>
            obtain ⟨_, _, _, -, -, hend⟩ := Proc.runs_seq.1 hend
            cases hend.2
            exact establishClient_unestablished hest

/-- A certificate client that succeeds has authenticated the server, and its session is
established when it succeeds and only then. -/
theorem cert_server_authenticated (P : Platform) (X : X509Backend) {fuel : Nat} {rng : P.Rng}
    {args : CertArgs} {sess s : Session} {tr : List (Act Ev)} {ret : Ret}
    (h : (connectCertImpl P X fuel rng args sess).Runs tr (ret, s)) :
    (ret = .ok () →
      ∃ st hello r sh ecdhe early keys ee cert verify fin rest certs spki scheme sig,
        CertAuthenticated P X rng args tr s st hello r sh ecdhe early keys ee cert verify fin
          rest certs spki scheme sig) ∧
    (args.connectOk P.build = true → (s.established = true ↔ ret = .ok ())) := by
  constructor
  · rintro rfl
    exact connectCertImpl_authenticated h
  · intro hok
    cases ret with
    | error e =>
        rw [connectCertImpl_unestablished hok h]
        exact iff_of_false Bool.false_ne_true (fun heq => nomatch heq)
    | ok u =>
        obtain ⟨_, _, _, _, _, _, _, _, _, _, _, _, _, _, _, _, hauth⟩ :=
          connectCertImpl_authenticated h
        obtain ⟨_, our, peer, -, -, rfl⟩ := hauth.session
        exact iff_of_true rfl rfl

end Runs

seal Proc.Runs in
theorem cert_server_authenticated_sample :
    ∃ s st hello r sh ecdhe early keys ee cert verify fin rest certs spki scheme sig,
      CertAuthenticated Sample.platform Sample.trusting (7 : Nat) Sample.certArgs
        Sample.trustingTrace s st hello r sh ecdhe early keys ee cert verify fin rest certs spki
        scheme sig :=
  ⟨_, (cert_server_authenticated Sample.platform Sample.trusting
    Sample.trustingClient_runs).1 rfl⟩

end WolfNano
