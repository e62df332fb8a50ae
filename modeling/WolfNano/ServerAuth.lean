/-
What a server knows of its client when it succeeds: the ClientHello it went on with, the
transcript it answered over, and the Finished it read at the end.
-/
import WolfNano.ClientAuth

namespace WolfNano

open Duplex

/-! ### The ClientHello -/

section Hello

variable {P : Platform} {fuel scratchLen : Nat} {tr : List (Act Ev)} {tc tc' : Transcript}

/-- A ClientHello a server has read into half of its scratch. -/
structure HelloRead (P : Platform) (scratchLen : Nat) (tr : List (Act Ev)) (msg : Bytes)
    (ch : ClientHello) : Prop where
  read : ∃ fuel, Prog.Ok (recvHandshake (scratchLen / 2) (scratchLen - scratchLen / 2) fuel [])
    tr msg
  parsed : clientHelloParse P.build msg = .ok ch
  silent : sends tr = []

/-- The two sends of a ChangeCipherSpec. -/
def ccsSends : List Bytes := [plainHeader recChangeCipher 1, [1]]

/-- The ways to the ClientHello a server goes on with: at once, or after a retry, which
replaces the first hello by its hash in the transcript. -/
inductive Greeted (P : Platform) (scratchLen : Nat) (tc : Transcript) :
    List (Act Ev) → Hello → Prop
  | direct {t : List (Act Ev)} {msg : Bytes} {ch : ClientHello}
      (read : HelloRead P scratchLen t msg ch) (share : ch.haveKeyShare = true) :
      Greeted P scratchLen tc t ⟨msg, ch, tc, false⟩
  | retried {t₁ t₂ t₃ : List (Act Ev)} {first hash hrr msg : Bytes} {ch₁ ch : ClientHello}
      (read₁ : HelloRead P scratchLen t₁ first ch₁) (none : ch₁.haveKeyShare = false)
      (hash_eq : sha256Hash P first = .ok hash)
      (hrr_eq : helloRetryRequestBuild 128 (helloBytes first ch₁.sessionId ch₁.sessionIdLen)
        ch₁.sessionIdLen ch₁.cipher P.build.group.id = .ok hrr)
      (sent : sends t₂ = [plainHeader recHandshake hrr.length, hrr] ++ ccsSends)
      (read : HelloRead P scratchLen t₃ msg ch) (share : ch.haveKeyShare = true) :
      Greeted P scratchLen tc (t₁ ++ (t₂ ++ t₃))
        ⟨msg, ch, { tc with fed := tc.fed ++ messageHash hash ++ hrr }, true⟩

/-- By induction on the fuel: the reassembly of a message sends nothing. -/
theorem recvHandshake_silent {accCap tmpCap : Nat} {acc msg : Bytes}
    (h : Prog.Ok (recvHandshake accCap tmpCap fuel acc) tr msg) : sends tr = [] := by
  induction fuel generalizing acc tr with
  | zero => exact absurd h Prog.ok_spin
  | succ fuel ih =>
      obtain ⟨r, _, t, rfl, hread, hrest⟩ := Prog.ok_bind.1 h
      obtain ⟨-, rfl⟩ := recvRecord_ok.1 hread
      rw [sends_append, Rec.sends_reads, List.nil_append]
      by_cases hccs : r.isCcs = true
      · rw [if_pos hccs] at hrest
        exact ih hrest
      · rw [if_neg hccs] at hrest
        simp only [Prog.ok_bind, Prog.ok_failIf, Prog.ok_note] at hrest
        obtain ⟨_, _, _, rfl, ⟨rfl, -⟩, _, _, _, rfl, ⟨rfl, -⟩, _, _, _, rfl, rfl, hacc⟩ := hrest
        simp only [List.nil_append, List.singleton_append, sends_note]
        split at hacc
        · exact ih hacc
        · simp only [Prog.ok_bind, Prog.ok_failIf] at hacc
          obtain ⟨_, _, _, rfl, ⟨rfl, -⟩, hmsg⟩ := hacc
          rw [List.nil_append]
          split at hmsg
          · exact ih hmsg
          · simp only [Prog.ok_bind, Prog.ok_failIf, Prog.ok_pure] at hmsg
            obtain ⟨_, _, _, rfl, ⟨rfl, -⟩, rfl, -⟩ := hmsg
            rfl

/-- A message that was reassembled and parsed. -/
theorem helloRead_ok {msg : Bytes} {ch : ClientHello}
    (hread : Prog.Ok (recvHandshake (scratchLen / 2) (scratchLen - scratchLen / 2) fuel []) tr msg)
    (hparse : clientHelloParse P.build msg = .ok ch) : HelloRead P scratchLen tr msg ch :=
  ⟨⟨fuel, hread⟩, hparse, recvHandshake_silent hread⟩

/-- A server that goes on has read a hello with a share, at once or after it asked for
one. -/
theorem acceptHello_ok {hello : Hello}
    (h : Prog.Ok (acceptHello P fuel scratchLen tc) tr hello) :
    Greeted P scratchLen tc tr hello := by
  unfold acceptHello at h
  simp only [Prog.ok_bind, Prog.ok_lift, Prog.ok_pure] at h
  obtain ⟨first, t₁, _, rfl, hread₁, ch₁, _, _, rfl, ⟨rfl, hparse₁⟩, ⟨msg, ch, tc'⟩, t, _, rfl,
    hmaybe, rfl, rfl⟩ := h
  unfold acceptMaybeHrr at hmaybe
  by_cases hshare : ch₁.haveKeyShare = true
  · rw [if_pos hshare] at hmaybe
    obtain ⟨rfl, heq⟩ := Prog.ok_pure.1 hmaybe
    cases heq
    simp only [hshare, List.append_nil]
    exact .direct (helloRead_ok hread₁ hparse₁) hshare
  · rw [if_neg hshare] at hmaybe
    simp only [Prog.ok_lift_bind] at hmaybe
    obtain ⟨hash, hhash, tc₁, htc₁, hrr, hhrr, tc₂, htc₂, hmaybe⟩ := hmaybe
    obtain ⟨_, t₂, _, rfl, hsend, hsent⟩ := Prog.ok_bind.1 hmaybe
    obtain ⟨_, t₃, _, rfl, hccs, hasked⟩ := Prog.ok_bind.1 hsent
    obtain ⟨msg', t₄, _, rfl, hread, hgot⟩ := Prog.ok_bind.1 hasked
    simp only [Prog.ok_lift_bind, Prog.ok_failIf_bind, Prog.ok_pure] at hgot
    obtain ⟨ch', hparse, hshare', rfl, heq⟩ := hgot
    cases heq
    have htc : tc' = { tc with fed := tc.fed ++ messageHash hash ++ hrr } := by
      rw [Transcript.update_eq htc₂, Transcript.update_eq htc₁]
    have hsends : sends (t₂ ++ t₃) = [plainHeader recHandshake hrr.length, hrr] ++ ccsSends := by
      rw [sends_append, sendPlainRecord_ok hsend, sendPlainRecord_ok hccs]
      rfl
    have hgreeted := @Greeted.retried P scratchLen tc _ _ _ _ _ _ _ _ _
      (helloRead_ok hread₁ hparse₁) (Bool.eq_false_iff.2 hshare) hhash hhrr hsends
        (helloRead_ok hread hparse)
      (Bool.not_eq_false _ ▸ hshare')
    rw [← htc] at hgreeted
    simp only [Bool.eq_false_iff.2 hshare, List.nil_append, List.append_nil,
      List.append_assoc] at hgreeted ⊢
    exact hgreeted

/-- What a server starts with: an empty transcript under SHA-256, and the hash of nothing.
-/
theorem serverStart_ok {rng rng' : P.Rng} {emptyHash random32 : Bytes}
    (h : serverStart P rng = .ok (tc, emptyHash, random32, rng')) :
    tc = ⟨.sha256, []⟩ ∧ sha256Hash P [] = .ok emptyHash := by
  unfold serverStart at h
  simp only [except_bind_eq_ok, except_pure_eq_ok] at h
  obtain ⟨tc', htc, _, hempty, _, -, heq⟩ := h
  cases heq
  unfold transcriptInit at htc
  split at htc
  · split at htc
    · exact ⟨(Except.ok.inj htc).symm, hempty⟩
    · cases htc
  · cases htc

/-- The ServerHello that was sent, and the ChangeCipherSpec after it. -/
structure ServerHelloSent (P : Platform) (scratchLen : Nat) (random32 : Bytes) (hello : Hello)
    (includePsk : Bool) (tr : List (Act Ev)) (sh ecdhe : Bytes) : Prop where
  share : ∃ ks rng srvPub rng', keyShareInit P hello.ch.group = .ok ks ∧
    keyShareServerShare P ks (helloBytes hello.msg hello.ch.keyShare hello.ch.keyShareLen) rng =
      .ok (srvPub, ecdhe, rng') ∧
    serverHelloBuild scratchLen random32
      (helloBytes hello.msg hello.ch.sessionId hello.ch.sessionIdLen) hello.ch.sessionIdLen
      hello.ch.cipher hello.ch.group srvPub 0 includePsk = .ok sh
  sent : sends tr = [plainHeader recHandshake sh.length, sh] ++
    if hello.hrrDone then [] else ccsSends

/-- A server that goes on has sent the ServerHello its writer built from the hello and its
own share, and the transcript has it. -/
theorem sendServerHello_ok {random32 ecdhe : Bytes} {hello : Hello} {includePsk : Bool}
    {rng rng' : P.Rng}
    (h : Prog.Ok (sendServerHello P scratchLen random32 hello tc includePsk rng) tr
      (tc', ecdhe, rng')) :
    ∃ sh, ServerHelloSent P scratchLen random32 hello includePsk tr sh ecdhe ∧
      tc' = { tc with fed := tc.fed ++ sh } := by
  unfold sendServerHello at h
  simp only [Prog.ok_bind, Prog.ok_lift] at h
  obtain ⟨ks, _, _, rfl, ⟨rfl, hks⟩, ⟨srvPub, ecdhe', rng₁⟩, _, _, rfl, ⟨rfl, hshare⟩, sh, _, _,
    rfl, ⟨rfl, hsh⟩, tc₁, _, _, rfl, ⟨rfl, htc₁⟩, _, t₁, t₂, rfl, hsend, hccs⟩ := h
  cases hdone : hello.hrrDone with
  | true =>
      rw [if_pos hdone] at hccs
      obtain ⟨rfl, heq⟩ := Prog.ok_pure.1 hccs
      cases heq
      exact ⟨sh, ⟨⟨ks, rng, srvPub, _, hks, hshare, hsh⟩, by
        simp only [List.nil_append, List.append_nil, sendPlainRecord_ok hsend, hdone]
        rfl⟩, Transcript.update_eq htc₁⟩
  | false =>
      rw [if_neg (by simp [hdone])] at hccs
      obtain ⟨_, t₃, t₄, rfl, hsent, hend⟩ := Prog.ok_bind.1 hccs
      obtain ⟨rfl, heq⟩ := Prog.ok_pure.1 hend
      cases heq
      exact ⟨sh, ⟨⟨ks, rng, srvPub, _, hks, hshare, hsh⟩, by
        simp only [List.nil_append, List.append_nil, sends_append, sendPlainRecord_ok hsend,
          sendPlainRecord_ok hsent, hdone]
        rfl⟩, Transcript.update_eq htc₁⟩

end Hello

/-! ### The rest of the handshake -/

section Flight

variable {P : Platform} {fuel scratchLen : Nat} {tr : List (Act Ev)} {keys : HsKeys}
  {tc tc' : Transcript}

theorem acceptHello_opens : OpensNothing P (acceptHello P fuel scratchLen tc) :=
  acceptHello_notes fun _ _ _ => rfl

theorem sendServerHello_opens {random32 : Bytes} {hello : Hello} {includePsk : Bool}
    {rng : P.Rng} : OpensNothing P
    (sendServerHello P scratchLen random32 hello tc includePsk rng) :=
  sendServerHello_notes

theorem sendRecord_opens {rec : Bytes} : OpensNothing P (sendRecord rec) := sendRecord_notes

/-- The flight a server sends, in one record. -/
def FlightSent (keys : HsKeys) (tr : List (Act Ev)) (flight : Bytes) : Prop :=
  ∃ cap, .note (.protect cap keys.sKey keys.sIv 0 recHandshake flight) ∈ tr

/-- The PSK server's flight is what the transcript takes and what is sealed. -/
theorem sendPskFlight_ok (h : Prog.Ok (sendPskFlight P scratchLen keys tc) tr tc') :
    ∃ flight, FlightSent keys tr flight ∧ tc' = { tc with fed := tc.fed ++ flight } ∧
      openedContents P tr = [] := by
  unfold sendPskFlight at h
  simp only [Prog.ok_lift_bind, Prog.ok_note_bind] at h
  obtain ⟨ee, -, tc₁, htc₁, _, -, mac, -, t, rfl, tc₂, htc₂, h⟩ := h
  obtain ⟨rec, s, _, rfl, hprotect, hsealed⟩ := Prog.ok_bind.1 h
  obtain ⟨_, u, _, rfl, hsend, hdone⟩ := Prog.ok_bind.1 hsealed
  obtain ⟨rfl, rfl⟩ := Prog.ok_pure.1 hdone
  obtain ⟨-, -, rfl⟩ := recordProtect_ok.1 hprotect
  refine ⟨ee ++ finishedMsg mac, ⟨scratchLen, by simp⟩, ?_, ?_⟩
  · rw [Transcript.update_eq htc₂, Transcript.update_eq htc₁, List.append_assoc]
  · rw [List.append_nil]
    change openedContents P u = []
    exact sendRecord_opens.contents hsend

/-- So is the certificate server's. -/
theorem sendCertFlight_ok {args : ServerCertArgs} {rng : P.Rng}
    (h : Prog.Ok (sendCertFlight P args keys tc rng) tr tc') :
    ∃ flight, FlightSent keys tr flight ∧ tc' = { tc with fed := tc.fed ++ flight } ∧
      openedContents P tr = [] := by
  unfold sendCertFlight at h
  simp only [Prog.ok_lift_bind, Prog.ok_failIf_bind, Prog.ok_note_bind] at h
  obtain ⟨ee, -, tc₁, htc₁, cert, -, tc₂, htc₂, _, -, cv, -, tc₃, htc₃, _, -, mac, -, -, t,
    rfl, tc₄, htc₄, h⟩ := h
  obtain ⟨rec, s, _, rfl, hprotect, hsealed⟩ := Prog.ok_bind.1 h
  obtain ⟨_, u, _, rfl, hsend, hdone⟩ := Prog.ok_bind.1 hsealed
  obtain ⟨rfl, rfl⟩ := Prog.ok_pure.1 hdone
  obtain ⟨-, -, rfl⟩ := recordProtect_ok.1 hprotect
  refine ⟨ee ++ cert ++ cv ++ finishedMsg mac, ⟨args.scratchLen - args.half, by simp⟩, ?_, ?_⟩
  · rw [Transcript.update_eq htc₄, Transcript.update_eq htc₃, Transcript.update_eq htc₂,
      Transcript.update_eq htc₁]
    simp only [List.append_assoc]
  · rw [List.append_nil]
    change openedContents P u = []
    exact sendRecord_opens.contents hsend

/-- How the record with the client Finished was opened: into a region apart from it, or
into one that starts inside it. -/
inductive FinishedOpened (P : Platform) (out : OutRegion) (keys : HsKeys) (tr : List (Act Ev))
    (fin : Bytes) : Prop
  | apart {rec : Bytes} (clear : out.gap rec = none)
      (noted : .note (.unprotect out.cap keys.cKey keys.cIv 0 rec) ∈ tr)
      (opens : openRecord P keys.cKey keys.cIv 0 rec = .ok (recHandshake, fin)) :
      FinishedOpened P out keys tr fin
  | overlapped {rec : Bytes} {gap : Nat} (inside : out.gap rec = some gap)
      (noted : .note (.unprotectOver gap out.cap keys.cKey keys.cIv 0 rec) ∈ tr)
      (opens : openRecordOver P gap keys.cKey keys.cIv 0 rec = .ok (recHandshake, fin)) :
      FinishedOpened P out keys tr fin

theorem FinishedOpened.mono {out : OutRegion} {fin : Bytes} {tr' : List (Act Ev)}
    (h : FinishedOpened P out keys tr fin) (hsub : ∀ a ∈ tr, a ∈ tr') :
    FinishedOpened P out keys tr' fin := by
  cases h with
  | apart clear noted opens => exact .apart clear (hsub _ noted) opens
  | overlapped inside noted opens => exact .overlapped inside (hsub _ noted) opens

/-- The one record a server opens, and what it checks of the content. -/
structure FinishedRead (P : Platform) (out : OutRegion) (keys : HsKeys) (mac : Bytes)
    (tr : List (Act Ev)) (fin : Bytes) : Prop where
  opened : FinishedOpened P out keys tr fin
  only : openedContents P tr = [fin]
  shape : fin.length = 4 + 32 ∧ fin.getD 0 0 = hsFinished ∧ fin.drop 4 = mac

/-- What the call that opens the record notes and returns. -/
theorem recordUnprotectInto_opened {out : OutRegion} {rec fin : Bytes}
    (h : Prog.Ok (recordUnprotectInto P out keys.cKey keys.cIv 0 rec) tr (recHandshake, fin)) :
    FinishedOpened P out keys tr fin ∧ openedContents P tr = [fin] := by
  unfold recordUnprotectInto at h
  cases hgap : out.gap rec with
  | none =>
      rw [hgap] at h
      obtain ⟨-, hopen, rfl⟩ := recordUnprotect_ok.1 h
      exact ⟨.apart hgap List.mem_cons_self hopen, openedContents_opened hopen⟩
  | some gap =>
      rw [hgap] at h
      obtain ⟨-, hopen, rfl⟩ := recordUnprotectOver_ok.1 h
      exact ⟨.overlapped hgap List.mem_cons_self hopen, openedContents_openedOver hopen⟩

/-- By induction on the fuel: a ChangeCipherSpec is passed over, and the next record is the
one that is opened. -/
theorem recvClientFinished_ok {finCap : Nat} {out : OutRegion} {mac : Bytes} {u : Unit}
    (h : Prog.Ok (recvClientFinished P scratchLen finCap out keys mac fuel) tr u) :
    ∃ fin, FinishedRead P out keys mac tr fin := by
  induction fuel generalizing tr with
  | zero => exact absurd h Prog.ok_spin
  | succ fuel ih =>
      obtain ⟨r, _, t, rfl, hread, hrest⟩ := Prog.ok_bind.1 h
      obtain ⟨-, rfl⟩ := recvRecord_ok.1 hread
      by_cases hccs : r.isCcs = true
      · rw [if_pos hccs] at hrest
        obtain ⟨fin, hopened, honly, hshape⟩ := ih hrest
        refine ⟨fin, hopened.mono fun _ => List.mem_append_right _, ?_, hshape⟩
        rw [openedContents_append, openedContents_reads, honly, List.nil_append]
      · rw [if_neg hccs] at hrest
        simp only [Prog.ok_bind, Prog.ok_failIf] at hrest
        obtain ⟨_, _, _, rfl, ⟨rfl, -⟩, _, _, _, rfl, ⟨rfl, -⟩, ⟨type, fin⟩, t', _, rfl,
          hopen, _, _, _, rfl, ⟨rfl, hshape⟩, rfl, hmac⟩ := hrest
        obtain ⟨htype, hrest⟩ := not_or.1 hshape
        obtain ⟨hlen, hhead⟩ := not_or.1 hrest
        obtain rfl : type = recHandshake := not_not.1 htype
        obtain ⟨hopened, honly⟩ := recordUnprotectInto_opened hopen
        refine ⟨fin, hopened.mono fun a ha => by simp [ha], ?_, not_not.1 hlen,
          not_not.1 hhead, not_not.1 hmac⟩
        simp only [openedContents_append, openedContents_reads, List.nil_append,
          List.append_nil, honly]

end Flight

/-! ### The servers -/

section Servers

variable {P : Platform} {fuel : Nat} {rng : P.Rng} {sess s : Session} {tr : List (Act Ev)}

/-- The checks of the PSK server on its ClientHello: the first identity, and the binder over
the transcript up to the binders. -/
structure PskOffered (P : Platform) (args : PskArgs) (emptyHash : Bytes) (hello : Hello)
    (early : Bytes) : Prop where
  identity : hello.ch.havePsk = true ∧
    helloBytes hello.msg hello.ch.pskIdentity hello.ch.pskIdentityLen = args.identity.val
  extract : tls13Extract P [] args.psk .sha256 = .ok early
  binder : ∃ key th, tls13DeriveSecret P early "ext binder" emptyHash 32 .sha256 = .ok key ∧
    transcriptHash P (hello.tc.fed ++ hello.msg.take hello.ch.binderTruncLen) = .ok th ∧
    tls13FinishedMac P key th 32 .sha256 = .ok (helloBytes hello.msg hello.ch.binder 32)

/-- The binder is checked over the transcript up to the binders, and the transcript then takes
the rest of the message. -/
theorem acceptBinder_feeds {args : PskArgs} {emptyHash early : Bytes} {hello : Hello}
    {tc : Transcript} (h : acceptBinder P args emptyHash hello = .ok (early, tc)) :
    (hello.ch.havePsk = true ∧
      helloBytes hello.msg hello.ch.pskIdentity hello.ch.pskIdentityLen = args.identity.val) ∧
    tls13Extract P [] args.psk .sha256 = .ok early ∧
    (∃ key th, tls13DeriveSecret P early "ext binder" emptyHash 32 .sha256 = .ok key ∧
      (⟨hello.tc.digest, hello.tc.fed ++ hello.msg.take hello.ch.binderTruncLen⟩ :
        Transcript).getHash P = .ok th ∧
      tls13FinishedMac P key th 32 .sha256 = .ok (helloBytes hello.msg hello.ch.binder 32)) ∧
    tc = ⟨hello.tc.digest, hello.tc.fed ++ hello.msg⟩ := by
  unfold acceptBinder at h
  simp only [except_bind_eq_ok, except_pure_eq_ok, failIf_eq_ok] at h
  obtain ⟨_, hoffer, early', hearly, key, hkey, tc₁, htc₁, th, hth, mac, hmac, _, hsame, tc₂, htc₂,
    heq⟩ := h
  cases heq
  obtain ⟨hhave, hrest⟩ := not_or.1 hoffer
  obtain ⟨-, hidentity⟩ := not_or.1 hrest
  rw [Transcript.update_eq htc₁] at hth htc₂
  rw [not_not.1 hsame] at hmac
  refine ⟨⟨Bool.not_eq_false _ ▸ hhave, not_not.1 hidentity⟩, hearly,
    ⟨key, th, hkey, hth, hmac⟩, ?_⟩
  rw [Transcript.update_eq htc₂, List.append_assoc, List.take_append_drop]

/-- The check of the binder, with the transcript as bytes. -/
theorem acceptBinder_ok {args : PskArgs} {emptyHash early : Bytes} {hello : Hello}
    {tc : Transcript} (hdigest : hello.tc.digest = .sha256)
    (h : acceptBinder P args emptyHash hello = .ok (early, tc)) :
    PskOffered P args emptyHash hello early ∧
      tc = ⟨.sha256, hello.tc.fed ++ hello.msg⟩ := by
  obtain ⟨hidentity, hearly, ⟨key, th, hkey, hth, hmac⟩, htc⟩ := acceptBinder_feeds h
  rw [hdigest] at hth htc
  exact ⟨⟨hidentity, hearly, key, th, hkey, hth, hmac⟩, htc⟩

/-- The scheme is an element of the client's signature_algorithms. -/
def SchemeOffered (hello : Hello) (scheme : Nat) : Prop :=
  ∃ off i, hello.ch.sigAlgs = some off ∧ i % 2 = 0 ∧ i + 1 < hello.ch.sigAlgsLen ∧
    ofBE (slice (slice hello.msg off hello.ch.sigAlgsLen) i 2) = scheme

/-- By induction on the fuel: a scheme that is found stands at an even offset of the list.
-/
theorem hasSigAlgLoop_finds {n len i scheme : Nat} {list : Bytes}
    (h : hasSigAlgLoop n list len i scheme = true) :
    ∃ j, j % 2 = i % 2 ∧ j + 1 < len ∧ ofBE (slice list j 2) = scheme := by
  induction n generalizing i with
  | zero => cases h
  | succ n ih =>
      unfold hasSigAlgLoop at h
      by_cases hlt : i + 1 < len
      · rw [if_pos hlt, Bool.or_eq_true, beq_iff_eq] at h
        rcases h with hhere | hlater
        · exact ⟨i, rfl, hlt, hhere⟩
        · obtain ⟨j, hparity, hj, hfound⟩ := ih hlater
          exact ⟨j, by omega, hj, hfound⟩
      · rw [if_neg hlt] at h
        cases h

/-- A scheme the search finds was offered. -/
theorem hasSigAlg_offered {hello : Hello} {scheme : Nat}
    (h : hello.ch.hasSigAlg hello.msg scheme = true) : SchemeOffered hello scheme := by
  unfold ClientHello.hasSigAlg at h
  split at h
  · cases h
  · rename_i off hoff
    obtain ⟨j, hparity, hj, hfound⟩ := hasSigAlgLoop_finds h
    exact ⟨off, j, hoff, hparity, hj, hfound⟩

/-- What both servers have done when they succeed. -/
structure Served (P : Platform) (scratchLen : Nat) (out : OutRegion) (tr : List (Act Ev))
    (s : Session) (includePsk : Bool) (early : Bytes) (hello : Hello) (sh ecdhe : Bytes)
    (keys : HsKeys) (flight mac fin : Bytes) : Prop where
  greeted : ∃ t u, tr = t ++ u ∧ Greeted P scratchLen ⟨.sha256, []⟩ t hello
  serverHello : ∃ random32 t u v, tr = t ++ u ++ v ∧
    ServerHelloSent P scratchLen random32 hello includePsk u sh ecdhe
  keys_eq : ∃ emptyHash th, sha256Hash P [] = .ok emptyHash ∧
    transcriptHash P (hello.tc.fed ++ hello.msg ++ sh) = .ok th ∧
    deriveHsKeys P early ecdhe emptyHash th = .ok keys
  flight_sent : FlightSent keys tr flight
  mac_eq : ∃ th, transcriptHash P (hello.tc.fed ++ hello.msg ++ sh ++ flight) = .ok th ∧
    tls13FinishedMac P keys.cHs th 32 .sha256 = .ok mac
  finished : FinishedRead P out keys mac tr fin
  established : s.established = true

theorem Greeted.digest {scratchLen : Nat} {tc : Transcript} {hello : Hello}
    (h : Greeted P scratchLen tc tr hello) : hello.tc.digest = tc.digest := by
  cases h with
  | direct => rfl
  | retried => rfl

/-- A server that succeeds has a session, and has read the Finished it computed. -/
theorem establishServer_ok {keys : HsKeys} {emptyHash th : Bytes} {scratchLen finCap : Nat}
    {out : OutRegion}
    (h : (establishServer P fuel sess keys emptyHash th scratchLen finCap out).Runs tr
      (.ok (), s)) :
    s.established = true ∧ ∃ mac fin, tls13FinishedMac P keys.cHs th 32 .sha256 = .ok mac ∧
      FinishedRead P out keys mac tr fin := by
  unfold establishServer at h
  split at h
  · cases h.2
  · rename_i sess' hest
    obtain ⟨our, peer, -, hfresh⟩ := sessionEstablishWith_ok.1 hest
    obtain ⟨_, t₁, t₂, rfl, hemit, h⟩ := Proc.runs_seq.1 h
    rcases Prog.runs_run_bind.1 h with ⟨e, _, _, -, -, hend⟩ | ⟨_, t₃, t₄, rfl, hfin, hend⟩
    · cases hend.2
    · obtain ⟨rfl, heq⟩ := hend
      cases heq
      simp only [Prog.ok_bind, Prog.ok_lift] at hfin
      obtain ⟨mac, _, t₅, rfl, ⟨rfl, hmac⟩, hrecv⟩ := hfin
      obtain ⟨fin, hopened, honly, hshape⟩ := recvClientFinished_ok hrecv
      rw [Proc.runs_emit.1 hemit]
      refine ⟨hfresh ▸ rfl, mac, fin, hmac, hopened.mono fun a ha => by simp [ha], ?_, hshape⟩
      rw [List.nil_append, List.append_nil, openedContents_append, honly]
      rfl

/-- A server that failed leaves nothing in the session. -/
theorem establishServer_zero {keys : HsKeys} {emptyHash th : Bytes}
    {scratchLen finCap : Nat} {out : OutRegion} {e : Err}
    (h : (establishServer P fuel sess keys emptyHash th scratchLen finCap out).Runs tr
      (.error e, s)) : s = .zero := by
  unfold establishServer at h
  split at h
  · cases h.2
    rfl
  · obtain ⟨_, t₁, t₂, rfl, hemit, h⟩ := Proc.runs_seq.1 h
    rcases Prog.runs_run_bind.1 h with ⟨e, _, _, -, -, hend⟩ | ⟨_, t₃, t₄, rfl, hfin, hend⟩
    · cases hend.2
      rfl
    · cases hend.2

/-- The PSK server over a run that succeeds, step by step. -/
theorem acceptPskEx_served {args : PskArgs}
    (h : (acceptPskEx P fuel rng args sess).Runs tr (.ok (), s)) :
    ∃ emptyHash early hello sh ecdhe keys flight mac fin,
      sha256Hash P [] = .ok emptyHash ∧ PskOffered P args emptyHash hello early ∧
        Served P args.scratchLen ⟨flightSz, none⟩ tr s true early hello sh ecdhe keys flight
          mac fin := by
  unfold acceptPskEx at h
  by_cases hok : args.acceptOk P.build = false
  · rw [if_pos hok] at h
    cases h.2
  · rw [if_neg hok] at h
    rcases Prog.runs_run_bind.1 h with ⟨e, _, _, -, -, hend⟩ |
      ⟨⟨keys, emptyHash, th⟩, t, u, rfl, hbody, hend⟩
    · cases hend.2
    · unfold acceptPskBody at hbody
      obtain ⟨⟨tc₀, emptyHash', random32, rng'⟩, hstart, hstarted⟩ := Prog.ok_lift_bind.1 hbody
      obtain ⟨hello, t₁, _, rfl, hhello, hgot⟩ := Prog.ok_bind.1 hstarted
      obtain ⟨⟨early, tc₁⟩, hbinder, hbound⟩ := Prog.ok_lift_bind.1 hgot
      obtain ⟨⟨tc₂, ecdhe, rng₂⟩, t₂, _, rfl, hsh, hshared⟩ := Prog.ok_bind.1 hbound
      simp only [Prog.ok_lift_bind, Prog.ok_note_bind] at hshared
      obtain ⟨th₁, hth₁, keys', hkeys, _, rfl, hkeyed⟩ := hshared
      obtain ⟨tc₃, t₃, _, rfl, hflight, hflown⟩ := Prog.ok_bind.1 hkeyed
      obtain ⟨th₂, hth₂, hdone⟩ := Prog.ok_lift_bind.1 hflown
      obtain ⟨rfl, heq⟩ := Prog.ok_pure.1 hdone
      cases heq
      obtain ⟨rfl, hempty⟩ := serverStart_ok hstart
      have hopened₁ := acceptHello_opens.contents hhello
      have hopened₂ := sendServerHello_opens.contents hsh
      have hgreeted := acceptHello_ok hhello
      obtain ⟨hoffered, rfl⟩ := acceptBinder_ok hgreeted.digest hbinder
      obtain ⟨sh, hsent, rfl⟩ := sendServerHello_ok hsh
      obtain ⟨flight, hflightSent, rfl, hopened₃⟩ := sendPskFlight_ok hflight
      obtain ⟨hest, mac, fin, hmac, hopened, honly, hshape⟩ := establishServer_ok hend
      refine ⟨emptyHash, early, hello, sh, ecdhe, keys, flight, mac, fin, hempty, hoffered, ?_⟩
      refine ⟨⟨t₁, _, by simp only [List.append_assoc]; rfl, hgreeted⟩,
        ⟨random32, t₁, t₂, _, by simp only [List.append_assoc]; rfl, hsent⟩,
        ⟨emptyHash, th₁, hempty, hth₁, hkeys⟩, ?_, ⟨th, hth₂, hmac⟩,
        ⟨hopened.mono fun a ha => by simp [ha], ?_, hshape⟩, hest⟩
      · obtain ⟨cap', hmem'⟩ := hflightSent
        exact ⟨cap', by simp [hmem']⟩
      · have hkeyed : openedContents P (.note (.writeKey keys.sKey keys.sIv) :: (t₃ ++ [])) =
            [] := by
          rw [List.append_nil]
          exact hopened₃
        simp only [openedContents_append, hopened₁, hopened₂, hkeyed, honly, List.nil_append]

/-- The certificate server over a run that succeeds, step by step. -/
theorem acceptCertEx_served {args : ServerCertArgs}
    (h : (acceptCertEx P fuel rng args sess).Runs tr (.ok (), s)) :
    ∃ early hello sh ecdhe keys flight mac fin,
      tls13Extract P [] (zeros 32) .sha256 = .ok early ∧
        SchemeOffered hello args.scheme ∧
          Served P args.scratchLen args.enc tr s false early hello sh ecdhe keys flight mac
            fin := by
  unfold acceptCertEx at h
  by_cases hok : args.acceptOk = false
  · rw [if_pos hok] at h
    cases h.2
  · rw [if_neg hok] at h
    rcases Prog.runs_run_bind.1 h with ⟨e, _, _, -, -, hend⟩ |
      ⟨⟨keys, emptyHash, th⟩, t, u, rfl, hbody, hend⟩
    · cases hend.2
    · unfold acceptCertBody at hbody
      obtain ⟨⟨tc₀, emptyHash', random32, rng'⟩, hstart, hstarted⟩ := Prog.ok_lift_bind.1 hbody
      obtain ⟨hello, t₁, _, rfl, hhello, hgot⟩ := Prog.ok_bind.1 hstarted
      obtain ⟨hscheme, hoffered⟩ := Prog.ok_failIf_bind.1 hgot
      obtain ⟨tc₁, htc₁, hfedMsg⟩ := Prog.ok_lift_bind.1 hoffered
      obtain ⟨⟨tc₂, ecdhe, rng₂⟩, t₂, _, rfl, hsh, hshared⟩ := Prog.ok_bind.1 hfedMsg
      simp only [Prog.ok_lift_bind, Prog.ok_note_bind] at hshared
      obtain ⟨early, hearly, th₁, hth₁, keys', hkeys, _, rfl, hkeyed⟩ := hshared
      obtain ⟨tc₃, t₃, _, rfl, hflight, hflown⟩ := Prog.ok_bind.1 hkeyed
      obtain ⟨th₂, hth₂, hdone⟩ := Prog.ok_lift_bind.1 hflown
      obtain ⟨rfl, heq⟩ := Prog.ok_pure.1 hdone
      cases heq
      obtain ⟨rfl, hempty⟩ := serverStart_ok hstart
      have hopened₁ := acceptHello_opens.contents hhello
      have hopened₂ := sendServerHello_opens.contents hsh
      have hgreeted := acceptHello_ok hhello
      have hfed : tc₁ = ⟨.sha256, hello.tc.fed ++ hello.msg⟩ := by
        have hdigest : hello.tc.digest = .sha256 := hgreeted.digest
        rw [Transcript.update_eq htc₁, hdigest]
      subst hfed
      obtain ⟨sh, hsent, rfl⟩ := sendServerHello_ok hsh
      obtain ⟨flight, hflightSent, rfl, hopened₃⟩ := sendCertFlight_ok hflight
      obtain ⟨hest, mac, fin, hmac, hopened, honly, hshape⟩ := establishServer_ok hend
      refine ⟨early, hello, sh, ecdhe, keys, flight, mac, fin, hearly,
        hasSigAlg_offered (Bool.not_eq_false _ ▸ hscheme), ?_⟩
      refine ⟨⟨t₁, _, by simp only [List.append_assoc]; rfl, hgreeted⟩,
        ⟨random32, t₁, t₂, _, by simp only [List.append_assoc]; rfl, hsent⟩,
        ⟨emptyHash, th₁, hempty, hth₁, hkeys⟩, ?_, ⟨th, hth₂, hmac⟩,
        ⟨hopened.mono fun a ha => by simp [ha], ?_, hshape⟩, hest⟩
      · obtain ⟨cap', hmem'⟩ := hflightSent
        exact ⟨cap', by simp [hmem']⟩
      · have hkeyed : openedContents P (.note (.writeKey keys.sKey keys.sIv) :: (t₃ ++ [])) =
            [] := by
          rw [List.append_nil]
          exact hopened₃
        simp only [openedContents_append, hopened₁, hopened₂, hkeyed, honly, List.nil_append]

/-- A PSK server that failed leaves no session. -/
theorem acceptPskEx_zero {args : PskArgs} {e : Err} (hok : args.acceptOk P.build = true)
    (h : (acceptPskEx P fuel rng args sess).Runs tr (.error e, s)) : s = .zero := by
  unfold acceptPskEx at h
  rw [if_neg (by simp [hok])] at h
  rcases Prog.runs_run_bind.1 h with ⟨e, _, _, -, -, hend⟩ |
    ⟨⟨keys, emptyHash, th⟩, t, u, rfl, -, hend⟩
  · cases hend.2
    rfl
  · exact establishServer_zero hend

/-- A certificate server that failed leaves no session. -/
theorem acceptCertEx_zero {args : ServerCertArgs} {e : Err} (hok : args.acceptOk = true)
    (h : (acceptCertEx P fuel rng args sess).Runs tr (.error e, s)) : s = .zero := by
  unfold acceptCertEx at h
  rw [if_neg (by simp [hok])] at h
  rcases Prog.runs_run_bind.1 h with ⟨e, _, _, -, -, hend⟩ |
    ⟨⟨keys, emptyHash, th⟩, t, u, rfl, -, hend⟩
  · cases hend.2
    rfl
  · exact establishServer_zero hend

end Servers

/-- The client's Finished, which is all a server opens, begins with the header of 32 bytes. -/
def ExactFinished (P : Platform) (tr : List (Act Ev)) : Prop :=
  ∃ fin, openedContents P tr = [fin] ∧ fin.take 4 = [20, 0, 0, 32]

/-- The checks of a server leave the three length bytes of the Finished open; where they
are those of 32, it is the Finished the client should have sent. -/
theorem Served.exact_iff {P : Platform} {scratchLen : Nat} {out : OutRegion}
    {tr : List (Act Ev)} {s : Session}
    {includePsk : Bool} {early sh ecdhe flight mac fin : Bytes} {hello : Hello} {keys : HsKeys}
    (h : Served P scratchLen out tr s includePsk early hello sh ecdhe keys flight mac fin) :
    fin = finishedMsg mac ↔ ExactFinished P tr := by
  constructor
  · rintro rfl
    exact ⟨_, h.finished.only, rfl⟩
  · rintro ⟨fin', honly, hhead⟩
    have heq : [fin] = [fin'] := h.finished.only.symm.trans honly
    cases heq
    rw [finishedMsg, ← hhead, ← h.finished.shape.2.2, List.take_append_drop]

/-- A server that succeeds has read its client's Finished over the whole handshake, with the
header it should have if that is what the client sent; a server that fails leaves no session. -/
theorem client_authenticated (P : Platform) :
    (∀ {fuel : Nat} {rng : P.Rng} {args : PskArgs} {sess s : Session} {tr : List (Act Ev)},
      (acceptPskEx P fuel rng args sess).Runs tr (.ok (), s) →
        ((∃ emptyHash early hello sh ecdhe keys flight mac fin,
          sha256Hash P [] = .ok emptyHash ∧ PskOffered P args emptyHash hello early ∧
            Served P args.scratchLen ⟨flightSz, none⟩ tr s true early hello sh ecdhe keys
              flight mac fin ∧
              fin = finishedMsg mac) ↔ ExactFinished P tr)) ∧
    (∀ {fuel : Nat} {rng : P.Rng} {args : ServerCertArgs} {sess s : Session}
      {tr : List (Act Ev)}, (acceptCertEx P fuel rng args sess).Runs tr (.ok (), s) →
        ((∃ early hello sh ecdhe keys flight mac fin,
          tls13Extract P [] (zeros 32) .sha256 = .ok early ∧ SchemeOffered hello args.scheme ∧
            Served P args.scratchLen args.enc tr s false early hello sh ecdhe keys flight mac fin ∧
              fin = finishedMsg mac) ↔ ExactFinished P tr)) ∧
    (∀ {fuel : Nat} {rng : P.Rng} {args : PskArgs} {sess s : Session} {tr : List (Act Ev)}
      {e : Err}, args.acceptOk P.build = true →
        (acceptPskEx P fuel rng args sess).Runs tr (.error e, s) → s = .zero) ∧
    (∀ {fuel : Nat} {rng : P.Rng} {args : ServerCertArgs} {sess s : Session}
      {tr : List (Act Ev)} {e : Err}, args.acceptOk = true →
        (acceptCertEx P fuel rng args sess).Runs tr (.error e, s) → s = .zero) := by
  refine ⟨?_, ?_, acceptPskEx_zero, acceptCertEx_zero⟩
  · intro fuel rng args sess s tr h
    constructor
    · rintro ⟨_, _, _, _, _, _, _, _, _, -, -, hserved, hexact⟩
      exact hserved.exact_iff.1 hexact
    · intro hexact
      obtain ⟨emptyHash, early, hello, sh, ecdhe, keys, flight, mac, fin, hempty, hoffered,
        hserved⟩ := acceptPskEx_served h
      exact ⟨emptyHash, early, hello, sh, ecdhe, keys, flight, mac, fin, hempty, hoffered, hserved,
        hserved.exact_iff.2 hexact⟩
  · intro fuel rng args sess s tr h
    constructor
    · rintro ⟨_, _, _, _, _, _, _, _, -, -, hserved, hexact⟩
      exact hserved.exact_iff.1 hexact
    · intro hexact
      obtain ⟨early, hello, sh, ecdhe, keys, flight, mac, fin, hearly, hoffered, hserved⟩ :=
        acceptCertEx_served h
      exact ⟨early, hello, sh, ecdhe, keys, flight, mac, fin, hearly, hoffered, hserved,
        hserved.exact_iff.2 hexact⟩

namespace Sample

def certServer : Proc Ev (Ret × Session) :=
  acceptCertEx platform 4 (100 : Nat) serverCertArgs .zero

/-- The hello and a Finished with these length bytes. -/
def pskFinish (len : Bytes) : Bytes :=
  firstRecord pskHello ++ clientRecord pskServed.1 ([20] ++ len ++ clientMac pskServed) 0

def certFinish : Bytes :=
  certHello ++ clientRecord certServed.1 (finishedMsg (clientMac certServed)) 0

theorem pskServer_plays :
    (play pskServer (pskFinish [0, 0, 32]) false).map (fun x => x.1.1) = some (.ok ()) := by
  decide +kernel

theorem certServer_plays :
    (play certServer certFinish false).map (fun x => x.1.1) = some (.ok ()) := by
  decide +kernel

/-- A Finished that gives its length as 263430. -/
theorem oddServer_plays :
    (play pskServer (pskFinish [4, 5, 6]) false).map
        (fun x => (x.1.1, (openedContents platform x.2.2).map (List.take 4))) =
      some (.ok (), [[20, 4, 5, 6]]) := by
  decide +kernel

end Sample

theorem client_authenticated_sample :
    (∃ s tr, (∃ emptyHash early hello sh ecdhe keys flight mac fin,
      sha256Hash Sample.platform [] = .ok emptyHash ∧
        PskOffered Sample.platform Sample.pskArgs emptyHash hello early ∧
          Served Sample.platform Sample.pskArgs.scratchLen ⟨flightSz, none⟩ tr s true early hello
            sh ecdhe keys flight mac fin ∧ fin = finishedMsg mac) ↔
            ExactFinished Sample.platform tr) ∧
    (∃ s tr, (∃ early hello sh ecdhe keys flight mac fin,
      tls13Extract Sample.platform [] (zeros 32) .sha256 = .ok early ∧
        SchemeOffered hello Sample.serverCertArgs.scheme ∧
          Served Sample.platform Sample.serverCertArgs.scratchLen Sample.serverCertArgs.enc tr s
            false early hello sh ecdhe keys flight mac fin ∧ fin = finishedMsg mac) ↔
            ExactFinished Sample.platform tr) := by
  obtain ⟨⟨⟨ret, s⟩, left, tr⟩, hruns, rfl⟩ := Sample.play_shows Sample.pskServer_plays
  obtain ⟨⟨⟨ret', s'⟩, left', tr'⟩, hruns', rfl⟩ := Sample.play_shows Sample.certServer_plays
  exact ⟨⟨s, tr, (client_authenticated Sample.platform).1 hruns⟩,
    ⟨s', tr', (client_authenticated Sample.platform).2.1 hruns'⟩⟩

/-- The server takes a Finished whose length is not 32. -/
theorem client_finished_loose :
    ¬ ∀ (P : Platform) {fuel : Nat} {rng : P.Rng} {args : PskArgs} {sess s : Session}
      {tr : List (Act Ev)}, (acceptPskEx P fuel rng args sess).Runs tr (.ok (), s) →
        ∃ mac, openedContents P tr = [finishedMsg mac] := by
  intro hall
  obtain ⟨⟨⟨ret, s⟩, left, tr⟩, hruns, hshown⟩ := Sample.play_shows Sample.oddServer_plays
  obtain ⟨rfl, hhead⟩ := Prod.mk.inj hshown
  obtain ⟨mac, honly⟩ := hall Sample.platform hruns
  rw [honly] at hhead
  exact absurd hhead (by simp [finishedMsg])

end WolfNano
