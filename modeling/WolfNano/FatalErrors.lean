/-
What happens after a fatal error of `wn_Recv`.  The session records a
close_notify and nothing else, so a fatal error is final only in a run that
reads no record calling for any other one.
-/
import WolfNano.PostHs
import WolfNano.Sample

namespace WolfNano

open Duplex

variable (P : Platform)

/-- Contents of a handshake record the session accepts. -/
def IsPostHs (content : Bytes) : Prop :=
  ∃ msgs : List PostHs, (∀ m ∈ msgs, m.Fits) ∧ content = PostHs.encodeAll msgs

/-- A record that fails authentication, is malformed or not allowed, or is an
alert other than close_notify. -/
def FatalRecord (key iv : Bytes) (seq : UInt64) (rec : Bytes) : Prop :=
  match openRecord P key iv seq rec with
  | .error e => e = .badMac ∨ e = .decode
  | .ok (contentType, content) =>
      if contentType = recAppdata then False
      else if contentType = recHandshake then ¬ IsPostHs content
      else if contentType = recAlert then ¬ isCloseNotify content
      else True

/-- No record in the trace is a ChangeCipherSpec or fatal. -/
structure NoFatalRecord (tr : List (Act Ev)) : Prop where
  ccs : ∀ rec ∈ readRecs tr, rec.isCcs = false
  opened : ∀ cap key iv seq rec,
    .unprotect cap key iv seq rec ∈ notes tr → ¬ FatalRecord P key iv seq rec

/-- An alert was among the records of the trace. -/
def ReceivedAlert (tr : List (Act Ev)) : Prop :=
  ∃ cap key iv seq rec content, .unprotect cap key iv seq rec ∈ notes tr ∧
    openRecord P key iv seq rec = .ok (recAlert, content)

/-- A call of `wn_Recv` that returned for a fatal error or for close_notify. -/
structure CallSeen.Fatal (c : CallSeen) : Prop where
  recv : ∃ out outCap outLen, c.call = .recv out outCap outLen
  ret : c.ret = .error .badMac ∨ c.ret = .error .decode ∨
    c.ret = .error .unexpectedMsg ∨ c.ret = .error .closed ∨
    c.ret = .error .crypto ∧ ReceivedAlert P c.tr

/-- After a fatal call no later send or receive succeeds or sends a record. -/
def FatalFinal (calls : List CallSeen) : Prop :=
  calls.Pairwise fun a b => a.Fatal P → b.call ≠ .close → b.ret ≠ .ok () ∧ sends b.tr = []

variable {P}

/-! ### Records of one call -/

/-- The trace of a record that was dealt with, before the next one. -/
theorem RecvOne.dealt {s s' : Session} {outCap : Nat} {tr : List (Act Ev)}
    (h : RecvOne P s outCap tr (.ok none) s') :
    ∃ (rec : Rec) (tr₁ : _), rec.Fits s.scratchLen ∧ tr = rec.reads ++ tr₁ ∧ ∀ b, .got b ∉ tr₁ := by
  generalize hx : (Except.ok none : Except Err (Option Bytes)) = x at h
  cases h with
  | unread hfail => cases hx
  | ccs => cases hx
  | short => cases hx
  | unopened => cases hx
  | @opened rec contentType plain tr x s' hfits hccs hlen hopen hhandled =>
      refine ⟨rec, _, hfits, rfl, ?_⟩
      have hsilent : ∀ b, .got b ∉ tr := by
        cases hhandled with
        | deliver => cases hx
        | refuse => cases hx
        | posths hrun => exact (sessionPosths_silent hrun).1
        | closeNotify => cases hx
        | alert => cases hx
        | other => cases hx
      intro b hb
      rcases List.mem_cons.1 hb with heq | hmem
      · cases heq
      · exact hsilent b hmem

theorem NoFatalRecord.split {s s' : Session} {outCap : Nat} {tr tr' : List (Act Ev)}
    (hone : RecvOne P s outCap tr (.ok none) s') (h : NoFatalRecord P (tr ++ tr')) :
    NoFatalRecord P tr ∧ NoFatalRecord P tr' := by
  obtain ⟨rec, tr₁, hfits, rfl, hsilent⟩ := hone.dealt
  have hnil : readRecs tr₁ = [] := by
    have happend := @readRecs_append_silent tr₁ [] hsilent
    rwa [List.append_nil] at happend
  have hrecs : readRecs (rec.reads ++ tr₁ ++ tr') = rec :: readRecs tr' := by
    rw [List.append_assoc, readRecs_reads hfits, readRecs_append_silent hsilent]
  have hccs := h.ccs
  rw [hrecs] at hccs
  refine ⟨⟨?_, ?_⟩, ⟨?_, ?_⟩⟩
  · rw [readRecs_reads hfits, hnil]
    intro rec' hrec'
    rw [List.mem_singleton.1 hrec']
    exact hccs rec (List.mem_cons_self ..)
  · intro cap key iv seq rec' hmem
    exact h.opened cap key iv seq rec' (by rw [notes_append]; exact List.mem_append_left _ hmem)
  · exact fun rec' hrec' => hccs rec' (List.mem_cons_of_mem _ hrec')
  · intro cap key iv seq rec' hmem
    exact h.opened cap key iv seq rec' (by rw [notes_append]; exact List.mem_append_right _ hmem)

/-! ### Calls without a fatal record -/

/-- How a record or a call without a fatal record can end: closed by a
close_notify, or with no fatal code and no alert. -/
def EndsWell {α : Type} (P : Platform) (tr : List (Act Ev)) (x : Except Err α)
    (s' : Session) : Prop :=
  (x = .error .closed ∧ s'.closed = true) ∨
    ((∀ e, x = .error e → e = .crypto ∨ e = .invalidArg) ∧ ¬ ReceivedAlert P tr)

theorem sessionPosths_error {s s' : Session} {content : Bytes} {tr : List (Act Ev)}
    {e : Err} (hlen : content.length < 2 ^ 32) (hwhole : IsPostHs content)
    (h : (sessionPosths P s content).Runs tr (.error e, s')) :
    e = .crypto ∨ e = .invalidArg := by
  obtain ⟨msgs, hmsgs, rfl⟩ := hwhole
  rw [PostHs.sessionPosths_encodeAll hmsgs hlen] at h
  exact PostHs.handleAll_error h

theorem receivedAlert_of_opened {cap : Nat} {key iv : Bytes} {seq : UInt64}
    {rec content : Bytes} {contentType : UInt8} {tr : List (Act Ev)}
    (hopen : openRecord P key iv seq rec = .ok (contentType, content))
    (halert : contentType ≠ recAlert)
    (hrest : ∀ cap key iv seq rec, .unprotect cap key iv seq rec ∉ notes tr) :
    ¬ ReceivedAlert P (.note (.unprotect cap key iv seq rec) :: tr) := by
  rintro ⟨cap', key', iv', seq', rec', content', hmem, hopen'⟩
  rcases List.mem_cons.1 hmem with heq | hmem
  · cases heq
    rw [hopen] at hopen'
    cases hopen'
    exact halert rfl
  · exact hrest _ _ _ _ _ hmem

theorem recvOne_endsWell {s s' : Session} {outCap : Nat} {tr : List (Act Ev)}
    {x : Except Err (Option Bytes)} (h : RecvOne P s outCap tr x s')
    (hclean : NoFatalRecord P tr) : EndsWell P tr x s' := by
  cases h with
  | @unread tr e hfail =>
      obtain ⟨hnotes, -, hcode⟩ := recvRecord_fails hfail
      refine .inr ⟨?_, ?_⟩
      · rintro _ ⟨⟩
        rcases hcode with ⟨rfl, -⟩ | ⟨-, hdr, body, rfl, hccs⟩
        · exact .inl rfl
        · have hno := hclean.ccs _ (List.mem_cons_self ..)
          rw [Rec.isCcs, hccs] at hno
          cases hno
      · rintro ⟨_, _, _, _, _, _, hmem, -⟩
        rw [hnotes] at hmem
        cases hmem
  | @ccs rec hfits hccs =>
      have hno := hclean.ccs rec (by
        have hreads := @readRecs_reads rec s.scratchLen hfits []
        rw [List.append_nil] at hreads
        rw [hreads]
        exact List.mem_cons_self ..)
      rw [hccs] at hno
      cases hno
  | short =>
      refine .inr ⟨?_, ?_⟩
      · rintro _ ⟨⟩
        exact .inr rfl
      · rintro ⟨_, _, _, _, _, _, hmem, -⟩
        cases hmem
  | @unopened rec e hfits hccs hopen =>
      have hmem : s.openEv rec.bytes ∈ notes (rec.reads ++ [.note (s.openEv rec.bytes)]) :=
        List.mem_cons_self ..
      have hnot := hclean.opened _ _ _ _ _ hmem
      rw [FatalRecord, hopen] at hnot
      refine .inr ⟨?_, ?_⟩
      · rintro _ ⟨⟩
        rcases openRecord_error hopen with rfl | rfl | rfl
        · exact .inl rfl
        · exact absurd (.inl rfl) hnot
        · exact absurd (.inr rfl) hnot
      · rintro ⟨_, _, _, _, _, _, hmem', hopen'⟩
        rcases List.mem_cons.1 hmem' with heq | hmem'
        · cases heq
          rw [hopen] at hopen'
          cases hopen'
        · cases hmem'
  | @opened rec contentType plain tr x s' hfits hccs hlen hopen hhandled =>
      have hmem : s.openEv rec.bytes ∈
          notes (rec.reads ++ .note (s.openEv rec.bytes) :: tr) :=
        List.mem_cons_self ..
      have hnot := hclean.opened _ _ _ _ _ hmem
      have hshort : plain.length < 2 ^ 32 := by
        have hlt := openRecord_length hopen
        have hmax := hfits.le_max
        simp only [maxPlaintext] at hlt hmax
        omega
      have hnoalert : contentType ≠ recAlert →
          (∀ cap key iv seq rec, .unprotect cap key iv seq rec ∉ notes tr) →
          ¬ ReceivedAlert P (rec.reads ++ .note (s.openEv rec.bytes) :: tr) :=
        fun htype hrest => receivedAlert_of_opened hopen htype hrest
      rw [FatalRecord, hopen] at hnot
      cases hhandled with
      | deliver hfit =>
          refine .inr ⟨?_, hnoalert (by decide) (by simp)⟩
          rintro _ ⟨⟩
      | refuse hbig =>
          refine .inr ⟨?_, hnoalert (by decide) (by simp)⟩
          rintro _ ⟨⟩
          exact .inr rfl
      | @posths _ _ ret _ hrun =>
          refine .inr ⟨?_, hnoalert (by decide) (sessionPosths_silent hrun).2⟩
          intro e he
          cases ret with
          | error e' =>
              cases he
              have hwhole : IsPostHs plain := not_not.1 hnot
              exact sessionPosths_error hshort hwhole hrun
          | ok u => cases he
      | closeNotify hclose => exact .inl ⟨rfl, rfl⟩
      | alert hother => exact absurd hother hnot
      | other happ hhs halert =>
          simp only [happ, hhs, halert, if_false, not_true] at hnot

theorem recvMany_endsWell {s s' : Session} {outCap : Nat} {tr : List (Act Ev)}
    {x : Except Err Bytes} (h : RecvMany P outCap s tr x s')
    (hclean : NoFatalRecord P tr) : EndsWell P tr x s' := by
  induction h with
  | stop hone =>
      rcases recvOne_endsWell hone hclean with ⟨heq, hclosed⟩ | ⟨hcode, halert⟩
      · cases heq
        exact .inl ⟨rfl, hclosed⟩
      · refine .inr ⟨?_, halert⟩
        rintro _ ⟨⟩
        exact hcode _ rfl
  | data hone =>
      rcases recvOne_endsWell hone hclean with ⟨heq, -⟩ | ⟨-, halert⟩
      · cases heq
      · refine .inr ⟨?_, halert⟩
        rintro _ ⟨⟩
  | @skip s s₁ s' tr tr' x hone _ ih =>
      obtain ⟨hfirst, hrest⟩ := hclean.split hone
      have hfirst' : ¬ ReceivedAlert P tr := by
        rcases recvOne_endsWell hone hfirst with ⟨heq, -⟩ | ⟨-, halert⟩
        · cases heq
        · exact halert
      rcases ih hrest with hclosed | ⟨hcode, halert⟩
      · exact .inl hclosed
      · refine .inr ⟨hcode, ?_⟩
        rintro ⟨cap, key, iv, seq, rec, content, hmem, hopen⟩
        rw [notes_append] at hmem
        rcases List.mem_append.1 hmem with hmem | hmem
        · exact hfirst' ⟨cap, key, iv, seq, rec, content, hmem, hopen⟩
        · exact halert ⟨cap, key, iv, seq, rec, content, hmem, hopen⟩

/-! ### Runs -/

/-- A session that refuses every send and receive. -/
def Session.Dead (s : Session) : Prop := s.closed = true ∨ s.established = false

theorem Session.Dead.check {s : Session} (h : s.Dead) : s.check ≠ .ok () := by
  intro hok
  obtain ⟨hest, hopen⟩ := Session.check_ok.1 hok
  rcases h with h | h
  · rw [h] at hopen
    cases hopen
  · rw [h] at hest
    cases hest

theorem Session.dead_of_check {s : Session} {e : Err} (h : s.check = .error e) :
    s.Dead := by
  by_contra halive
  obtain ⟨hopen, hest⟩ := not_or.1 halive
  rw [Bool.not_eq_true] at hopen
  rw [Bool.not_eq_false] at hest
  rw [Session.check_ok.2 ⟨hest, hopen⟩] at h
  cases h

/-- A dead session stays dead. -/
theorem Call.Runs.dead {call : Call} {s s' : Session} {tr : List (Act Ev)} {ret : Ret}
    {data : Option Bytes} (h : call.Runs P s tr ret data s') (hdead : s.Dead) :
    s'.Dead ∧ (call ≠ .close → ret ≠ .ok () ∧ sends tr = []) := by
  cases h with
  | send hrun =>
      rcases wnSend_runs hrun with ⟨rfl, rfl, e, rfl, -⟩ | ⟨_, _, hcheck, -⟩
      · exact ⟨hdead, fun _ => ⟨by simp, rfl⟩⟩
      · exact absurd hcheck hdead.check
  | recv hrun =>
      rcases wnRecv_runs hrun with ⟨rfl, e, rfl, -⟩ | ⟨_, _, _, _, -, -, hcheck, -⟩
      · exact ⟨hdead, fun _ => ⟨by simp, rfl⟩⟩
      · exact absurd hcheck hdead.check
  | close hrun =>
      obtain ⟨rfl, -⟩ := wnClose_runs hrun
      exact ⟨.inr rfl, fun hne => absurd rfl hne⟩

/-- Without a fatal record only a close_notify is fatal, and it is recorded. -/
theorem Call.Runs.fatal_dead {call : Call} {s s' : Session} {tr : List (Act Ev)}
    {ret : Ret} {data : Option Bytes} (h : call.Runs P s tr ret data s')
    (hclean : NoFatalRecord P tr) (hfatal : CallSeen.Fatal P ⟨call, s, tr, ret, data⟩) :
    s'.Dead := by
  obtain ⟨⟨out, outCap, outLen, rfl⟩, hret⟩ := hfatal
  cases h with
  | recv hrun =>
      rcases wnRecv_runs hrun with ⟨rfl, e, rfl, hwhy⟩ |
        ⟨buf, n, x, s₁, -, -, -, hmany, ⟨e, rfl, rfl⟩ | ⟨plain, -, rfl⟩⟩
      · rcases hwhy with ⟨rfl, -⟩ | hcheck
        · simp at hret
        · exact Session.dead_of_check hcheck
      · rcases recvMany_endsWell hmany hclean with ⟨-, hclosed⟩ | ⟨hcode, halert⟩
        · exact .inl hclosed
        · rcases hcode e rfl with rfl | rfl
          · simp [halert] at hret
          · simp at hret
      · simp at hret

theorem SessionRun.dead {s s' : Session} {calls : List CallSeen}
    (h : SessionRun P s calls s') (hdead : s.Dead) :
    ∀ c ∈ calls, c.call ≠ .close → c.ret ≠ .ok () ∧ sends c.tr = [] := by
  induction h with
  | nil => simp
  | cons hcall _ ih =>
      obtain ⟨hdead', hthis⟩ := hcall.dead hdead
      intro c hc
      rcases List.mem_cons.1 hc with rfl | hc
      · exact hthis
      · exact ih hdead' c hc

/-- A fatal error is final in every run that reads no fatal record. -/
theorem fatal_errors_final {s s' : Session} {calls : List CallSeen}
    (hrun : SessionRun P s calls s') (hclean : ∀ c ∈ calls, NoFatalRecord P c.tr) :
    FatalFinal P calls := by
  induction hrun with
  | nil => exact .nil
  | cons hcall hrest ih =>
      have hthis := hclean _ (List.mem_cons_self ..)
      have hlater := ih fun c hc => hclean c (List.mem_cons_of_mem _ hc)
      refine List.pairwise_cons.2 ⟨fun c hc hfatal => ?_, hlater⟩
      exact hrest.dead (hcall.fatal_dead hthis hfatal) c hc

namespace Sample

/-- A record of the peer with its last octet changed, then the record itself. -/
def tamperedCalls : List (Call × Bytes × Bool) :=
  [(.recv (some []) 8 (some 0),
      (peerRecord session 0 recAppdata [7, 8]).dropLast ++ [255], false),
    (.recv (some []) 8 (some 0), peerRecord session 0 recAppdata [7, 8], false)]

/-- A record of the peer, its close_notify, and a send. -/
def closedCalls : List (Call × Bytes × Bool) :=
  [(.recv (some []) 8 (some 0), peerRecord session 0 recAppdata [7, 8], false),
    (.recv (some []) 8 (some 0), peerRecord session 1 recAlert [1, 0], false),
    (.send (some [1]), [], false)]

/-- Application data and close_notify only. -/
def plainTraffic : Ev → Bool
  | .unprotect _ key iv seq rec =>
      match openRecord platform key iv seq rec with
      | .ok (contentType, content) =>
          contentType == recAppdata ||
            (contentType == recAlert && 2 ≤ content.length && content.getD 1 0 == 0)
      | .error _ => false
  | _ => true

theorem noFatalRecord_of_plainTraffic {tr : List (Act Ev)}
    (hccs : (readRecs tr).all (!·.isCcs)) (h : (notes tr).all plainTraffic) :
    NoFatalRecord platform tr := by
  refine ⟨fun rec hrec => ?_, fun cap key iv seq rec hmem => ?_⟩
  · simpa using List.all_eq_true.1 hccs rec hrec
  · have hplain := List.all_eq_true.1 h _ hmem
    unfold plainTraffic at hplain
    unfold FatalRecord
    dsimp only at hplain
    split at hplain
    · rename_i contentType content hopen
      rw [hopen]
      simp only [Bool.or_eq_true, Bool.and_eq_true, beq_iff_eq, decide_eq_true_eq] at hplain
      rcases hplain with rfl | ⟨⟨rfl, hlen⟩, hzero⟩
      · exact id
      · exact not_not.2 ⟨hlen, hzero⟩
    · cases hplain

end Sample

/-- After a record failed authentication the next one is delivered. -/
theorem fatal_errors_not_final :
    ¬ ∀ (s s' : Session) (calls : List CallSeen), s.established = true →
      SessionRun Sample.platform s calls s' → FatalFinal Sample.platform calls := by
  intro hfinal
  obtain ⟨s', hrun⟩ := @Sample.seen_runs Sample.platform Sample.session Sample.tamperedCalls
    (by decide +kernel)
  have hpair := hfinal _ _ _ rfl hrun
  have hcalls : (Sample.seen Sample.platform Sample.session Sample.tamperedCalls).map
      (fun c => (c.call, c.ret)) =
        [(.recv (some []) 8 (some 0), .error .badMac),
          (.recv (some []) 8 (some 0), .ok ())] := by
    decide +kernel
  obtain ⟨a, rest, hseen, ha, hrest⟩ := List.map_eq_cons_iff.1 hcalls
  obtain ⟨b, rest', rfl, hb, hnil⟩ := List.map_eq_cons_iff.1 hrest
  rw [hseen] at hpair
  have hab := List.rel_of_pairwise_cons hpair (List.mem_cons_self ..)
  simp only [Prod.mk.injEq] at ha hb
  exact (hab ⟨⟨_, _, _, ha.1⟩, .inl ha.2⟩ (by rw [hb.1]; simp)).1 hb.2

theorem fatal_errors_final_sample :
    (Sample.seen Sample.platform Sample.session Sample.closedCalls).map CallSeen.ret =
        [.ok (), .error .closed, .error .closed] ∧
      FatalFinal Sample.platform (Sample.seen Sample.platform Sample.session
        Sample.closedCalls) := by
  obtain ⟨s', hrun⟩ := @Sample.seen_runs Sample.platform Sample.session Sample.closedCalls
    (by decide +kernel)
  have hclean : (Sample.seen Sample.platform Sample.session Sample.closedCalls).all (fun c =>
      (readRecs c.tr).all (!·.isCcs) && (notes c.tr).all Sample.plainTraffic) = true := by
    decide +kernel
  refine ⟨by decide +kernel, fatal_errors_final hrun fun c hc => ?_⟩
  have hboth := List.all_eq_true.1 hclean c hc
  rw [Bool.and_eq_true] at hboth
  exact Sample.noFatalRecord_of_plainTraffic hboth.1 hboth.2

end WolfNano
