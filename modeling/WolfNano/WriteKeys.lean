/-
The record keys an endpoint writes with: every call of `wn_Record_Protect` is a
use of the key installed last, completed when it produced a record, and the
completed uses of one key count up.  Here for the session calls; `NonceReuse`
adds the handshakes.
-/
import WolfNano.SessionRuns
import WolfNano.Duplex.KeyLog

namespace WolfNano

open Duplex

/-- The 64-bit record counter. -/
def counter64 : Counter UInt64 where
  succ n := n + 1
  period := 2 ^ 64
  free n a hpos hlt heq := by
    have hiter : ∀ m : Nat, (fun n : UInt64 => n + 1)^[m] a = a + UInt64.ofNat m := by
      intro m
      induction m with
      | zero => simp
      | succ m ih =>
          rw [Function.iterate_succ_apply', ih, UInt64.ofNat_add, UInt64.add_assoc]
          rfl
    rw [hiter] at heq
    have hzero : UInt64.ofNat n = 0 := by simpa using heq
    have hnat := congrArg UInt64.toNat hzero
    rw [UInt64.toNat_ofNat_of_lt' hlt] at hnat
    exact absurd hnat (by simpa using hpos.ne')

variable (P : Platform)

/-- An observation as an event of the key log. -/
def keyEv? : Ev → Option (KeyEv (Bytes × Bytes) UInt64)
  | .writeKey key iv => some (.install (key, iv))
  | .protect _ key iv seq contentType content =>
      some (.use (key, iv) seq (sealRecord P key iv seq contentType content).isSome)
  | _ => none

/-- The key log of a run. -/
def keyLog (es : List Ev) : List (KeyEv (Bytes × Bytes) UInt64) :=
  es.filterMap (keyEv? P)

/-- The log from `st` on is disciplined and leads to `st'`, and its IVs have
the length of a nonce. -/
def LogRun (st : KeyState (Bytes × Bytes) UInt64) (tr : List (Act Ev))
    (st' : KeyState (Bytes × Bytes) UInt64) : Prop :=
  KeyLog.Run counter64 st (keyLog P (notes tr)) st' ∧
    ∀ key iv, .writeKey key iv ∈ notes tr → iv.length = 12

/-- The key state says what the session would protect its next record with. -/
def Session.Matches (s : Session) (st : KeyState (Bytes × Bytes) UInt64) : Prop :=
  s.cIv.length = 12 ∧
    ∃ next, st = some ((s.cKey, s.cIv), next) ∧ (next = none ∨ next = some s.cSeq)

/-- From a matching key state the run is disciplined and ends in one. -/
def Keeps (s : Session) (tr : List (Act Ev)) (s' : Session) : Prop :=
  ∀ st, s.Matches st → ∃ st', LogRun P st tr st' ∧ s'.Matches st'

variable {P}

theorem LogRun.append {st st₁ st' : KeyState (Bytes × Bytes) UInt64}
    {tr tr' : List (Act Ev)} (h : LogRun P st tr st₁) (h' : LogRun P st₁ tr' st') :
    LogRun P st (tr ++ tr') st' := by
  unfold LogRun keyLog at *
  rw [notes_append, List.filterMap_append, KeyLog.run_append]
  refine ⟨⟨st₁, h.1, h'.1⟩, fun key iv hmem => ?_⟩
  rcases List.mem_append.1 hmem with hmem | hmem
  · exact h.2 key iv hmem
  · exact h'.2 key iv hmem

/-- A run without key events leaves the key state alone. -/
theorem LogRun.quiet {st : KeyState (Bytes × Bytes) UInt64} {tr : List (Act Ev)}
    (h : ∀ e ∈ notes tr, keyEv? P e = none) : LogRun P st tr st := by
  refine ⟨?_, fun key iv hmem => absurd (h _ hmem) (by simp [keyEv?])⟩
  rw [keyLog, List.filterMap_eq_nil_iff.2 h]
  rfl

/-- The installation of a key. -/
theorem LogRun.install {st : KeyState (Bytes × Bytes) UInt64} {key iv : Bytes}
    (hiv : iv.length = 12) :
    LogRun P st [.note (.writeKey key iv)] (some ((key, iv), none)) := by
  refine ⟨⟨_, rfl, rfl⟩, fun key' iv' hmem => ?_⟩
  simp only [notes_note, notes_nil, List.mem_singleton, Ev.writeKey.injEq] at hmem
  rw [hmem.2, hiv]

/-- A call of `wn_Record_Protect` with the number that is due. -/
theorem LogRun.protect {cap : Nat} {key iv : Bytes} {seq : UInt64}
    {contentType : UInt8} {content : Bytes} {next : Option UInt64}
    (hnext : next = none ∨ next = some seq) {tr : List (Act Ev)}
    (hnotes : notes tr = [.protect cap key iv seq contentType content]) :
    LogRun P (some ((key, iv), next)) tr
      (if (sealRecord P key iv seq contentType content).isSome
        then some ((key, iv), some (seq + 1)) else some ((key, iv), next)) := by
  unfold LogRun keyLog
  simp only [hnotes, List.filterMap_cons, keyEv?, List.filterMap_nil]
  exact ⟨⟨_, ⟨next, rfl, hnext, rfl⟩, rfl⟩, by simp⟩

theorem Keeps.trans {s s₁ s' : Session} {tr tr' : List (Act Ev)}
    (h : Keeps P s tr s₁) (h' : Keeps P s₁ tr' s') : Keeps P s (tr ++ tr') s' := by
  intro st hst
  obtain ⟨st₁, hrun, hst₁⟩ := h st hst
  obtain ⟨st', hrun', hst'⟩ := h' st₁ hst₁
  exact ⟨st', hrun.append hrun', hst'⟩

/-- Quiet runs that leave the write side alone. -/
theorem Keeps.quiet {s s' : Session} {tr : List (Act Ev)}
    (hkeys : s'.writeKeys = s.writeKeys) (hseq : s'.cSeq = s.cSeq)
    (h : ∀ e ∈ notes tr, keyEv? P e = none) : Keeps P s tr s' := by
  rintro st ⟨hlen, next, rfl, hnext⟩
  have hkey : s'.cKey = s.cKey := congrArg TrafficKeys.key hkeys
  have hiv : s'.cIv = s.cIv := congrArg TrafficKeys.iv hkeys
  exact ⟨_, .quiet h, by rw [hiv, hlen], next, by rw [hkey, hiv], by
    rw [hseq]; exact hnext⟩

/-- A call of `wn_Record_Protect`: counted when it produced a record. -/
theorem Keeps.protect {s s' : Session} {tr : List (Act Ev)} {cap : Nat}
    {contentType : UInt8} {content : Bytes}
    (hnotes : notes tr = [.protect cap s.cKey s.cIv s.cSeq contentType content])
    (hres : sealRecord P s.cKey s.cIv s.cSeq contentType content = none ∧ s' = s ∨
      (sealRecord P s.cKey s.cIv s.cSeq contentType content).isSome ∧
        s' = s.countSent) : Keeps P s tr s' := by
  rintro st ⟨hlen, next, rfl, hnext⟩
  refine ⟨_, .protect hnext hnotes, ?_⟩
  rcases hres with ⟨hnone, rfl⟩ | ⟨hsome, rfl⟩
  · exact ⟨hlen, next, by simp [hnone], hnext⟩
  · exact ⟨hlen, some (s.cSeq + 1), by rw [hsome]; rfl, .inr rfl⟩

/-! ### The session calls -/

theorem rotateWrite_keeps {s s' : Session} {tr : List (Act Ev)} {ret : Ret}
    (h : (rotateWrite P s).Runs tr (ret, s')) : Keeps P s tr s' := by
  have hinstall : ∀ ret (t : TrafficKeys), ∀ s' : Session, s'.writeKeys = t →
      tls13KeyUpdate P s.writeKeys s.digest = (ret, t) →
      Keeps P s [.note (.writeKey t.key t.iv)] s' := by
    rintro ret t s' rfl hupd st ⟨hlen, -⟩
    have hlen' : s'.cIv.length = 12 := tls13KeyUpdate_iv (t := s.writeKeys) hlen hupd
    exact ⟨some ((s'.cKey, s'.cIv), none), .install hlen', hlen', none, rfl, .inl rfl⟩
  rcases rotateWrite_runs h with ⟨t, hupd, -, rfl, rfl⟩ |
    ⟨e, t, hupd, -, rfl, rfl | ⟨rfl, hkey⟩⟩
  · exact hinstall _ t _ rfl hupd
  · exact hinstall _ t _ rfl hupd
  · have hiv : t.iv = s.cIv := (tls13KeyUpdate_error hupd).2
    rintro st ⟨hlen, next, rfl, hnext⟩
    refine ⟨_, .quiet (by simp), (congrArg List.length hiv).trans hlen, next, ?_, hnext⟩
    change some ((s.cKey, s.cIv), next) = some ((t.key, t.iv), next)
    rw [hkey, hiv]

theorem sendKeyUpdate_keeps {s s' : Session} {tr : List (Act Ev)} {ret : Ret}
    (h : (sendKeyUpdate P s).Runs tr (ret, s')) : Keeps P s tr s' := by
  rcases sendKeyUpdate_runs h with ⟨hseal, rfl, -, rfl⟩ |
    ⟨rec, hseal, ⟨r, -, rfl, -, rfl⟩ | ⟨t, rfl, hrot⟩⟩
  · exact .protect rfl (.inl ⟨hseal, rfl⟩)
  · exact .protect rfl (.inr ⟨by rw [hseal]; rfl, rfl⟩)
  · have hsent : Keeps P s [.note s.keyUpdateEv, .sent rec rec.length] s.countSent :=
      .protect rfl (.inr ⟨by rw [hseal]; rfl, rfl⟩)
    exact hsent.trans (rotateWrite_keeps hrot)

theorem sessionPosths_keeps {s s' : Session} {msg : Bytes} {tr : List (Act Ev)}
    {ret : Ret} (h : (sessionPosths P s msg).Runs tr (ret, s')) :
    Keeps P s tr s' :=
  posthsLoop_induction (fun _ _ hs => .quiet hs.writeKeys hs.cSeq (by simp))
    (fun _ _ _ _ => sendKeyUpdate_keeps) (fun _ _ _ _ _ => .trans) h

theorem recvOne_keeps {s s' : Session} {outCap : Nat} {tr : List (Act Ev)}
    {x : Except Err (Option Bytes)} (h : RecvOne P s outCap tr x s') :
    Keeps P s tr s' := by
  cases h with
  | unread hfail => exact .quiet rfl rfl (by simp [(recvRecord_fails hfail).1])
  | ccs => exact .quiet rfl rfl (by simp)
  | short => exact .quiet rfl rfl (by simp)
  | unopened => exact .quiet rfl rfl (by simp [Session.openEv, keyEv?])
  | @opened rec contentType plain tr x s' hfits hccs hlen hopen hhandled =>
      have hread : Keeps P s (rec.reads ++ [.note (s.openEv rec.bytes)]) s.countRead :=
        .quiet rfl rfl (by simp [Session.openEv, keyEv?])
      have hhandle : Keeps P s.countRead tr s' := by
        cases hhandled with
        | deliver => exact .quiet rfl rfl (by simp [keyEv?])
        | refuse => exact .quiet rfl rfl (by simp)
        | posths hrun => exact sessionPosths_keeps hrun
        | closeNotify => exact .quiet rfl rfl (by simp)
        | alert => exact .quiet rfl rfl (by simp)
        | other => exact .quiet rfl rfl (by simp)
      simpa using hread.trans hhandle

theorem recvMany_keeps {s s' : Session} {outCap : Nat} {tr : List (Act Ev)}
    {x : Except Err Bytes} (h : RecvMany P outCap s tr x s') : Keeps P s tr s' := by
  induction h with
  | stop hone => exact recvOne_keeps hone
  | data hone => exact recvOne_keeps hone
  | skip hone _ ih => exact (recvOne_keeps hone).trans ih

/-! ### Runs of calls -/

/-- An established session writes with the key installed last. -/
def Session.Ready (s : Session) (st : KeyState (Bytes × Bytes) UInt64) : Prop :=
  s.established = true → s.Matches st

theorem Keeps.ready {s s' : Session} {st : KeyState (Bytes × Bytes) UInt64}
    {tr : List (Act Ev)} (h : Keeps P s tr s') (hest : s.established = true)
    (hst : s.Ready st) : ∃ st', LogRun P st tr st' ∧ s'.Ready st' :=
  (h st (hst hest)).imp fun _ hst' => ⟨hst'.1, fun _ => hst'.2⟩

theorem wnSend_keeps {s s' : Session} {data : Option Bytes} {tr : List (Act Ev)}
    {ret : Ret} (h : (wnSend P s data).Runs tr (ret, s')) :
    (tr = [] ∧ s' = s) ∨ s.established = true ∧ Keeps P s tr s' := by
  rcases wnSend_runs h with ⟨rfl, rfl, -⟩ | ⟨buf, -, hcheck, -, -, hrun⟩
  · exact .inl ⟨rfl, rfl⟩
  · refine .inr ⟨(Session.check_ok.1 hcheck).1, ?_⟩
    rcases hrun with ⟨hseal, rfl, -, rfl⟩ | ⟨rec, r, hseal, rfl, rfl, -⟩
    · exact .protect rfl (.inl ⟨hseal, rfl⟩)
    · exact .protect rfl (.inr ⟨by rw [hseal]; rfl, rfl⟩)

theorem wnRecv_keeps {fuel outCap : Nat} {s : Session} {out : Option Bytes}
    {outLen : Option Nat} {tr : List (Act Ev)} {res : RecvOut}
    (h : (wnRecv P fuel s out outCap outLen).Runs tr res) :
    (tr = [] ∧ res.s = s) ∨ s.established = true ∧ Keeps P s tr res.s := by
  rcases wnRecv_runs h with ⟨rfl, e, rfl, -⟩ |
    ⟨buf, n, x, s', -, -, hcheck, hmany, ⟨e, -, rfl⟩ | ⟨plain, -, rfl⟩⟩
  · exact .inl ⟨rfl, rfl⟩
  · exact .inr ⟨(Session.check_ok.1 hcheck).1, recvMany_keeps hmany⟩
  · exact .inr ⟨(Session.check_ok.1 hcheck).1, recvMany_keeps hmany⟩

/-- The close_notify record is the last one of the session. -/
theorem wnClose_log {s s' : Session} {st : KeyState (Bytes × Bytes) UInt64}
    {tr : List (Act Ev)} {ret : Ret} (h : (wnClose P s).Runs tr (ret, s'))
    (hst : s.Ready st) : ∃ st', LogRun P st tr st' ∧ s'.Ready st' := by
  obtain ⟨rfl, htr⟩ := wnClose_runs h
  have hwiped : ∀ st', Session.zero.Ready st' := fun _ hest => absurd hest (by decide)
  have hclose : ∀ tr, notes tr = [s.closeEv] → s.established = true →
      ∃ st', LogRun P st tr st' ∧ Session.zero.Ready st' := by
    intro tr htr hest
    obtain ⟨-, next, rfl, hnext⟩ := hst hest
    exact ⟨_, .protect hnext htr, hwiped _⟩
  rcases htr with rfl | ⟨hest, rfl | ⟨rec, r, rfl⟩⟩
  · exact ⟨st, .quiet (by simp), hwiped st⟩
  · exact hclose _ rfl hest
  · exact hclose _ rfl hest

theorem Call.Runs.log {call : Call} {s s' : Session} {tr : List (Act Ev)} {ret : Ret}
    {data : Option Bytes} (h : call.Runs P s tr ret data s') {st : KeyState (Bytes × Bytes) UInt64}
    (hst : s.Ready st) : ∃ st', LogRun P st tr st' ∧ s'.Ready st' := by
  cases h with
  | send hrun =>
      rcases wnSend_keeps hrun with ⟨rfl, rfl⟩ | ⟨hest, hkeeps⟩
      · exact ⟨st, .quiet (by simp), hst⟩
      · exact hkeeps.ready hest hst
  | recv hrun =>
      rcases wnRecv_keeps hrun with ⟨rfl, hs⟩ | ⟨hest, hkeeps⟩
      · exact ⟨st, .quiet (by simp), hs ▸ hst⟩
      · exact hkeeps.ready hest hst
  | close hrun => exact wnClose_log hrun hst

/-- Whatever calls are made, the log stays disciplined. -/
theorem SessionRun.log {s s' : Session} {calls : List CallSeen}
    (h : SessionRun P s calls s') {st : KeyState (Bytes × Bytes) UInt64}
    (hst : s.Ready st) : ∃ st', LogRun P st (runTrace calls) st' := by
  induction h generalizing st with
  | nil => exact ⟨st, .quiet (by simp [runTrace])⟩
  | cons hcall _ ih =>
      obtain ⟨st₁, hrun, hst₁⟩ := hcall.log hst
      obtain ⟨st', hrest⟩ := ih hst₁
      exact ⟨st', hrun.append hrest⟩

end WolfNano
