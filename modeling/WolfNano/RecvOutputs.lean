/-
What `wn_Recv` leaves in its caller's buffer and length.  The length is set to
zero after the checks of the session, so a call that those checks stop leaves
the caller's old length.
-/
import WolfNano.RecvIntegrity

namespace WolfNano

open Duplex

variable {P : Platform}

/-- The outputs are defined by the return value: nothing, or one application record
of the trace at the start of the buffer. -/
def OutputsDefined (P : Platform) (outCap : Nat) (buf : Bytes) (tr : List (Act Ev))
    (res : RecvOut) : Prop :=
  match res.ret with
  | .error _ => res.outLen = some 0 ∧ res.out = some buf
  | .ok () => ∃ plain, consumed P tr = [plain] ∧ plain.length ≤ outCap ∧
      res.outLen = some plain.length ∧ res.out = some (plain ++ buf.drop plain.length)

/-- A session that can receive. -/
def Session.Open (s : Session) : Prop := s.established = true ∧ s.closed = false

theorem Session.check_error {s : Session} (h : ¬ s.Open) : ∃ e, s.check = .error e := by
  cases hcheck : s.check with
  | error e => exact ⟨e, rfl⟩
  | ok u => exact absurd (Session.check_ok.1 hcheck) h

/-- Past the checks, every exit defines the outputs. -/
theorem RecvMany.outputs {s s' : Session} {outCap : Nat} {buf : Bytes} {tr : List (Act Ev)}
    {x : Except Err Bytes} {res : RecvOut} (h : RecvMany P outCap s tr x s')
    (hres : (∃ e, x = .error e ∧ res = ⟨.error e, some buf, some 0, s'⟩) ∨
      ∃ plain, x = .ok plain ∧ res = ⟨.ok (), some (splice buf 0 plain), some plain.length, s'⟩) :
    OutputsDefined P outCap buf tr res := by
  rcases hres with ⟨e, -, rfl⟩ | ⟨plain, rfl, rfl⟩
  · exact ⟨rfl, rfl⟩
  · have hdelivers := h.delivers
    refine ⟨plain, ?_, ?_, rfl, ?_⟩
    · generalize consumed P tr = got at hdelivers
      cases hdelivers
      rfl
    · generalize consumed P tr = got at hdelivers
      cases hdelivers
      assumption
    · simp [splice]

/-- One call defines its outputs exactly when the session is open, or the length was zero. -/
theorem wnRecv_outputs {s : Session} {fuel outCap n : Nat} {buf : Bytes} {tr : List (Act Ev)}
    {res : RecvOut} (h : (wnRecv P fuel s (some buf) outCap (some n)).Runs tr res) :
    OutputsDefined P outCap buf tr res ↔ s.Open ∨ n = 0 := by
  rcases wnRecv_runs h with ⟨rfl, e, rfl, hexit⟩ | ⟨_, _, x, s', hbuf, hn, hcheck, hmany, hx⟩
  · have hnot : ¬ s.Open := by
      rintro hopen
      rcases hexit with ⟨-, hnull | hnull⟩ | hcheck
      · cases hnull
      · cases hnull
      · rw [Session.check_ok.2 hopen] at hcheck
        cases hcheck
    constructor
    · rintro ⟨hlen, -⟩
      exact .inr (Option.some.inj hlen)
    · rintro (hopen | rfl)
      · exact absurd hopen hnot
      · exact ⟨rfl, rfl⟩
  · cases hbuf
    exact iff_of_true (hmany.outputs hx) (.inl (Session.check_ok.1 hcheck))

/-! ### Every call of a run -/

/-- What is seen of a call of `wn_Recv` with a buffer and a length. -/
structure RecvSeen where
  before : Session
  buf : Bytes
  outCap : Nat
  outLen : Nat
  tr : List (Act Ev)
  res : RecvOut

/-- Calls on one session, those of `wn_Recv` with both pointers kept. -/
inductive RecvRun (P : Platform) : Session → List RecvSeen → Session → Prop
  | nil {s : Session} : RecvRun P s [] s
  | other {s s₁ s' : Session} {call : Call} {tr : List (Act Ev)} {ret : Ret}
      {data : Option Bytes} {rest : List RecvSeen} (hcall : call.Runs P s tr ret data s₁)
      (hrest : RecvRun P s₁ rest s') : RecvRun P s rest s'
  | recv {s s' : Session} {fuel outCap n : Nat} {buf : Bytes} {tr : List (Act Ev)}
      {res : RecvOut} {rest : List RecvSeen}
      (hrun : (wnRecv P fuel s (some buf) outCap (some n)).Runs tr res)
      (hrest : RecvRun P res.s rest s') : RecvRun P s (⟨s, buf, outCap, n, tr, res⟩ :: rest) s'

theorem RecvRun.outputs_iff {s s' : Session} {calls : List RecvSeen} (h : RecvRun P s calls s') :
    ∀ c ∈ calls, OutputsDefined P c.outCap c.buf c.tr c.res ↔ c.before.Open ∨ c.outLen = 0 := by
  induction h with
  | nil => exact fun c hc => nomatch hc
  | other _ _ ih => exact ih
  | recv hrun _ ih =>
      intro c hc
      rcases List.mem_cons.1 hc with rfl | hc
      · exact wnRecv_outputs hrun
      · exact ih c hc

/-- In every run of calls, a call defines its outputs exactly when it finds the session
open or the caller's length zero; so all of them do exactly when each finds it so. -/
theorem recv_outputs (P : Platform) (s s' : Session) (calls : List RecvSeen)
    (h : RecvRun P s calls s') :
    (∀ c ∈ calls, OutputsDefined P c.outCap c.buf c.tr c.res ↔
        c.before.Open ∨ c.outLen = 0) ∧
      ((∀ c ∈ calls, OutputsDefined P c.outCap c.buf c.tr c.res) ↔
        ∀ c ∈ calls, c.before.Open ∨ c.outLen = 0) :=
  ⟨h.outputs_iff, forall₂_congr h.outputs_iff⟩

namespace Sample

/-- What the session leaves behind when the peer has closed. -/
def closedSession : Session := { session with closed := true }

/-- A call after the peer closed leaves the length of an earlier one. -/
theorem recv_stale_length :
    ∃ res, (wnRecv platform 1 closedSession (some [9, 9]) 2 (some 2)).Runs [] res ∧
      res.ret = .error .closed ∧ res.outLen = some 2 ∧
        ¬ OutputsDefined platform 2 [9, 9] [] res := by
  refine ⟨⟨.error .closed, some [9, 9], some 2, closedSession⟩, ⟨rfl, rfl⟩, rfl, rfl, ?_⟩
  rintro ⟨hlen, -⟩
  cases hlen

/-- A call that finds a record of two bytes waiting. -/
def received : Option (RecvOut × Bytes × List (Act Ev)) :=
  play (wnRecv platform 4 session (some [9, 9, 9]) 3 (some 7))
    (peerRecord session 0 recAppdata [1, 2]) false

theorem received_isSome : received.isSome = true := by
  decide +kernel

/-- The outputs of a call that receives, and of one on a closed session with a zero length. -/
theorem recv_outputs_sample :
    OutputsDefined platform 3 [9, 9, 9] (received.get received_isSome).2.2
        (received.get received_isSome).1 ∧
      OutputsDefined platform 2 [9, 9] []
        ⟨.error .closed, some [9, 9], some 0, closedSession⟩ := by
  have hclosed : (wnRecv platform 1 closedSession (some [9, 9]) 2 (some 0)).Runs []
      ⟨.error .closed, some [9, 9], some 0, closedSession⟩ := ⟨rfl, rfl⟩
  constructor
  · have hrun := RecvRun.recv (play_runs received_isSome) .nil
    exact ((recv_outputs platform _ _ _ hrun).1 _ List.mem_cons_self).2 (.inl ⟨rfl, rfl⟩)
  · have hrun := RecvRun.recv hclosed .nil
    exact ((recv_outputs platform _ _ _ hrun).1 _ List.mem_cons_self).2 (.inr rfl)

end Sample

end WolfNano
