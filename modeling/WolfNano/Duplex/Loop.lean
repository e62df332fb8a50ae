/-
Loops by their rounds: what holds in every state a loop gets to, that it ends when each
round lowers a measure, and what a run with a budget of rounds has computed by then.
-/
import Mathlib.Data.Nat.Init

namespace Duplex

/-- The state after one more round, or `none` where the condition of the loop fails. -/
abbrev Loop (σ : Type) : Type := σ → Option σ

namespace Loop

variable {σ : Type} {next : Loop σ} {s s' t u : σ} {n m : Nat}

/-- `t` is the state after `n` rounds from `s`. -/
inductive Reaches (next : Loop σ) : σ → Nat → σ → Prop where
  | start (s : σ) : Reaches next s 0 s
  | round {s s' t : σ} {n : Nat} : next s = some s' → Reaches next s' n t → Reaches next s (n + 1) t

/-- The loop ends after `n` rounds, in the state `t`. -/
def Ends (next : Loop σ) (s : σ) (n : Nat) (t : σ) : Prop := Reaches next s n t ∧ next t = none

/-- Every round from `s` raises the counter by `k`. -/
def Raises (next : Loop σ) (s : σ) (c : σ → Nat) (k : Nat) : Prop :=
  ∀ n t t', Reaches next s n t → next t = some t' → c t' = c t + k

/-- At most this many rounds. -/
def run (next : Loop σ) : Nat → σ → σ
  | 0, s => s
  | n + 1, s =>
      match next s with
      | none => s
      | some s' => run next n s'

theorem run_none (h : next s = none) (n : Nat) : run next n s = s := by
  cases n with
  | zero => rfl
  | succ n => rw [run, h]

theorem run_some (h : next s = some s') : run next (n + 1) s = run next n s' := by
  rw [run, h]

/-- A budget that suffices gives the last state. -/
theorem Ends.run_eq {budget : Nat} (h : Ends next s n t) (hn : n ≤ budget) :
    run next budget s = t := by
  obtain ⟨hreach, hend⟩ := h
  induction hreach generalizing budget with
  | start s => exact run_none hend budget
  | round hround _ ih =>
      obtain ⟨budget, rfl⟩ := Nat.exists_eq_add_of_le' (Nat.le_of_add_left_le hn)
      rw [run_some hround]
      exact ih (Nat.le_of_succ_le_succ hn) hend

/-- A recursion on the budget that goes round as the loop does. -/
theorem run_out {β : Type} {F : Nat → σ → β} {g : σ → β} (hzero : ∀ s, F 0 s = g s)
    (hnone : ∀ n s, next s = none → F (n + 1) s = g s)
    (hsome : ∀ n s s', next s = some s' → F (n + 1) s = F n s') :
    F n s = g (run next n s) := by
  induction n generalizing s with
  | zero => exact hzero s
  | succ n ih =>
      cases hnext : next s with
      | none => rw [hnone n s hnext, run_none hnext]
      | some s' => rw [hsome n s s' hnext, run_some hnext, ih]

section Rules

variable {I : σ → Prop} (hround : ∀ s s', I s → next s = some s' → I s')

include hround

/-- What each round preserves holds in every state reached. -/
theorem Reaches.invariant (h : Reaches next s n t) (hs : I s) : I t := by
  induction h with
  | start s => exact hs
  | round hnext _ ih => exact ih (hround _ _ hs hnext)

theorem run_invariant (hs : I s) : I (run next n s) := by
  induction n generalizing s with
  | zero => exact hs
  | succ n ih =>
      cases hnext : next s with
      | none =>
          rw [run_none hnext]
          exact hs
      | some s' =>
          rw [run_some hnext]
          exact ih (hround _ _ hs hnext)

/-- A measure that each round lowers bounds the rounds. -/
theorem ends_of_measure (μ : σ → Nat) (hμ : ∀ s s', I s → next s = some s' → μ s' < μ s)
    (hs : I s) : ∃ n t, Ends next s n t ∧ n ≤ μ s ∧ I t := by
  induction hk : μ s using Nat.strongRecOn generalizing s with
  | ind k ih =>
      subst hk
      cases hnext : next s with
      | none => exact ⟨0, s, ⟨.start s, hnext⟩, Nat.zero_le _, hs⟩
      | some s' =>
          have hlower := hμ s s' hs hnext
          obtain ⟨n, t, ⟨hreach, hend⟩, hn, ht⟩ := ih _ hlower (hround s s' hs hnext) rfl
          exact ⟨n + 1, t, ⟨.round hnext hreach, hend⟩, Nat.lt_of_le_of_lt hn hlower, ht⟩

/-- So does a counter below a limit. -/
theorem ends_of_counter {c : σ → Nat} {limit : Nat}
    (hc : ∀ s s', I s → next s = some s' → c s < limit ∧ c s < c s') (hs : I s) :
    ∃ n t, Ends next s n t ∧ n ≤ limit - c s ∧ I t := by
  refine ends_of_measure hround (fun s => limit - c s) (fun s s' hI hnext => ?_) hs
  obtain ⟨hbelow, hmore⟩ := hc s s' hI hnext
  omega

/-- A counter that each round raises by one counts the rounds. -/
theorem Reaches.counts {c : σ → Nat} (hc : ∀ s s', I s → next s = some s' → c s' = c s + 1)
    (h : Reaches next s n t) (hs : I s) : c t = c s + n := by
  induction h with
  | start s => rfl
  | round hnext _ ih =>
      rw [ih (hround _ _ hs hnext), hc _ _ hs hnext, Nat.add_assoc, Nat.add_comm 1]

end Rules

end Loop

end Duplex
