/-
Loops of programs.  A round ends in the state of the next round or in the result of the
loop, so a loop keeps what each of its rounds keeps, and is seen to do what they do.
-/
import WolfNano.Duplex.Prog

namespace Duplex

namespace Prog

variable {ν ε α σ : Type} {round : σ → Prog ν ε (σ ⊕ α)} {s t : σ} {n : Nat}

theorem ite_bind {β : Type} {c : Prop} [Decidable c] (p q : Prog ν ε α) (f : α → Prog ν ε β) :
    (if c then p else q) >>= f = if c then p >>= f else q >>= f :=
  apply_ite (· >>= f) c p q

/-- At most this many rounds. -/
def rounds (round : σ → Prog ν ε (σ ⊕ α)) : Nat → σ → Prog ν ε α
  | 0, _ => spin
  | n + 1, s => round s >>= Sum.elim (rounds round n) pure

/-- A round can start in `t` when the first one starts in `s`. -/
inductive Visits (round : σ → Prog ν ε (σ ⊕ α)) (s : σ) : σ → Prop where
  | start : Visits round s s
  | round {t u : σ} {tr : List (Act ν)} :
      Visits round s t → Ok (round t) tr (.inl u) → Visits round s u

/-- The loop consists of these rounds, and they all start in states with the property `I`
when the first one starts in `s`. -/
structure Stays (loop : Nat → σ → Prog ν ε α) (round : σ → Prog ν ε (σ ⊕ α)) (I : σ → Prop)
    (s : σ) : Prop where
  eq_rounds : ∀ n t, loop n t = rounds round n t
  visits : ∀ t, Visits round s t → I t

/-- A recursion on the budget that goes round in this way. -/
theorem rounds_eq {F : Nat → σ → Prog ν ε α} (hzero : ∀ s, F 0 s = spin)
    (hsucc : ∀ n s, F (n + 1) s = round s >>= Sum.elim (F n) pure) :
    F n s = rounds round n s := by
  induction n generalizing s with
  | zero => exact hzero s
  | succ n ih =>
      have hF : F n = rounds round n := funext fun t => ih
      rw [hsucc, hF]
      rfl

section Rules

variable {I : σ → Prop}
  (hround : ∀ s tr t, I s → Ok (round s) tr (.inl t) → I t)

include hround

theorem Visits.invariant (h : Visits round s t) (hs : I s) : I t := by
  induction h with
  | start => exact hs
  | round _ hok ih => exact hround _ _ _ ih hok

theorem Watches.rounds {Q : ν → Prop} (hwatch : ∀ s, I s → Watches Q (round s)) (hs : I s) :
    Watches Q (rounds round n s) := by
  induction n generalizing s with
  | zero => exact Notes.spin.watches
  | succ n ih =>
      refine .bind (hwatch s hs) fun tr x hok => ?_
      cases x with
      | inl t => exact ih (hround s tr t hs hok)
      | inr a => exact Notes.pure.watches

end Rules

end Prog

end Duplex
