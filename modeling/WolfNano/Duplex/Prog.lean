/-
Programs that stop at the first error, written in do-notation, and the two
judgements about them: `Ok p tr a`, a run with trace `tr` that returns `a`, and
`Fails p tr e`, a run that stops with the error `e`.  The inversion lemmas of
this file are the only place where the judgements are unfolded.
-/
import WolfNano.Duplex.Proc

namespace Duplex

/-! ### Computations without channel operations -/

section Except

variable {ε α β : Type} {x : Except ε α} {f : α → Except ε β}

@[simp] theorem except_bind_eq_ok {b : β} :
    x >>= f = .ok b ↔ ∃ a, x = .ok a ∧ f a = .ok b := by
  cases x <;> simp [bind, Except.bind]

@[simp] theorem except_bind_eq_error {e : ε} :
    x >>= f = .error e ↔ x = .error e ∨ ∃ a, x = .ok a ∧ f a = .error e := by
  cases x <;> simp [bind, Except.bind]

@[simp] theorem except_pure_eq_ok {a b : α} :
    (pure a : Except ε α) = .ok b ↔ a = b := by
  simp [pure, Except.pure]

@[simp] theorem except_pure_ne_error {a : α} {e : ε} :
    (pure a : Except ε α) ≠ .error e := by
  simp [pure, Except.pure]

end Except

def Prog (ν ε α : Type) : Type := Proc ν (Except ε α)

namespace Prog

variable {ν ε α β : Type}

/-- The rest of the program runs on success only. -/
def bind (p : Prog ν ε α) (f : α → Prog ν ε β) : Prog ν ε β :=
  Proc.bind p fun
    | .ok a => f a
    | .error e => Proc.done (.error e)

instance : Monad (Prog ν ε) where
  pure a := Proc.done (.ok a)
  bind := bind

def throw (e : ε) : Prog ν ε α := Proc.done (.error e)

def spin : Prog ν ε α := Proc.spin

/-- A computation without channel operations. -/
def lift (x : Except ε α) : Prog ν ε α := Proc.done x

def note (o : ν) : Prog ν ε Unit := Proc.note o (Proc.done (.ok ()))

def send (buf : Bytes) : Prog ν ε Int := Proc.send buf fun r => Proc.done (.ok r)

def recv (n : Nat) : Prog ν ε (Option Bytes) :=
  Proc.recv n fun b => Proc.done (.ok b)

/-- Stop with `e` when `c` holds. -/
def failIf (c : Prop) [Decidable c] (e : ε) : Prog ν ε Unit :=
  if c then throw e else pure ()

def orFail (x : Option α) (e : ε) : Prog ν ε α :=
  lift (x.elim (.error e) .ok)

/-- The same program, its result as a value: nothing stops any more. -/
def run (p : Prog ν ε α) : Proc ν (Except ε α) := p

theorem bind_assoc {γ : Type} (p : Prog ν ε α) (f : α → Prog ν ε β) (g : β → Prog ν ε γ) :
    p >>= f >>= g = p >>= fun a => f a >>= g := by
  refine (Proc.bind_assoc _ _ _).trans (congrArg (Proc.bind p) (funext fun x => ?_))
  cases x with
  | ok a => rfl
  | error e => rfl

theorem lift_ok_bind (a : α) (f : α → Prog ν ε β) : lift (.ok a) >>= f = f a := rfl

def Ok (p : Prog ν ε α) (tr : List (Act ν)) (a : α) : Prop :=
  Proc.Runs p tr (.ok a)

def Fails (p : Prog ν ε α) (tr : List (Act ν)) (e : ε) : Prop :=
  Proc.Runs p tr (.error e)

/-! ### Successful runs -/

@[simp] theorem ok_bind {p : Prog ν ε α} {f : α → Prog ν ε β}
    {tr : List (Act ν)} {b : β} :
    Ok (p >>= f) tr b ↔ ∃ a s t, tr = s ++ t ∧ Ok p s a ∧ Ok (f a) t b := by
  constructor
  · intro h
    obtain ⟨x, s, t, rfl, hs, ht⟩ := (Proc.runs_bind _ _ _ _).1 h
    cases x with
    | error e => exact absurd ht.2 (by simp)
    | ok a => exact ⟨a, s, t, rfl, hs, ht⟩
  · rintro ⟨a, s, t, rfl, hs, ht⟩
    exact (Proc.runs_bind _ _ _ _).2 ⟨.ok a, s, t, rfl, hs, ht⟩

@[simp] theorem ok_pure {a b : α} {tr : List (Act ν)} :
    Ok (pure a : Prog ν ε α) tr b ↔ tr = [] ∧ a = b := by
  simp [Ok, pure, Proc.Runs]

@[simp] theorem ok_throw {e : ε} {tr : List (Act ν)} {a : α} :
    ¬ Ok (throw e : Prog ν ε α) tr a := by
  simp [Ok, throw, Proc.Runs]

@[simp] theorem ok_spin {tr : List (Act ν)} {a : α} :
    ¬ Ok (spin : Prog ν ε α) tr a := by
  simp [Ok, spin]

@[simp] theorem ok_lift {x : Except ε α} {tr : List (Act ν)} {a : α} :
    Ok (lift x : Prog ν ε α) tr a ↔ tr = [] ∧ x = .ok a := by
  simp [Ok, lift, Proc.Runs]

@[simp] theorem ok_note {o : ν} {tr : List (Act ν)} {u : Unit} :
    Ok (note o : Prog ν ε Unit) tr u ↔ tr = [.note o] := by
  simp [Ok, note, Proc.Runs]

@[simp] theorem ok_send {buf : Bytes} {tr : List (Act ν)} {r : Int} :
    Ok (send buf : Prog ν ε Int) tr r ↔ tr = [.sent buf r] := by
  simp [Ok, send, Proc.Runs]

theorem ok_recv {n : Nat} {tr : List (Act ν)} {x : Option Bytes} :
    Ok (recv n : Prog ν ε (Option Bytes)) tr x ↔
      (∃ b, b.length = n ∧ tr = [.got b] ∧ x = some b) ∨
        (tr = [.short n] ∧ x = none) := by
  simp only [Ok, recv, Proc.Runs, Except.ok.injEq]
  constructor
  · rintro (⟨b, t, hb, rfl, rfl, rfl⟩ | ⟨t, rfl, rfl, rfl⟩)
    · exact .inl ⟨b, hb, rfl, rfl⟩
    · exact .inr ⟨rfl, rfl⟩
  · rintro (⟨b, hb, rfl, rfl⟩ | ⟨rfl, rfl⟩)
    · exact .inl ⟨b, [], hb, rfl, rfl, rfl⟩
    · exact .inr ⟨[], rfl, rfl, rfl⟩

@[simp] theorem ok_failIf {c : Prop} [Decidable c] {e : ε} {tr : List (Act ν)}
    {u : Unit} : Ok (failIf c e : Prog ν ε Unit) tr u ↔ tr = [] ∧ ¬ c := by
  unfold failIf
  split <;> simp [*]

@[simp] theorem ok_orFail {x : Option α} {e : ε} {tr : List (Act ν)} {a : α} :
    Ok (orFail x e : Prog ν ε α) tr a ↔ tr = [] ∧ x = some a := by
  cases x <;> simp [orFail]

/-! ### A successful run, step by step -/

theorem ok_lift_bind {x : Except ε α} {f : α → Prog ν ε β} {tr : List (Act ν)} {b : β} :
    Ok (lift x >>= f) tr b ↔ ∃ a, x = .ok a ∧ Ok (f a) tr b := by
  rw [ok_bind]
  constructor
  · rintro ⟨a, _, t, rfl, hx, hf⟩
    obtain ⟨rfl, ha⟩ := ok_lift.1 hx
    exact ⟨a, ha, hf⟩
  · rintro ⟨a, ha, hf⟩
    exact ⟨a, [], tr, rfl, ok_lift.2 ⟨rfl, ha⟩, hf⟩

theorem ok_failIf_bind {c : Prop} [Decidable c] {e : ε} {f : Unit → Prog ν ε β}
    {tr : List (Act ν)} {b : β} :
    Ok (failIf c e >>= f) tr b ↔ ¬ c ∧ Ok (f ()) tr b := by
  rw [ok_bind]
  constructor
  · rintro ⟨_, _, t, rfl, hx, hf⟩
    obtain ⟨rfl, hc⟩ := ok_failIf.1 hx
    exact ⟨hc, hf⟩
  · rintro ⟨hc, hf⟩
    exact ⟨(), [], tr, rfl, ok_failIf.2 ⟨rfl, hc⟩, hf⟩

theorem ok_note_bind {o : ν} {f : Unit → Prog ν ε β} {tr : List (Act ν)} {b : β} :
    Ok (note o >>= f) tr b ↔ ∃ t, tr = .note o :: t ∧ Ok (f ()) t b := by
  rw [ok_bind]
  constructor
  · rintro ⟨_, _, t, rfl, hx, hf⟩
    rw [ok_note.1 hx]
    exact ⟨t, rfl, hf⟩
  · rintro ⟨t, rfl, hf⟩
    exact ⟨(), [.note o], t, rfl, ok_note.2 rfl, hf⟩

/-! ### Failing runs -/

@[simp] theorem fails_bind {p : Prog ν ε α} {f : α → Prog ν ε β}
    {tr : List (Act ν)} {e : ε} :
    Fails (p >>= f) tr e ↔
      Fails p tr e ∨ ∃ a s t, tr = s ++ t ∧ Ok p s a ∧ Fails (f a) t e := by
  constructor
  · intro h
    obtain ⟨x, s, t, rfl, hs, ht⟩ := (Proc.runs_bind _ _ _ _).1 h
    cases x with
    | error e' =>
        obtain ⟨rfl, he⟩ := ht
        cases he
        rw [List.append_nil]
        exact .inl hs
    | ok a => exact .inr ⟨a, s, t, rfl, hs, ht⟩
  · rintro (h | ⟨a, s, t, rfl, hs, ht⟩)
    · exact (Proc.runs_bind _ _ _ _).2 ⟨.error e, tr, [], by simp, h, rfl, rfl⟩
    · exact (Proc.runs_bind _ _ _ _).2 ⟨.ok a, s, t, rfl, hs, ht⟩

@[simp] theorem fails_pure {a : α} {e : ε} {tr : List (Act ν)} :
    ¬ Fails (pure a : Prog ν ε α) tr e := by
  simp [Fails, pure, Proc.Runs]

@[simp] theorem fails_throw {e e' : ε} {tr : List (Act ν)} :
    Fails (throw e : Prog ν ε α) tr e' ↔ tr = [] ∧ e = e' := by
  simp [Fails, throw, Proc.Runs]

@[simp] theorem fails_spin {tr : List (Act ν)} {e : ε} :
    ¬ Fails (spin : Prog ν ε α) tr e := by
  simp [Fails, spin]

@[simp] theorem fails_lift {x : Except ε α} {tr : List (Act ν)} {e : ε} :
    Fails (lift x : Prog ν ε α) tr e ↔ tr = [] ∧ x = .error e := by
  simp [Fails, lift, Proc.Runs]

@[simp] theorem fails_note {o : ν} {tr : List (Act ν)} {e : ε} :
    ¬ Fails (note o : Prog ν ε Unit) tr e := by
  simp [Fails, note, Proc.Runs]

@[simp] theorem fails_send {buf : Bytes} {tr : List (Act ν)} {e : ε} :
    ¬ Fails (send buf : Prog ν ε Int) tr e := by
  simp [Fails, send, Proc.Runs]

@[simp] theorem fails_recv {n : Nat} {tr : List (Act ν)} {e : ε} :
    ¬ Fails (recv n : Prog ν ε (Option Bytes)) tr e := by
  simp [Fails, recv, Proc.Runs]

@[simp] theorem fails_failIf {c : Prop} [Decidable c] {e e' : ε}
    {tr : List (Act ν)} :
    Fails (failIf c e : Prog ν ε Unit) tr e' ↔ tr = [] ∧ c ∧ e = e' := by
  unfold failIf
  split <;> simp [*]

@[simp] theorem fails_orFail {x : Option α} {e e' : ε} {tr : List (Act ν)} :
    Fails (orFail x e : Prog ν ε α) tr e' ↔ tr = [] ∧ x = none ∧ e = e' := by
  cases x <;> simp [orFail]

@[simp] theorem runs_run_ok {p : Prog ν ε α} {tr : List (Act ν)} {a : α} :
    p.run.Runs tr (.ok a) ↔ Ok p tr a := Iff.rfl

@[simp] theorem runs_run_error {p : Prog ν ε α} {tr : List (Act ν)} {e : ε} :
    p.run.Runs tr (.error e) ↔ Fails p tr e := Iff.rfl

/-- A run of `p` and then of what its caller does with the result. -/
theorem runs_run_bind {p : Prog ν ε α} {f : Except ε α → Proc ν β}
    {tr : List (Act ν)} {x : β} :
    Proc.Runs (p.run >>= f) tr x ↔
      (∃ e s t, tr = s ++ t ∧ Fails p s e ∧ Proc.Runs (f (.error e)) t x) ∨
        ∃ a s t, tr = s ++ t ∧ Ok p s a ∧ Proc.Runs (f (.ok a)) t x := by
  rw [Proc.runs_seq]
  constructor
  · rintro ⟨e | a, s, t, htr, hp, hf⟩
    · exact .inl ⟨e, s, t, htr, hp, hf⟩
    · exact .inr ⟨a, s, t, htr, hp, hf⟩
  · rintro (⟨e, s, t, htr, hp, hf⟩ | ⟨a, s, t, htr, hp, hf⟩)
    · exact ⟨.error e, s, t, htr, hp, hf⟩
    · exact ⟨.ok a, s, t, htr, hp, hf⟩

/-! ### Observations -/

/-- Every observation on every path satisfies `P`. -/
def Notes (P : ν → Prop) (p : Prog ν ε α) : Prop := Proc.Notes P p

section Notes

variable {P : ν → Prop} {p : Prog ν ε α}

theorem Notes.bind {f : α → Prog ν ε β} (hp : Notes P p) (hf : ∀ a, Notes P (f a)) :
    Notes P (p >>= f) := by
  refine Proc.notes_bind hp fun x => ?_
  cases x with
  | ok a => exact hf a
  | error e => trivial

theorem Notes.pure {a : α} : Notes P (Pure.pure a : Prog ν ε α) := trivial

theorem Notes.lift {x : Except ε α} : Notes P (Prog.lift x : Prog ν ε α) := trivial

theorem Notes.orFail {x : Option α} {e : ε} :
    Notes P (Prog.orFail x e : Prog ν ε α) := trivial

theorem Notes.spin : Notes P (Prog.spin : Prog ν ε α) := trivial

theorem Notes.note {o : ν} (ho : P o) : Notes P (Prog.note o : Prog ν ε Unit) :=
  ⟨ho, trivial⟩

theorem Notes.send {buf : Bytes} : Notes P (Prog.send buf : Prog ν ε Int) :=
  fun _ => trivial

theorem Notes.recv {n : Nat} : Notes P (Prog.recv n : Prog ν ε (Option Bytes)) :=
  fun _ => trivial

theorem Notes.failIf {c : Prop} [Decidable c] {e : ε} :
    Notes P (Prog.failIf c e : Prog ν ε Unit) := by
  unfold Prog.failIf
  split <;> trivial

theorem Notes.ite {c : Prop} [Decidable c] {q : Prog ν ε α} (hp : Notes P p)
    (hq : Notes P q) : Notes P (if c then p else q) := by
  split
  · exact hp
  · exact hq

theorem Ok.notes {tr : List (Act ν)} {a : α} (h : Ok p tr a) (hp : Notes P p) :
    ∀ o ∈ Duplex.notes tr, P o := Proc.Runs.notes h hp

theorem Fails.notes {tr : List (Act ν)} {e : ε} (h : Fails p tr e)
    (hp : Notes P p) : ∀ o ∈ Duplex.notes tr, P o := Proc.Runs.notes h hp

end Notes

/-- Every observation on every path a transport can take satisfies `P`. -/
def Watches (P : ν → Prop) (p : Prog ν ε α) : Prop := Proc.Watches P p

section Watches

variable {P : ν → Prop} {p : Prog ν ε α}

theorem Notes.watches (h : Notes P p) : Watches P p := Proc.Notes.watches h

theorem Watches.bind {f : α → Prog ν ε β} (hp : Watches P p)
    (hf : ∀ tr a, Ok p tr a → Watches P (f a)) : Watches P (p >>= f) := by
  refine Proc.Watches.bind hp fun tr x h => ?_
  cases x with
  | ok a => exact hf tr a h
  | error e => trivial

theorem Watches.lift_bind {x : Except ε α} {f : α → Prog ν ε β}
    (hf : ∀ a, x = .ok a → Watches P (f a)) : Watches P (Prog.lift x >>= f) :=
  .bind (Notes.lift.watches) fun _ a h => hf a (ok_lift.1 h).2

theorem Watches.failIf_bind {c : Prop} [Decidable c] {e : ε} {f : Unit → Prog ν ε β}
    (hf : ¬ c → Watches P (f ())) : Watches P (Prog.failIf c e >>= f) :=
  .bind (Notes.failIf.watches) fun _ _ h => hf (ok_failIf.1 h).2

theorem Watches.note_bind {o : ν} {f : Unit → Prog ν ε β} (ho : P o)
    (hf : Watches P (f ())) : Watches P (Prog.note o >>= f) :=
  .bind (Notes.note ho).watches fun _ _ _ => hf

theorem Watches.ite {c : Prop} [Decidable c] {q : Prog ν ε α} (hp : Watches P p)
    (hq : Watches P q) : Watches P (if c then p else q) := by
  split
  · exact hp
  · exact hq

end Watches

/-! ### Programs over an abstract state

`R s tr s'` says how a run with trace `tr` moves an abstract state.  A program
is `Safe` when every run of it moves the state, to `Q` on success and to `E` on
an error. -/

section Safe

variable {S : Type} (R : S → List (Act ν) → S → Prop)

def Safe (s : S) (p : Prog ν ε α) (Q : α → S → Prop) (E : ε → S → Prop) : Prop :=
  (∀ tr a, Ok p tr a → ∃ s', R s tr s' ∧ Q a s') ∧
    ∀ tr e, Fails p tr e → ∃ s', R s tr s' ∧ E e s'

variable {R} {s : S} {p : Prog ν ε α} {Q : α → S → Prop} {E : ε → S → Prop}

theorem Safe.mono {Q' : α → S → Prop} {E' : ε → S → Prop} (h : Safe R s p Q E)
    (hQ : ∀ a s', Q a s' → Q' a s') (hE : ∀ e s', E e s' → E' e s') :
    Safe R s p Q' E' :=
  ⟨fun tr a hok => (h.1 tr a hok).imp fun s' hs => ⟨hs.1, hQ a s' hs.2⟩,
    fun tr e hfail => (h.2 tr e hfail).imp fun s' hs => ⟨hs.1, hE e s' hs.2⟩⟩

theorem Safe.lift {x : Except ε α} (hnil : R s [] s) (hE : ∀ e, E e s) :
    Safe R s (Prog.lift x : Prog ν ε α) (fun a s' => s' = s ∧ x = .ok a) E := by
  constructor
  · intro tr a h
    obtain ⟨rfl, hx⟩ := ok_lift.1 h
    exact ⟨s, hnil, rfl, hx⟩
  · intro tr e h
    obtain ⟨rfl, -⟩ := fails_lift.1 h
    exact ⟨s, hnil, hE e⟩

theorem Safe.bind {f : α → Prog ν ε β} {T : β → S → Prop}
    (happend : ∀ s s₁ s' tr tr', R s tr s₁ → R s₁ tr' s' → R s (tr ++ tr') s')
    (hp : Safe R s p Q E) (hf : ∀ a s', Q a s' → Safe R s' (f a) T E) :
    Safe R s (p >>= f) T E := by
  constructor
  · intro tr b h
    obtain ⟨a, tr₁, tr₂, rfl, h₁, h₂⟩ := ok_bind.1 h
    obtain ⟨s₁, hr, hq⟩ := hp.1 _ _ h₁
    obtain ⟨s', hr', ht⟩ := (hf a s₁ hq).1 _ _ h₂
    exact ⟨s', happend _ _ _ _ _ hr hr', ht⟩
  · intro tr e h
    rcases fails_bind.1 h with h₁ | ⟨a, tr₁, tr₂, rfl, h₁, h₂⟩
    · exact hp.2 _ _ h₁
    · obtain ⟨s₁, hr, hq⟩ := hp.1 _ _ h₁
      obtain ⟨s', hr', he⟩ := (hf a s₁ hq).2 _ _ h₂
      exact ⟨s', happend _ _ _ _ _ hr hr', he⟩

end Safe

end Prog

end Duplex
