/-
Programs on every transport.  A monitor says which buffers may be sent, from the buffers
before them and the answers to them; a program behaves when it sends nothing else and
returns, whatever the sends are answered and wherever the stream ends.
-/
import WolfNano.Duplex.Tape

namespace Duplex

variable {ν ε α β σ γ : Type}

/-- Where a buffer leads with the answer to it. -/
structure Monitor (γ : Type) where
  send : γ → Bytes → Int → γ → Prop

/-- What a trace sends leads from one state to another. -/
inductive Monitor.Follows (T : Monitor γ) : γ → List (Act ν) → γ → Prop where
  | nil (g : γ) : Follows T g [] g
  | sent {g g' g'' : γ} {buf : Bytes} {r : Int} {tr : List (Act ν)} (hsend : T.send g buf r g')
      (hrest : Follows T g' tr g'') : Follows T g (.sent buf r :: tr) g''
  | note {g g' : γ} {e : ν} {tr : List (Act ν)} (hrest : Follows T g tr g') :
      Follows T g (.note e :: tr) g'
  | got {g g' : γ} {b : Bytes} {tr : List (Act ν)} (hrest : Follows T g tr g') :
      Follows T g (.got b :: tr) g'
  | short {g g' : γ} {n : Nat} {tr : List (Act ν)} (hrest : Follows T g tr g') :
      Follows T g (.short n :: tr) g'

variable {T : Monitor γ}

namespace Proc

/-- With `n` bytes to read the program returns, and all it sends is let through; `Q` holds of the
result, of the state of the monitor and of the number of bytes that are left. -/
def Behaves (T : Monitor γ) (Q : α → γ → Nat → Prop) : Proc ν α → γ → Nat → Prop
  | .done a, g, n => Q a g n
  | .spin, _, _ => False
  | .note _ k, g, n => k.Behaves T Q g n
  | .send buf k, g, n => ∀ r, ∃ g', T.send g buf r g' ∧ (k r).Behaves T Q g' n
  | .recv m k, g, n =>
      (m ≤ n → ∀ b : Bytes, b.length = m → (k (some b)).Behaves T Q g (n - m)) ∧
        (k none).Behaves T Q g 0

variable {Q : α → γ → Nat → Prop} {R : β → γ → Nat → Prop} {p : Proc ν α} {f : α → Proc ν β} {g : γ}
  {n : Nat}

/-- On a tape of as many bytes it returns. -/
theorem Behaves.exec {answer : σ → Bytes → Int × σ} {t : Tape σ}
    (h : p.Behaves T Q g t.bytes.length) :
    ∃ a t' tr g', p.exec (Tape.handler answer) t = some (a, t', tr) ∧ T.Follows g tr g' ∧
      Q a g' t'.bytes.length := by
  induction p generalizing g t with
  | done a => exact ⟨a, t, [], g, rfl, .nil g, h⟩
  | spin => exact h.elim
  | note e k ih =>
      obtain ⟨a, t', tr, g', hexec, hfollows, hQ⟩ := ih h
      refine ⟨a, t', .note e :: tr, g', ?_, .note hfollows, hQ⟩
      rw [Proc.exec, hexec]
      rfl
  | send buf k ih =>
      obtain ⟨g₁, hsend, hk⟩ := h ((Tape.handler answer).send t buf).1
      obtain ⟨a, t', tr, g', hexec, hfollows, hQ⟩ :=
        ih _ (t := ((Tape.handler answer).send t buf).2) hk
      refine ⟨a, t', .sent buf ((Tape.handler answer).send t buf).1 :: tr, g', ?_,
        .sent hsend hfollows, hQ⟩
      rw [Proc.exec, hexec]
      rfl
  | recv m k ih =>
      obtain ⟨hwhole, hshort⟩ := h
      by_cases hm : m ≤ t.bytes.length
      · have hlen : (t.bytes.take m).length = m := List.length_take_of_le hm
        have hk := hwhole hm _ hlen
        rw [← List.length_drop] at hk
        obtain ⟨a, t', tr, g', hexec, hfollows, hQ⟩ := ih _ (t := ⟨t.bytes.drop m, t.state⟩) hk
        refine ⟨a, t', .got (t.bytes.take m) :: tr, g', ?_, .got hfollows, hQ⟩
        have hrecv : (Tape.handler answer).recv t m =
            (some ⟨t.bytes.take m, hlen⟩, ⟨t.bytes.drop m, t.state⟩) := dif_pos hm
        rw [Proc.exec, hrecv]
        dsimp only
        rw [hexec]
        rfl
      · obtain ⟨a, t', tr, g', hexec, hfollows, hQ⟩ := ih _ (t := ⟨[], t.state⟩) hshort
        refine ⟨a, t', .short m :: tr, g', ?_, .short hfollows, hQ⟩
        have hrecv : (Tape.handler answer).recv t m = (none, ⟨[], t.state⟩) := dif_neg hm
        rw [Proc.exec, hrecv]
        dsimp only
        rw [hexec]
        rfl

theorem Behaves.bind (h : p.Behaves T Q g n)
    (hf : ∀ a g' n', Q a g' n' → (f a).Behaves T R g' n') : (p.bind f).Behaves T R g n := by
  induction p generalizing g n with
  | done a => exact hf a g n h
  | spin => exact h.elim
  | note e k ih => exact ih h
  | send buf k ih =>
      intro r
      obtain ⟨g', hsend, hk⟩ := h r
      exact ⟨g', hsend, ih r hk⟩
  | recv m k ih => exact ⟨fun hm b hb => ih _ (h.1 hm b hb), ih _ h.2⟩

theorem Behaves.mono {Q' : α → γ → Nat → Prop} (h : p.Behaves T Q g n)
    (hQ : ∀ a g' n', Q a g' n' → Q' a g' n') : p.Behaves T Q' g n := by
  have hdone := h.bind (f := done) fun a g' n' ha => hQ a g' n' ha
  rw [bind_done] at hdone
  exact hdone

/-- What a program returns it returns from a run. -/
theorem Behaves.runs (h : p.Behaves T Q g n) :
    p.Behaves T (fun a g' n' => Q a g' n' ∧ ∃ tr, p.Runs tr a) g n := by
  induction p generalizing g n with
  | done a => exact ⟨h, [], rfl, rfl⟩
  | spin => exact h.elim
  | note e k ih =>
      refine Behaves.mono (ih h) fun a g' n' hQ => ⟨hQ.1, ?_⟩
      obtain ⟨tr, hrun⟩ := hQ.2
      exact ⟨.note e :: tr, tr, rfl, hrun⟩
  | send buf k ih =>
      intro r
      obtain ⟨g', hsend, hk⟩ := h r
      refine ⟨g', hsend, Behaves.mono (ih r hk) fun a g'' n' hQ => ⟨hQ.1, ?_⟩⟩
      obtain ⟨tr, hrun⟩ := hQ.2
      exact ⟨.sent buf r :: tr, r, tr, rfl, hrun⟩
  | recv m k ih =>
      refine ⟨fun hm b hb => ?_, ?_⟩
      · refine Behaves.mono (ih _ (h.1 hm b hb)) fun a g' n' hQ => ⟨hQ.1, ?_⟩
        obtain ⟨tr, hrun⟩ := hQ.2
        exact ⟨.got b :: tr, .inl ⟨b, tr, hb, rfl, hrun⟩⟩
      · refine Behaves.mono (ih _ h.2) fun a g' n' hQ => ⟨hQ.1, ?_⟩
        obtain ⟨tr, hrun⟩ := hQ.2
        exact ⟨.short m :: tr, .inr ⟨tr, rfl, hrun⟩⟩

end Proc

namespace Prog

/-- What holds at the end of a program that stops at the first error. -/
def AtEnd (Q : α → γ → Nat → Prop) (E : γ → Prop) : Except ε α → γ → Nat → Prop
  | .ok a, g, n => Q a g n
  | .error _, g, _ => E g

/-- A program that returns with `Q`, or fails with `E`. -/
def Behaves (T : Monitor γ) (Q : α → γ → Nat → Prop) (E : γ → Prop) (p : Prog ν ε α) (g : γ)
    (n : Nat) : Prop :=
  Proc.Behaves T (AtEnd Q E) p g n

variable {Q : α → γ → Nat → Prop} {R : β → γ → Nat → Prop} {E : γ → Prop} {p q : Prog ν ε α}
  {f : α → Prog ν ε β} {g : γ} {n : Nat} {e : ε}

theorem Behaves.bind (h : Behaves T Q E p g n)
    (hf : ∀ a g' n', Q a g' n' → Behaves T R E (f a) g' n') : Behaves T R E (p >>= f) g n := by
  refine Proc.Behaves.bind h fun x g' n' hx => ?_
  cases x with
  | ok a => exact hf a g' n' hx
  | error e => exact hx

/-- The caller of a program goes on with its result. -/
theorem Behaves.run {S : β → γ → Nat → Prop} {k : Except ε α → Proc ν β} (h : Behaves T Q E p g n)
    (hok : ∀ a g' n', Q a g' n' → (k (.ok a)).Behaves T S g' n')
    (herr : ∀ e g' n', E g' → (k (.error e)).Behaves T S g' n') :
    (p.run >>= k).Behaves T S g n := by
  refine Proc.Behaves.bind h fun x g' n' hx => ?_
  cases x with
  | ok a => exact hok a g' n' hx
  | error e => exact herr e g' n' hx

theorem Behaves.mono {Q' : α → γ → Nat → Prop} {E' : γ → Prop} (h : Behaves T Q E p g n)
    (hQ : ∀ a g' n', Q a g' n' → Q' a g' n') (hE : ∀ g', E g' → E' g') : Behaves T Q' E' p g n := by
  refine Proc.Behaves.mono h fun x g' n' hx => ?_
  cases x with
  | ok a => exact hQ a g' n' hx
  | error e => exact hE g' hx

/-- What a program returns it returns from a successful run. -/
theorem Behaves.ok (h : Behaves T Q E p g n) :
    Behaves T (fun a g' n' => Q a g' n' ∧ ∃ tr, Ok p tr a) E p g n := by
  refine Proc.Behaves.mono (Proc.Behaves.runs h) fun x g' n' hx => ?_
  cases x with
  | ok a => exact hx
  | error e => exact hx.1

theorem Behaves.pure {a : α} (h : Q a g n) : Behaves T Q E (Pure.pure a : Prog ν ε α) g n := h

theorem Behaves.lift {x : Except ε α} (h : ∀ a, x = .ok a → Q a g n) (hE : E g) :
    Behaves T Q E (Prog.lift x : Prog ν ε α) g n := by
  cases x with
  | ok a => exact h a rfl
  | error e => exact hE

theorem Behaves.orFail {x : Option α} (h : ∀ a, x = some a → Q a g n) (hE : E g) :
    Behaves T Q E (Prog.orFail x e : Prog ν ε α) g n := by
  cases x with
  | some a => exact h a rfl
  | none => exact hE

theorem Behaves.failIf {c : Prop} [Decidable c] {Q : Unit → γ → Nat → Prop} (h : ¬ c → Q () g n)
    (hE : c → E g) : Behaves T Q E (Prog.failIf c e : Prog ν ε Unit) g n := by
  unfold Prog.failIf
  split
  · exact hE ‹c›
  · exact h ‹¬ c›

theorem Behaves.note {o : ν} {Q : Unit → γ → Nat → Prop} (h : Q () g n) :
    Behaves T Q E (Prog.note o : Prog ν ε Unit) g n := h

theorem Behaves.send {buf : Bytes} {Q : Int → γ → Nat → Prop}
    (h : ∀ r, ∃ g', T.send g buf r g' ∧ Q r g' n) :
    Behaves T Q E (Prog.send buf : Prog ν ε Int) g n := h

theorem Behaves.recv {m : Nat} {Q : Option Bytes → γ → Nat → Prop}
    (h : m ≤ n → ∀ b : Bytes, b.length = m → Q (some b) g (n - m)) (hnone : Q none g 0) :
    Behaves T Q E (Prog.recv m : Prog ν ε (Option Bytes)) g n := ⟨h, hnone⟩

theorem Behaves.ite {c : Prop} [Decidable c] (hp : c → Behaves T Q E p g n)
    (hq : ¬ c → Behaves T Q E q g n) : Behaves T Q E (if c then p else q) g n := by
  split
  · exact hp ‹c›
  · exact hq ‹¬ c›

end Prog

end Duplex
