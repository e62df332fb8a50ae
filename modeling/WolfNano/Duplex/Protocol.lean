/-
One operation at a time: a program on a reliable channel takes a step, and a
protocol says which operations it may take and how they move a ghost state.  A
program that obeys a protocol goes on obeying it, so an invariant of a system
only has to look at one operation.
-/
import WolfNano.Duplex.Prog

namespace Duplex

variable {ν α β : Type}

/-! ### One operation -/

/-- What one operation does: the rest of the program, the bytes left to read,
the buffer sent and the observation made. -/
structure OneStep (ν α : Type) where
  next : Proc ν α
  input : Bytes
  out : Option Bytes
  event : Option ν

/-- The next operation on a reliable channel.  A send is complete; a read waits
until all its bytes have arrived. -/
def Proc.step (input : Bytes) : Proc ν α → Option (OneStep ν α)
  | .done _ => none
  | .spin => none
  | .note e k => some ⟨k, input, none, some e⟩
  | .send buf k => some ⟨k buf.length, input, some buf, none⟩
  | .recv n k =>
      if n ≤ input.length then
        some ⟨k (some (input.take n)), input.drop n, none, none⟩
      else
        none

/-! ### Protocols -/

/-- How the operations of a program may move a ghost state. -/
structure Protocol (ν γ : Type) where
  note : γ → ν → γ → Prop
  send : γ → Bytes → γ → Prop
  /-- A read of this many bytes may be made. -/
  asks : γ → Nat → Prop
  recv : γ → Bytes → γ → Prop

variable {γ : Type} {T : Protocol ν γ} {g : γ}

/-- On a reliable channel the program only does what the protocol allows, and
ends in `Q`. -/
def Proc.Obeys (T : Protocol ν γ) : Proc ν α → γ → (α → γ → Prop) → Prop
  | .done a, g, Q => Q a g
  | .spin, _, _ => True
  | .note e k, g, Q => ∃ g', T.note g e g' ∧ k.Obeys T g' Q
  | .send buf k, g, Q => ∃ g', T.send g buf g' ∧ (k buf.length).Obeys T g' Q
  | .recv n k, g, Q =>
      T.asks g n ∧
        ∀ b g', b.length = n → T.recv g b g' → (k (some b)).Obeys T g' Q

namespace Proc

variable {p : Proc ν α} {Q Q' : α → γ → Prop}

theorem Obeys.mono (h : p.Obeys T g Q) (hQ : ∀ a g', Q a g' → Q' a g') :
    p.Obeys T g Q' := by
  induction p generalizing g with
  | done a => exact hQ a g h
  | spin => trivial
  | note e k ih =>
      obtain ⟨g', hnote, hk⟩ := h
      exact ⟨g', hnote, ih hk⟩
  | send buf k ih =>
      obtain ⟨g', hsend, hk⟩ := h
      exact ⟨g', hsend, ih _ hk⟩
  | recv n k ih =>
      obtain ⟨hasks, hk⟩ := h
      exact ⟨hasks, fun b g' hb hrecv => ih _ (hk b g' hb hrecv)⟩

theorem Obeys.bind {f : α → Proc ν β} {R : β → γ → Prop} (h : p.Obeys T g Q)
    (hf : ∀ a g', Q a g' → (f a).Obeys T g' R) : (p >>= f).Obeys T g R := by
  change (p.bind f).Obeys T g R
  induction p generalizing g with
  | done a => exact hf a g h
  | spin => trivial
  | note e k ih =>
      obtain ⟨g', hnote, hk⟩ := h
      exact ⟨g', hnote, ih hk⟩
  | send buf k ih =>
      obtain ⟨g', hsend, hk⟩ := h
      exact ⟨g', hsend, ih _ hk⟩
  | recv n k ih =>
      obtain ⟨hasks, hk⟩ := h
      exact ⟨hasks, fun b g' hb hrecv => ih _ (hk b g' hb hrecv)⟩

theorem obeys_emit {e : ν} {g' : γ} {Q : Unit → γ → Prop} (hnote : T.note g e g')
    (h : Q () g') : (emit e).Obeys T g Q := ⟨g', hnote, h⟩

theorem obeys_write {buf : Bytes} {g' : γ} {Q : Int → γ → Prop}
    (hsend : T.send g buf g') (h : Q buf.length g') : (write buf).Obeys T g Q :=
  ⟨g', hsend, h⟩

end Proc

/-! ### Programs that can fail -/

namespace Prog

variable {ε : Type} {p : Prog ν ε α} {Q : Except ε α → γ → Prop}

/-- `Q` on the value of a success. -/
def onOk (Q : α → γ → Prop) : Except ε α → γ → Prop
  | .ok a, g => Q a g
  | .error _, _ => False

theorem obeys_bind {f : α → Prog ν ε β} {Q : α → γ → Prop} {R : Except ε β → γ → Prop}
    (h : p.run.Obeys T g (onOk Q)) (hf : ∀ a g', Q a g' → (f a).run.Obeys T g' R) :
    (p >>= f).run.Obeys T g R := by
  refine Proc.Obeys.bind h ?_
  intro x g' hx
  cases x with
  | ok a => exact hf a g' hx
  | error e => exact hx.elim

theorem obeys_failIf {c : Prop} [Decidable c] {e : ε} {Q : Unit → γ → Prop} (hc : ¬ c)
    (h : Q () g) : (failIf c e : Prog ν ε Unit).run.Obeys T g (onOk Q) := by
  unfold failIf
  rw [if_neg hc]
  exact h

theorem obeys_note {o : ν} {g' : γ} {Q : Unit → γ → Prop} (hnote : T.note g o g')
    (h : Q () g') : (note o : Prog ν ε Unit).run.Obeys T g (onOk Q) := ⟨g', hnote, h⟩

theorem obeys_lift {x : Except ε α} {a : α} {Q : α → γ → Prop} (hx : x = .ok a)
    (h : Q a g) : (lift x : Prog ν ε α).run.Obeys T g (onOk Q) := by
  subst hx
  exact h

theorem obeys_orFail {x : Option α} {a : α} {e : ε} {Q : α → γ → Prop} (hx : x = some a)
    (h : Q a g) : (orFail x e : Prog ν ε α).run.Obeys T g (onOk Q) := by
  subst hx
  exact h

theorem obeys_recv {n : Nat} {Q : Option Bytes → γ → Prop} (hasks : T.asks g n)
    (h : ∀ b g', b.length = n → T.recv g b g' → Q (some b) g') :
    (recv n : Prog ν ε (Option Bytes)).run.Obeys T g (onOk Q) := ⟨hasks, h⟩

end Prog

/-! ### Steps -/

/-- The next operation of a program that obeys a protocol is one it allows, and
the rest obeys it again.  A read that waits is one the protocol expects. -/
theorem Proc.Obeys.step {p : Proc ν α} {Q : α → γ → Prop} {input : Bytes}
    {x : OneStep ν α} (h : p.Obeys T g Q) (hstep : p.step input = some x) :
    (∃ e g', x.event = some e ∧ x.out = none ∧ x.input = input ∧ T.note g e g' ∧
        x.next.Obeys T g' Q) ∨
      (∃ buf g', x.event = none ∧ x.out = some buf ∧ x.input = input ∧
        T.send g buf g' ∧ x.next.Obeys T g' Q) ∨
      ∃ n, n ≤ input.length ∧ x.event = none ∧ x.out = none ∧
        x.input = input.drop n ∧ T.asks g n ∧
        ∀ g', T.recv g (input.take n) g' → x.next.Obeys T g' Q := by
  cases p with
  | done a => cases hstep
  | spin => cases hstep
  | note e k =>
      obtain rfl := Option.some.inj hstep
      obtain ⟨g', hnote, hk⟩ := h
      exact .inl ⟨e, g', rfl, rfl, rfl, hnote, hk⟩
  | send buf k =>
      obtain rfl := Option.some.inj hstep
      obtain ⟨g', hsend, hk⟩ := h
      exact .inr (.inl ⟨buf, g', rfl, rfl, rfl, hsend, hk⟩)
  | recv n k =>
      rw [Proc.step] at hstep
      split at hstep
      · rename_i hn
        obtain rfl := Option.some.inj hstep
        obtain ⟨hasks, hk⟩ := h
        exact .inr (.inr ⟨n, hn, rfl, rfl, rfl, hasks,
          fun g' hrecv => hk _ g' (List.length_take_of_le hn) hrecv⟩)
      · cases hstep

end Duplex
