/-
Sequential programs over one duplex byte channel, as trees of channel
operations.  A program sends a buffer and sees the number the transport
returned, or asks for exactly `n` bytes and sees either these bytes or a
failure.  The observations `ν` are silent: they record what the program does
between two channel operations and nothing can react to them.

Three readings of one tree: `Runs` lets the transport answer anything,
`exec` runs against a given transport, and `feed` runs against the bytes that
have arrived so far and stops where more are needed.
-/
import WolfNano.Duplex.Bytes

namespace Duplex

universe u v w

inductive Proc (ν : Type u) (α : Type v) : Type (max u v) where
  | done (a : α)
  /-- The loop budget is used up: the program is still running. -/
  | spin
  | note (e : ν) (k : Proc ν α)
  | send (buf : Bytes) (k : Int → Proc ν α)
  | recv (n : Nat) (k : Option Bytes → Proc ν α)

namespace Proc

variable {ν : Type u} {α : Type v} {β : Type w}

def bind : Proc ν α → (α → Proc ν β) → Proc ν β
  | done a, f => f a
  | spin, _ => spin
  | note e k, f => note e (k.bind f)
  | send buf k, f => send buf fun r => (k r).bind f
  | recv n k, f => recv n fun b => (k b).bind f

end Proc

/-- What happens in one run, in order. -/
inductive Act (ν : Type u) where
  | note (e : ν)
  | sent (buf : Bytes) (r : Int)
  | got (b : Bytes)
  | short (n : Nat)

/-- The bytes a run read successfully, in order. -/
def bytesIn {ν : Type u} (tr : List (Act ν)) : Bytes :=
  tr.flatMap fun
    | .got b => b
    | _ => []

/-- The buffers a run handed to the transport, in order. -/
def sends {ν : Type u} (tr : List (Act ν)) : List Bytes :=
  tr.flatMap fun
    | .sent buf _ => [buf]
    | _ => []

/-- The observations of a run, in order. -/
def notes {ν : Type u} (tr : List (Act ν)) : List ν :=
  tr.flatMap fun
    | .note e => [e]
    | _ => []

section Traces

variable {ν : Type u}

@[simp] theorem bytesIn_nil : bytesIn ([] : List (Act ν)) = [] := rfl

@[simp] theorem bytesIn_append (s t : List (Act ν)) :
    bytesIn (s ++ t) = bytesIn s ++ bytesIn t := by
  simp [bytesIn]

@[simp] theorem bytesIn_note (e : ν) (t : List (Act ν)) :
    bytesIn (.note e :: t) = bytesIn t := rfl

@[simp] theorem bytesIn_sent (b : Bytes) (r : Int) (t : List (Act ν)) :
    bytesIn (.sent b r :: t) = bytesIn t := rfl

@[simp] theorem bytesIn_got (b : Bytes) (t : List (Act ν)) :
    bytesIn (.got b :: t) = b ++ bytesIn t := rfl

@[simp] theorem bytesIn_short (n : Nat) (t : List (Act ν)) :
    bytesIn (.short n :: t) = bytesIn t := rfl

@[simp] theorem sends_nil : sends ([] : List (Act ν)) = [] := rfl

@[simp] theorem sends_append (s t : List (Act ν)) :
    sends (s ++ t) = sends s ++ sends t := by
  simp [sends]

@[simp] theorem sends_note (e : ν) (t : List (Act ν)) :
    sends (.note e :: t) = sends t := rfl

@[simp] theorem sends_sent (b : Bytes) (r : Int) (t : List (Act ν)) :
    sends (.sent b r :: t) = b :: sends t := rfl

@[simp] theorem sends_got (b : Bytes) (t : List (Act ν)) :
    sends (.got b :: t) = sends t := rfl

@[simp] theorem sends_short (n : Nat) (t : List (Act ν)) :
    sends (.short n :: t) = sends t := rfl

@[simp] theorem notes_nil : notes ([] : List (Act ν)) = [] := rfl

@[simp] theorem notes_append (s t : List (Act ν)) :
    notes (s ++ t) = notes s ++ notes t := by
  simp [notes]

@[simp] theorem notes_note (e : ν) (t : List (Act ν)) :
    notes (.note e :: t) = e :: notes t := rfl

@[simp] theorem notes_sent (b : Bytes) (r : Int) (t : List (Act ν)) :
    notes (.sent b r :: t) = notes t := rfl

@[simp] theorem notes_got (b : Bytes) (t : List (Act ν)) :
    notes (.got b :: t) = notes t := rfl

@[simp] theorem notes_short (n : Nat) (t : List (Act ν)) :
    notes (.short n :: t) = notes t := rfl

end Traces

namespace Proc

variable {ν : Type u} {α : Type v} {β : Type w}

/-- Some behaviour of the transport makes the program end with this trace and
this result. -/
def Runs : Proc ν α → List (Act ν) → α → Prop
  | done a, tr, x => tr = [] ∧ a = x
  | spin, _, _ => False
  | note e k, tr, x => ∃ t, tr = .note e :: t ∧ k.Runs t x
  | send buf k, tr, x => ∃ r t, tr = .sent buf r :: t ∧ (k r).Runs t x
  | recv n k, tr, x =>
      (∃ b t, b.length = n ∧ tr = .got b :: t ∧ (k (some b)).Runs t x) ∨
        ∃ t, tr = .short n :: t ∧ (k none).Runs t x

/-- A run of a sequence is a run of its first part and then of the rest. -/
theorem runs_bind (p : Proc ν α) (f : α → Proc ν β) (tr : List (Act ν))
    (x : β) :
    (p.bind f).Runs tr x ↔
      ∃ a s t, tr = s ++ t ∧ p.Runs s a ∧ (f a).Runs t x := by
  induction p generalizing tr with
  | done a =>
      constructor
      · intro h
        exact ⟨a, [], tr, rfl, ⟨rfl, rfl⟩, h⟩
      · rintro ⟨_, _, t, rfl, ⟨rfl, rfl⟩, h⟩
        exact h
  | spin => simp [bind, Runs]
  | note e k ih =>
      simp only [bind, Runs, ih]
      constructor
      · rintro ⟨_, rfl, a, s, t, rfl, hs, ht⟩
        exact ⟨a, .note e :: s, t, rfl, ⟨s, rfl, hs⟩, ht⟩
      · rintro ⟨a, _, t, rfl, ⟨s, rfl, hs⟩, ht⟩
        exact ⟨s ++ t, rfl, a, s, t, rfl, hs, ht⟩
  | send buf k ih =>
      simp only [bind, Runs, ih]
      constructor
      · rintro ⟨r, _, rfl, a, s, t, rfl, hs, ht⟩
        exact ⟨a, .sent buf r :: s, t, rfl, ⟨r, s, rfl, hs⟩, ht⟩
      · rintro ⟨a, _, t, rfl, ⟨r, s, rfl, hs⟩, ht⟩
        exact ⟨r, s ++ t, rfl, a, s, t, rfl, hs, ht⟩
  | recv n k ih =>
      simp only [bind, Runs, ih]
      constructor
      · rintro (⟨b, _, hb, rfl, a, s, t, rfl, hs, ht⟩ |
          ⟨_, rfl, a, s, t, rfl, hs, ht⟩)
        · exact ⟨a, .got b :: s, t, rfl, .inl ⟨b, s, hb, rfl, hs⟩, ht⟩
        · exact ⟨a, .short n :: s, t, rfl, .inr ⟨s, rfl, hs⟩, ht⟩
      · rintro ⟨a, _, t, rfl, ⟨b, s, hb, rfl, hs⟩ | ⟨s, rfl, hs⟩, ht⟩
        · exact .inl ⟨b, s ++ t, hb, rfl, a, s, t, rfl, hs, ht⟩
        · exact .inr ⟨s ++ t, rfl, a, s, t, rfl, hs, ht⟩

/-- A program only reacts to the transport: of two runs whose traces agree as
far as both go, both end at the same point with the same result. -/
theorem Runs.deterministic {p : Proc ν α} {s t s' t' : List (Act ν)} {a b : α}
    (hs : p.Runs s a) (ht : p.Runs t b) (h : s ++ s' = t ++ t') : s = t ∧ a = b := by
  induction p generalizing s t with
  | done x =>
      obtain ⟨rfl, rfl⟩ := hs
      obtain ⟨rfl, rfl⟩ := ht
      exact ⟨rfl, rfl⟩
  | spin => exact hs.elim
  | note e k ih =>
      obtain ⟨s, rfl, hs⟩ := hs
      obtain ⟨t, rfl, ht⟩ := ht
      obtain ⟨rfl, hab⟩ := ih hs ht (List.cons.inj h).2
      exact ⟨rfl, hab⟩
  | send buf k ih =>
      obtain ⟨r, s, rfl, hs⟩ := hs
      obtain ⟨r', t, rfl, ht⟩ := ht
      obtain ⟨hhead, htail⟩ := List.cons.inj h
      cases hhead
      obtain ⟨rfl, hab⟩ := ih r hs ht htail
      exact ⟨rfl, hab⟩
  | recv n k ih =>
      obtain ⟨x, s, -, rfl, hs⟩ | ⟨s, rfl, hs⟩ := hs <;>
        obtain ⟨y, t, -, rfl, ht⟩ | ⟨t, rfl, ht⟩ := ht
      · obtain ⟨hhead, htail⟩ := List.cons.inj h
        cases hhead
        obtain ⟨rfl, hab⟩ := ih (some x) hs ht htail
        exact ⟨rfl, hab⟩
      · cases (List.cons.inj h).1
      · cases (List.cons.inj h).1
      · obtain ⟨rfl, hab⟩ := ih none hs ht (List.cons.inj h).2
        exact ⟨rfl, hab⟩

theorem bind_assoc {γ : Type*} (p : Proc ν α) (f : α → Proc ν β) (g : β → Proc ν γ) :
    (p.bind f).bind g = p.bind fun a => (f a).bind g := by
  induction p with
  | done a => rfl
  | spin => rfl
  | note e k ih => simp only [bind, ih]
  | send buf k ih => simp only [bind, ih]
  | recv n k ih => simp only [bind, ih]

theorem bind_done (p : Proc ν α) : p.bind done = p := by
  induction p with
  | done a => rfl
  | spin => rfl
  | note e k ih => simp only [bind, ih]
  | send buf k ih => simp only [bind, ih]
  | recv n k ih => simp only [bind, ih]

/-! ### Do-notation -/

section Sequence

variable {ν α β : Type}

instance : Monad (Proc ν) where
  pure := done
  bind := bind

def emit (e : ν) : Proc ν Unit := note e (done ())

/-- Hand a buffer to the transport and see what it returned. -/
def write (buf : Bytes) : Proc ν Int := send buf done

@[simp] theorem runs_seq {p : Proc ν α} {f : α → Proc ν β} {tr : List (Act ν)}
    {x : β} :
    Runs (p >>= f) tr x ↔
      ∃ a s t, tr = s ++ t ∧ p.Runs s a ∧ (f a).Runs t x :=
  runs_bind p f tr x

@[simp] theorem runs_pure {a x : α} {tr : List (Act ν)} :
    Runs (pure a : Proc ν α) tr x ↔ tr = [] ∧ a = x := Iff.rfl

@[simp] theorem runs_emit {e : ν} {tr : List (Act ν)} {u : Unit} :
    (emit e).Runs tr u ↔ tr = [.note e] := by
  simp [emit, Runs]

@[simp] theorem runs_write {buf : Bytes} {tr : List (Act ν)} {r : Int} :
    (write buf).Runs tr r ↔ tr = [.sent buf r] := by
  simp [write, Runs]

@[simp] theorem runs_spin {tr : List (Act ν)} {x : α} :
    ¬ (spin : Proc ν α).Runs tr x := by
  simp [Runs]

end Sequence

/-! ### Properties of every observation -/

/-- Every observation on every path of the tree satisfies `P`. -/
def Notes (P : ν → Prop) : Proc ν α → Prop
  | done _ => True
  | spin => True
  | note e k => P e ∧ k.Notes P
  | send _ k => ∀ r, (k r).Notes P
  | recv _ k => ∀ b, (k b).Notes P

theorem Notes.mono {P P' : ν → Prop} {p : Proc ν α} (h : p.Notes P) (hP : ∀ e, P e → P' e) :
    p.Notes P' := by
  induction p with
  | done a => trivial
  | spin => trivial
  | note e k ih => exact ⟨hP e h.1, ih h.2⟩
  | send buf k ih => exact fun r => ih r (h r)
  | recv n k ih => exact fun b => ih b (h b)

theorem notes_bind {P : ν → Prop} {p : Proc ν α} {f : α → Proc ν β}
    (hp : p.Notes P) (hf : ∀ a, (f a).Notes P) : (p.bind f).Notes P := by
  induction p with
  | done a => exact hf a
  | spin => trivial
  | note e k ih => exact ⟨hp.1, ih hp.2⟩
  | send buf k ih => exact fun r => ih r (hp r)
  | recv n k ih => exact fun b => ih b (hp b)

/-- Every observation on every path a transport can take satisfies `P`, also where the
program does not end: a read returns as many bytes as it asked for, or none. -/
def Watches (P : ν → Prop) : Proc ν α → Prop
  | done _ => True
  | spin => True
  | note e k => P e ∧ k.Watches P
  | send _ k => ∀ r, (k r).Watches P
  | recv n k => (k none).Watches P ∧ ∀ b, b.length = n → (k (some b)).Watches P

theorem Notes.watches {P : ν → Prop} {p : Proc ν α} (h : p.Notes P) : p.Watches P := by
  induction p with
  | done a => trivial
  | spin => trivial
  | note e k ih => exact ⟨h.1, ih h.2⟩
  | send buf k ih => exact fun r => ih r (h r)
  | recv n k ih => exact ⟨ih none (h none), fun b _ => ih (some b) (h (some b))⟩

/-- The second part starts from what the first one returns. -/
theorem Watches.bind {P : ν → Prop} {p : Proc ν α} {f : α → Proc ν β} (hp : p.Watches P)
    (hf : ∀ tr a, p.Runs tr a → (f a).Watches P) : (p.bind f).Watches P := by
  induction p with
  | done a => exact hf [] a ⟨rfl, rfl⟩
  | spin => trivial
  | note e k ih => exact ⟨hp.1, ih hp.2 fun tr a h => hf (.note e :: tr) a ⟨tr, rfl, h⟩⟩
  | send buf k ih =>
      exact fun r => ih r (hp r) fun tr a h => hf (.sent buf r :: tr) a ⟨r, tr, rfl, h⟩
  | recv n k ih =>
      refine ⟨ih none hp.1 fun tr a h => hf (.short n :: tr) a (.inr ⟨tr, rfl, h⟩), ?_⟩
      intro b hb
      exact ih (some b) (hp.2 b hb) fun tr a h => hf (.got b :: tr) a (.inl ⟨b, tr, hb, rfl, h⟩)

theorem Runs.watched {P : ν → Prop} {p : Proc ν α} {tr : List (Act ν)} {x : α}
    (h : p.Runs tr x) (hp : p.Watches P) : ∀ e ∈ Duplex.notes tr, P e := by
  induction p generalizing tr with
  | done a =>
      obtain ⟨rfl, _⟩ := h
      simp
  | spin => exact h.elim
  | note e k ih =>
      obtain ⟨t, rfl, ht⟩ := h
      simpa using ⟨hp.1, ih ht hp.2⟩
  | send buf k ih =>
      obtain ⟨r, t, rfl, ht⟩ := h
      simpa using ih r ht (hp r)
  | recv n k ih =>
      obtain ⟨b, t, hb, rfl, ht⟩ | ⟨t, rfl, ht⟩ := h
      · simpa using ih (some b) ht (hp.2 b hb)
      · simpa using ih none ht hp.1

theorem Runs.notes {P : ν → Prop} {p : Proc ν α} {tr : List (Act ν)} {x : α}
    (h : p.Runs tr x) (hp : p.Notes P) : ∀ e ∈ Duplex.notes tr, P e := h.watched hp.watches

/-! ### Running against a transport -/

end Proc

/-- A transport: what a send returns, and the answer to a request for exactly
`n` bytes. -/
structure Handler (σ : Type w) where
  send : σ → Bytes → Int × σ
  recv : σ → (n : Nat) → Option { b : Bytes // b.length = n } × σ

namespace Proc

variable {ν : Type u} {α : Type v} {β : Type u} {σ : Type w}

/-- Run to the end; `none` when the loop budget is used up first. -/
def exec (h : Handler σ) : Proc ν α → σ → Option (α × σ × List (Act ν))
  | done a, s => some (a, s, [])
  | spin, _ => none
  | note e k, s => (k.exec h s).map fun x => (x.1, x.2.1, .note e :: x.2.2)
  | send buf k, s =>
      ((k (h.send s buf).1).exec h (h.send s buf).2).map fun x =>
        (x.1, x.2.1, .sent buf (h.send s buf).1 :: x.2.2)
  | recv n k, s =>
      match h.recv s n with
      | (some b, s') =>
          ((k (some b.1)).exec h s').map fun x => (x.1, x.2.1, .got b.1 :: x.2.2)
      | (none, s') =>
          ((k none).exec h s').map fun x => (x.1, x.2.1, .short n :: x.2.2)

/-- Whatever the transport, its runs are among the possible ones. -/
theorem exec_runs (h : Handler σ) {p : Proc ν α} {s s' : σ} {a : α}
    {tr : List (Act ν)} (hexec : p.exec h s = some (a, s', tr)) :
    p.Runs tr a := by
  induction p generalizing s tr with
  | done b =>
      simp only [exec, Option.some.injEq, Prod.mk.injEq] at hexec
      exact ⟨hexec.2.2.symm, hexec.1⟩
  | spin => simp [exec] at hexec
  | note e k ih =>
      simp only [exec, Option.map_eq_some_iff] at hexec
      obtain ⟨⟨b, s₁, t⟩, hk, heq⟩ := hexec
      simp only [Prod.mk.injEq] at heq
      obtain ⟨rfl, rfl, rfl⟩ := heq
      exact ⟨t, rfl, ih hk⟩
  | send buf k ih =>
      simp only [exec, Option.map_eq_some_iff] at hexec
      obtain ⟨⟨b, s₁, t⟩, hk, heq⟩ := hexec
      simp only [Prod.mk.injEq] at heq
      obtain ⟨rfl, rfl, rfl⟩ := heq
      exact ⟨_, t, rfl, ih _ hk⟩
  | recv n k ih =>
      cases hrecv : h.recv s n with
      | mk answer s₁ =>
          cases answer with
          | none =>
              simp only [exec, hrecv, Option.map_eq_some_iff] at hexec
              obtain ⟨⟨b, s₂, t⟩, hk, heq⟩ := hexec
              simp only [Prod.mk.injEq] at heq
              obtain ⟨rfl, rfl, rfl⟩ := heq
              exact .inr ⟨t, rfl, ih none hk⟩
          | some bs =>
              simp only [exec, hrecv, Option.map_eq_some_iff] at hexec
              obtain ⟨⟨b, s₂, t⟩, hk, heq⟩ := hexec
              simp only [Prod.mk.injEq] at heq
              obtain ⟨rfl, rfl, rfl⟩ := heq
              exact .inl ⟨bs.1, t, bs.2, rfl, ih (some bs.1) hk⟩

end Proc

end Duplex
