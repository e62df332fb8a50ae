/-
Running on a finite stream.  A tape holds the bytes that are still to come and
answers what is sent; a read of more than is left finds the end of the stream.
The outcome of a program on a tape is a function, so two streams can be compared
by what a program makes of them.
-/
import WolfNano.Duplex.Prog

namespace Duplex

variable {ν ε α β σ : Type}

/-- The bytes to come, and whatever decides about sends. -/
structure Tape (σ : Type) where
  bytes : Bytes
  state : σ

/-- Reads come from the tape, sends are answered by `answer`. -/
def Tape.handler (answer : σ → Bytes → Int × σ) : Handler (Tape σ) where
  send t buf := ((answer t.state buf).1, { t with state := (answer t.state buf).2 })
  recv t n :=
    if h : n ≤ t.bytes.length then
      (some ⟨t.bytes.take n, List.length_take_of_le h⟩, { t with bytes := t.bytes.drop n })
    else
      (none, { t with bytes := [] })

namespace Proc

variable {h : Handler σ} {p : Proc ν α} {f : α → Proc ν β} {s : σ}

/-- The result of a run and what it leaves of the transport. -/
def eval (h : Handler σ) (p : Proc ν α) (s : σ) : Option (α × σ) :=
  (p.exec h s).map fun x => (x.1, x.2.1)

@[simp] theorem eval_pure {a : α} : (pure a : Proc ν α).eval h s = some (a, s) := rfl

@[simp] theorem eval_done {a : α} : (done a : Proc ν α).eval h s = some (a, s) := rfl

@[simp] theorem eval_spin : (spin : Proc ν α).eval h s = none := rfl

@[simp] theorem eval_note {e : ν} {k : Proc ν α} : (note e k).eval h s = k.eval h s := by
  simp only [eval, exec, Option.map_map]
  rfl

@[simp] theorem eval_send {buf : Bytes} {k : Int → Proc ν α} :
    (send buf k).eval h s = (k (h.send s buf).1).eval h (h.send s buf).2 := by
  simp only [eval, exec, Option.map_map]
  rfl

theorem eval_recv {n : Nat} {k : Option Bytes → Proc ν α} :
    (recv n k).eval h s =
      (k ((h.recv s n).1.map Subtype.val)).eval h (h.recv s n).2 := by
  simp only [eval, exec]
  cases hrecv : h.recv s n with
  | mk answer s' =>
      cases answer with
      | none =>
          simp only [Option.map_map]
          rfl
      | some b =>
          simp only [Option.map_map]
          rfl

theorem eval_bind' :
    (p.bind f).eval h s = (p.eval h s).bind fun x => (f x.1).eval h x.2 := by
  induction p generalizing s with
  | done a => rfl
  | spin => rfl
  | note e k ih => rw [bind, eval_note, eval_note, ih]
  | send buf k ih => rw [bind, eval_send, eval_send, ih]
  | recv n k ih => rw [bind, eval_recv, eval_recv, ih]

@[simp] theorem eval_bind :
    (p >>= f).eval h s = (p.eval h s).bind fun x => (f x.1).eval h x.2 := eval_bind'

@[simp] theorem eval_emit {e : ν} : (emit e).eval h s = some ((), s) := rfl

@[simp] theorem eval_write {buf : Bytes} :
    (write (ν := ν) buf).eval h s = some (h.send s buf) := rfl

/-- An outcome is that of a possible run. -/
theorem eval_runs {a : α} {s' : σ} (heval : p.eval h s = some (a, s')) :
    ∃ tr, p.Runs tr a := by
  obtain ⟨⟨x, s₁, tr⟩, hexec, heq⟩ := Option.map_eq_some_iff.1 heval
  cases heq
  exact ⟨tr, exec_runs h hexec⟩

end Proc

/-! ### Programs that can fail -/

namespace Prog

variable {h : Handler σ} {p : Prog ν ε α} {f : α → Prog ν ε β} {s s' : σ}

/-- The outcome of a program that can fail. -/
def eval (h : Handler σ) (p : Prog ν ε α) (s : σ) : Option (Except ε α × σ) :=
  p.run.eval h s

@[simp] theorem run_eval : p.run.eval h s = p.eval h s := rfl

theorem eval_bind :
    (p >>= f).eval h s = (p.eval h s).bind fun x =>
      match x.1 with
      | .ok a => (f a).eval h x.2
      | .error e => some (.error e, x.2) := by
  refine Proc.eval_bind'.trans ?_
  refine congrArg (Option.bind _) (funext fun x => ?_)
  obtain ⟨e | a, s'⟩ := x
  · rfl
  · rfl

theorem eval_bind_of_ok {a : α} (hp : p.eval h s = some (.ok a, s')) :
    (p >>= f).eval h s = (f a).eval h s' := by
  rw [eval_bind, hp]
  rfl

theorem eval_bind_of_error {e : ε} (hp : p.eval h s = some (.error e, s')) :
    (p >>= f).eval h s = some (.error e, s') := by
  rw [eval_bind, hp]
  rfl

@[simp] theorem eval_pure {a : α} :
    (pure a : Prog ν ε α).eval h s = some (.ok a, s) := rfl

@[simp] theorem eval_lift {x : Except ε α} :
    (lift x : Prog ν ε α).eval h s = some (x, s) := rfl

@[simp] theorem eval_spin : (spin : Prog ν ε α).eval h s = none := rfl

@[simp] theorem eval_throw {e : ε} :
    (throw e : Prog ν ε α).eval h s = some (.error e, s) := rfl

@[simp] theorem eval_note {o : ν} :
    (note o : Prog ν ε Unit).eval h s = some (.ok (), s) := rfl

@[simp] theorem eval_send {buf : Bytes} :
    (send buf : Prog ν ε Int).eval h s = some (.ok (h.send s buf).1, (h.send s buf).2) := rfl

theorem eval_recv {n : Nat} :
    (recv n : Prog ν ε (Option Bytes)).eval h s
      = some (.ok ((h.recv s n).1.map Subtype.val), (h.recv s n).2) :=
  Proc.eval_recv

theorem eval_failIf_neg {c : Prop} [Decidable c] {e : ε} (hc : ¬ c) :
    (failIf c e : Prog ν ε Unit).eval h s = some (.ok (), s) := by
  unfold failIf
  rw [if_neg hc]
  rfl

theorem eval_failIf_pos {c : Prop} [Decidable c] {e : ε} (hc : c) :
    (failIf c e : Prog ν ε Unit).eval h s = some (.error e, s) := by
  unfold failIf
  rw [if_pos hc]
  rfl

@[simp] theorem eval_orFail_some {a : α} {e : ε} :
    (orFail (some a) e : Prog ν ε α).eval h s = some (.ok a, s) := rfl

@[simp] theorem eval_orFail_none {e : ε} :
    (orFail none e : Prog ν ε α).eval h s = some (.error e, s) := rfl

end Prog

/-! ### Reading from a tape -/

section Reads

variable {answer : σ → Bytes → Int × σ} {t : Tape σ} {n : Nat}

theorem Tape.recv_of_le (hn : n ≤ t.bytes.length) :
    ((Tape.handler answer).recv t n).1.map Subtype.val = some (t.bytes.take n) ∧
      ((Tape.handler answer).recv t n).2 = { t with bytes := t.bytes.drop n } := by
  simp [Tape.handler, hn]

theorem Tape.recv_of_lt (hn : t.bytes.length < n) :
    ((Tape.handler answer).recv t n).1.map Subtype.val = none ∧
      ((Tape.handler answer).recv t n).2 = { t with bytes := [] } := by
  simp [Tape.handler, Nat.not_le.2 hn]

end Reads

/-! ### Outcomes without what is left on the tape -/

namespace Proc

/-- The program does not read and comes to an end. -/
def Straight : Proc ν α → Prop
  | done _ => True
  | spin => False
  | note _ k => k.Straight
  | send _ k => ∀ r, (k r).Straight
  | recv _ _ => False

theorem Straight.bind {p : Proc ν α} {f : α → Proc ν β} (hp : p.Straight)
    (hf : ∀ a, (f a).Straight) : (p >>= f).Straight := by
  change (Proc.bind p f).Straight
  induction p with
  | done a => exact hf a
  | spin => exact hp.elim
  | note e k ih => exact ih hp
  | send buf k ih => exact fun r => ih r (hp r)
  | recv n k => exact hp.elim

/-- The outcome on a tape and the state of the transport. -/
def outcome (answer : σ → Bytes → Int × σ) (p : Proc ν α) (t : Tape σ) : Option (α × σ) :=
  (p.eval (Tape.handler answer) t).map fun x => (x.1, x.2.state)

section Outcome

variable {answer : σ → Bytes → Int × σ} {p : Proc ν α} {f : α → Proc ν β} {t t' : Tape σ}

/-- What does not read does not see the tape. -/
theorem Straight.outcome (hp : p.Straight) {b b' : Bytes} {io : σ} :
    p.outcome answer ⟨b, io⟩ = p.outcome answer ⟨b', io⟩ := by
  induction p generalizing io with
  | done a => rfl
  | spin => exact hp.elim
  | note e k ih =>
      have hrest : k.outcome answer ⟨b, io⟩ = k.outcome answer ⟨b', io⟩ := ih hp
      unfold Proc.outcome at hrest ⊢
      rw [eval_note, eval_note]
      exact hrest
  | send buf k ih =>
      have hrest : (k (answer io buf).1).outcome answer ⟨b, (answer io buf).2⟩ =
          (k (answer io buf).1).outcome answer ⟨b', (answer io buf).2⟩ := ih _ (hp _)
      unfold Proc.outcome at hrest ⊢
      rw [eval_send, eval_send]
      exact hrest
  | recv n k => exact hp.elim

theorem Straight.returns (hp : p.Straight) (t : Tape σ) :
    ∃ y, p.outcome answer t = some y := by
  obtain ⟨b, io⟩ := t
  induction p generalizing io with
  | done a => exact ⟨_, rfl⟩
  | spin => exact hp.elim
  | note e k ih =>
      obtain ⟨y, hy⟩ := ih hp io
      unfold Proc.outcome at hy ⊢
      rw [eval_note]
      exact ⟨y, hy⟩
  | send buf k ih =>
      obtain ⟨y, hy⟩ := ih (answer io buf).1 (hp _) (answer io buf).2
      unfold Proc.outcome at hy ⊢
      rw [eval_send]
      exact ⟨y, hy⟩
  | recv n k => exact hp.elim

/-- What does not read goes on from the outcome. -/
theorem outcome_bind_straight (hf : ∀ a, (f a).Straight) :
    (p >>= f).outcome answer t =
      (p.outcome answer t).bind fun x => (f x.1).outcome answer ⟨[], x.2⟩ := by
  unfold outcome
  rw [eval_bind]
  cases p.eval (Tape.handler answer) t with
  | none => rfl
  | some x =>
      obtain ⟨a, b, io⟩ := x
      exact (hf a).outcome

/-- Two tapes with one outcome stay together while nothing is read. -/
theorem outcome_congr (h : p.outcome answer t = p.outcome answer t')
    (hf : ∀ a, (f a).Straight) :
    (p >>= f).outcome answer t = (p >>= f).outcome answer t' := by
  rw [outcome_bind_straight hf, outcome_bind_straight hf, h]

theorem outcome_bind {a : α} {t₁ : Tape σ}
    (hp : p.eval (Tape.handler answer) t = some (a, t₁)) :
    (p >>= f).outcome answer t = (f a).outcome answer t₁ := by
  unfold outcome
  rw [eval_bind, hp]
  rfl

end Outcome

/-- A run that never came to the end of the tape is the same on a longer one. -/
theorem exec_longer {answer : σ → Bytes → Int × σ} {p : Proc ν α} {b rest more : Bytes}
    {io io' : σ} {a : α} {tr : List (Act ν)}
    (h : p.exec (Tape.handler answer) ⟨b, io⟩ = some (a, ⟨rest, io'⟩, tr))
    (hshort : ∀ n, .short n ∉ tr) :
    p.exec (Tape.handler answer) ⟨b ++ more, io⟩ = some (a, ⟨rest ++ more, io'⟩, tr) := by
  induction p generalizing b io tr with
  | done a' =>
      cases h
      rfl
  | spin => cases h
  | note e k ih =>
      obtain ⟨⟨a', t', tr'⟩, hk, heq⟩ := Option.map_eq_some_iff.1 h
      cases heq
      have hlong := ih hk fun n hn => hshort n (List.mem_cons_of_mem _ hn)
      rw [exec, hlong]
      rfl
  | send buf k ih =>
      obtain ⟨⟨a', t', tr'⟩, hk, heq⟩ := Option.map_eq_some_iff.1 h
      cases heq
      have hlong := ih _ hk fun n hn => hshort n (List.mem_cons_of_mem _ hn)
      change ((k (answer io buf).1).exec (Tape.handler answer)
        ⟨b ++ more, (answer io buf).2⟩).map _ = _
      have hsame : (k (answer io buf).1).exec (Tape.handler answer)
          ⟨b ++ more, (answer io buf).2⟩ = some (a', ⟨rest ++ more, io'⟩, tr') := hlong
      rw [hsame]
      rfl
  | recv n k ih =>
      rw [exec] at h ⊢
      by_cases hn : n ≤ b.length
      · have hlonger : n ≤ (b ++ more).length := by
          rw [List.length_append]
          omega
        have htake : (b ++ more).take n = b.take n := List.take_append_of_le_length hn
        have hdrop : (b ++ more).drop n = b.drop n ++ more := List.drop_append_of_le_length hn
        simp only [Tape.handler, dif_pos hn] at h
        simp only [Tape.handler, dif_pos hlonger, htake, hdrop]
        obtain ⟨⟨a', t', tr'⟩, hk, heq⟩ := Option.map_eq_some_iff.1 h
        cases heq
        have hlong := ih _ hk fun m hm => hshort m (List.mem_cons_of_mem _ hm)
        simp only [Tape.handler] at hlong
        rw [hlong]
        rfl
      · simp only [Tape.handler, dif_neg hn] at h
        obtain ⟨⟨a', t', tr'⟩, hk, heq⟩ := Option.map_eq_some_iff.1 h
        cases heq
        exact absurd (List.mem_cons_self ..) (hshort n)

end Proc

namespace Prog

variable {p : Prog ν ε α} {f : α → Prog ν ε β}

/-- The program does not read and comes to an end. -/
def Straight (p : Prog ν ε α) : Prop := Proc.Straight p.run

theorem Straight.bind (hp : p.Straight) (hf : ∀ a, (f a).Straight) : (p >>= f).Straight := by
  refine Proc.Straight.bind (p := p.run) hp fun x => ?_
  cases x with
  | ok a => exact hf a
  | error e => trivial

theorem Straight.lift {x : Except ε α} : (Prog.lift x : Prog ν ε α).Straight := trivial

theorem Straight.pure {a : α} : (pure a : Prog ν ε α).Straight := trivial

theorem Straight.note {o : ν} : (Prog.note o : Prog ν ε Unit).Straight := trivial

theorem Straight.send {buf : Bytes} : (Prog.send buf : Prog ν ε Int).Straight := fun _ => trivial

theorem Straight.failIf {c : Prop} [Decidable c] {e : ε} :
    (Prog.failIf c e : Prog ν ε Unit).Straight := by
  unfold Prog.failIf
  split
  · trivial
  · trivial

theorem Straight.orFail {x : Option α} {e : ε} : (Prog.orFail x e : Prog ν ε α).Straight := trivial

/-- Whenever the first program comes to an end, the second comes to the same end. -/
def Extends (p q : Prog ν ε α) : Prop :=
  ∀ (σ : Type) (h : Handler σ) (s : σ) (x : Except ε α × σ),
    p.eval h s = some x → q.eval h s = some x

theorem Extends.refl : Extends p p := fun _ _ _ _ hp => hp

theorem Extends.spin : Extends (Prog.spin : Prog ν ε α) p := fun _ _ _ _ hp => nomatch hp

theorem Extends.bind {q : Prog ν ε α} {g : α → Prog ν ε β} (hp : Extends p q)
    (hf : ∀ a, Extends (f a) (g a)) : Extends (p >>= f) (q >>= g) := by
  intro σ h s y hy
  rw [eval_bind] at hy ⊢
  obtain ⟨⟨x, s'⟩, heval, hrest⟩ := Option.bind_eq_some_iff.1 hy
  rw [hp σ h s _ heval, Option.bind_some]
  cases x with
  | error e => exact hrest
  | ok a => exact hf a σ h s' y hrest

section Outcome

variable {answer : σ → Bytes → Int × σ} {t t' : Tape σ}

theorem outcome_bind_of_ok {a : α} (hp : p.eval (Tape.handler answer) t = some (.ok a, t')) :
    (p >>= f).run.outcome answer t = (f a).run.outcome answer t' := by
  unfold Proc.outcome
  rw [run_eval, eval_bind_of_ok hp]
  rfl

theorem outcome_bind_of_error {e : ε}
    (hp : p.eval (Tape.handler answer) t = some (.error e, t')) :
    (p >>= f).run.outcome answer t = some (.error e, t'.state) := by
  unfold Proc.outcome
  rw [run_eval, eval_bind_of_error hp]
  rfl

end Outcome

end Prog

/-! ### Enough fuel -/

section Fuel

variable {answer : σ → Bytes → Int × σ} {prog prog' : Nat → Proc ν α} {t t' u u' : Tape σ}

variable (answer prog) in
/-- With enough fuel this is the outcome on the tape. -/
def Settles (t : Tape σ) (y : α × σ) : Prop :=
  ∃ n, ∀ fuel, n ≤ fuel → (prog fuel).outcome answer t = some y

variable (answer prog) in
/-- The program settles on two tapes in the same way. -/
def SameEnd (t t' : Tape σ) : Prop := ∃ y, Settles answer prog t y ∧ Settles answer prog t' y

theorem Settles.bind {k : α → Proc ν β} {a : α} {io : σ} (h : Settles answer prog t (a, io))
    (hk : ∀ a, (k a).Straight) {z : β × σ} (hz : (k a).outcome answer ⟨[], io⟩ = some z) :
    Settles answer (fun fuel => prog fuel >>= k) t z := by
  obtain ⟨n, hn⟩ := h
  refine ⟨n, fun fuel hfuel => ?_⟩
  rw [Proc.outcome_bind_straight hk, hn fuel hfuel]
  exact hz

theorem SameEnd.bind {k : α → Proc ν β} (h : SameEnd answer prog t t')
    (hk : ∀ a, (k a).Straight) : SameEnd answer (fun fuel => prog fuel >>= k) t t' := by
  obtain ⟨⟨a, io⟩, h₁, h₂⟩ := h
  obtain ⟨z, hz⟩ : ∃ z, (k a).outcome answer ⟨[], io⟩ = some z := (hk a).returns _
  exact ⟨z, h₁.bind hk hz, h₂.bind hk hz⟩

theorem Settles.before {n : Nat} {y : α × σ} (h : Settles answer prog u y)
    (hsame : ∀ fuel, n ≤ fuel → (prog' fuel).outcome answer t = (prog fuel).outcome answer u) :
    Settles answer prog' t y := by
  obtain ⟨m, hm⟩ := h
  refine ⟨max n m, fun fuel hfuel => ?_⟩
  rw [hsame fuel (Nat.le_trans (Nat.le_max_left ..) hfuel)]
  exact hm fuel (Nat.le_trans (Nat.le_max_right ..) hfuel)

/-- The programs may start with something else that is the same. -/
theorem SameEnd.before {n : Nat} (h : SameEnd answer prog u u')
    (hsame : ∀ fuel, n ≤ fuel → (prog' fuel).outcome answer t = (prog fuel).outcome answer u)
    (hsame' : ∀ fuel, n ≤ fuel →
      (prog' fuel).outcome answer t' = (prog fuel).outcome answer u') :
    SameEnd answer prog' t t' := by
  obtain ⟨y, h₁, h₂⟩ := h
  exact ⟨y, h₁.before hsame, h₂.before hsame'⟩

end Fuel

end Duplex
