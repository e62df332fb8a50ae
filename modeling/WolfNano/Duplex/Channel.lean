/-
Two programs that talk over a reliable channel, a queue of bytes in either direction.  What
one of them does does not keep the other from doing anything, so all schedules of the two
come to the same end.
-/
import WolfNano.Duplex.Protocol

namespace Duplex

universe u v w

variable {ν : Type u} {α : Type v} {β : Type w}

/-- One step of a program: the bytes it sends are all taken, and a read waits until there are
enough bytes.  `b` and `b'` are what is waiting for it before and after. -/
inductive Proc.Moves : Proc ν α → Bytes → Bytes → Proc ν α → Bytes → Prop where
  | note (e : ν) (k : Proc ν α) (b : Bytes) : Moves (.note e k) b [] k b
  | send (buf : Bytes) (k : Int → Proc ν α) (b : Bytes) :
      Moves (.send buf k) b buf (k buf.length) b
  | recv (n : Nat) (k : Option Bytes → Proc ν α) (b : Bytes) (h : n ≤ b.length) :
      Moves (.recv n k) b [] (k (some (b.take n))) (b.drop n)

/-- Two programs and what is on the way to each of them. -/
structure Pair (ν : Type u) (α : Type v) (β : Type w) where
  left : Proc ν α
  right : Proc ν β
  toLeft : Bytes
  toRight : Bytes

namespace Pair

/-- One of the two makes a step. -/
inductive Step : Pair ν α β → Pair ν α β → Prop where
  | left {p p' : Proc ν α} {q : Proc ν β} {a a' b out : Bytes} (h : p.Moves a out p' a') :
      Step ⟨p, q, a, b⟩ ⟨p', q, a', b ++ out⟩
  | right {p : Proc ν α} {q q' : Proc ν β} {a b b' out : Bytes} (h : q.Moves b out q' b') :
      Step ⟨p, q, a, b⟩ ⟨p, q', a ++ out, b'⟩

/-- `t` is reached from `s` in `n` steps. -/
inductive Reaches : Pair ν α β → Nat → Pair ν α β → Prop where
  | start (s : Pair ν α β) : Reaches s 0 s
  | step {s s' t : Pair ν α β} {n : Nat} : Step s s' → Reaches s' n t → Reaches s (n + 1) t

/-- No step is left. -/
def Ended (t : Pair ν α β) : Prop := ∀ t', ¬ Step t t'

/-- Whatever the schedule, after at most `n` steps in all the two end in `t`. -/
def EndsIn (s : Pair ν α β) (n : Nat) (t : Pair ν α β) : Prop :=
  Ended t ∧ ∀ m u, Reaches s m u → m ≤ n ∧ Reaches u (n - m) t

end Pair

/-! ### One program -/

namespace Proc

variable {p p₁ p₂ : Proc ν α} {b out b₁ out₁ b₂ out₂ : Bytes}

/-- What arrives later does not change a step. -/
theorem Moves.later (h : p.Moves b out p₁ b₁) (more : Bytes) :
    p.Moves (b ++ more) out p₁ (b₁ ++ more) := by
  cases h with
  | note => exact .note ..
  | send => exact .send ..
  | recv n k _ hn =>
      have hlonger : n ≤ (b ++ more).length := by
        rw [List.length_append]
        exact Nat.le_add_right_of_le hn
      rw [← List.take_append_of_le_length hn, ← List.drop_append_of_le_length hn]
      exact .recv n k _ hlonger

theorem Moves.unique (h₁ : p.Moves b out₁ p₁ b₁) (h₂ : p.Moves b out₂ p₂ b₂) :
    out₁ = out₂ ∧ p₁ = p₂ ∧ b₁ = b₂ := by
  cases h₁ with
  | note =>
      cases h₂
      exact ⟨rfl, rfl, rfl⟩
  | send =>
      cases h₂
      exact ⟨rfl, rfl, rfl⟩
  | recv =>
      cases h₂
      exact ⟨rfl, rfl, rfl⟩

/-- The program gets from `p` to `p'` on its own, reading `b` up to `b'` and sending `out`. -/
inductive Goes : Proc ν α → Bytes → Bytes → Proc ν α → Bytes → Prop where
  | start (p : Proc ν α) (b : Bytes) : Goes p b [] p b
  | step {p p' q : Proc ν α} {b b' c out more : Bytes} :
      Moves p b out p' b' → Goes p' b' more q c → Goes p b (out ++ more) q c

theorem Moves.of_done {a : α} : ¬ (done a : Proc ν α).Moves b out p₁ b₁ := by
  intro h
  cases h

end Proc

/-- Every buffer was taken whole, and every read found its bytes. -/
def Act.Whole : Act ν → Prop
  | .sent buf r => r = buf.length
  | .short _ => False
  | _ => True

def AllWhole (tr : List (Act ν)) : Prop := ∀ x ∈ tr, x.Whole

/-- A run can be stopped anywhere: the program has gone that far and has the rest to run. -/
theorem Proc.Runs.goes {p : Proc ν α} {s t : List (Act ν)} {a : α} (h : p.Runs (s ++ t) a)
    (hs : AllWhole s) : ∃ p' : Proc ν α, p'.Runs t a ∧
      ∀ rest, p.Goes (bytesIn s ++ rest) (sends s).flatten p' rest := by
  induction s generalizing p with
  | nil => exact ⟨p, h, fun rest => .start p rest⟩
  | cons x s ih =>
      have hx := hs x List.mem_cons_self
      have hrest : AllWhole s := fun y hy => hs y (List.mem_cons_of_mem x hy)
      cases p with
      | done a' =>
          obtain ⟨hnil, -⟩ := h
          cases hnil
      | spin => exact h.elim
      | note e k =>
          obtain ⟨u, heq, hk⟩ := h
          obtain ⟨rfl, rfl⟩ := List.cons.inj heq
          obtain ⟨p', hp', hgoes⟩ := ih hk hrest
          exact ⟨p', hp', fun rest => .step (.note e k _) (hgoes rest)⟩
      | send buf k =>
          obtain ⟨r, u, heq, hk⟩ := h
          obtain ⟨rfl, rfl⟩ := List.cons.inj heq
          obtain rfl : r = buf.length := hx
          obtain ⟨p', hp', hgoes⟩ := ih hk hrest
          exact ⟨p', hp', fun rest => .step (.send buf k _) (hgoes rest)⟩
      | recv n k =>
          obtain ⟨got, u, hn, heq, hk⟩ | ⟨u, heq, hk⟩ := h
          · obtain ⟨rfl, rfl⟩ := List.cons.inj heq
            subst hn
            obtain ⟨p', hp', hgoes⟩ := ih hk hrest
            refine ⟨p', hp', fun rest => ?_⟩
            have hmove := Moves.recv got.length k (got ++ (bytesIn s ++ rest)) (by simp)
            rw [List.take_left, List.drop_left] at hmove
            rw [bytesIn_got, List.append_assoc]
            exact .step hmove (hgoes rest)
          · obtain ⟨rfl, rfl⟩ := List.cons.inj heq
            exact hx.elim

namespace Proc

variable {p p' q : Proc ν α} {b b' c out more : Bytes}

theorem eq_done_of_runs {a : α} (h : p.Runs [] a) : p = .done a := by
  cases p with
  | done a' =>
      obtain ⟨-, rfl⟩ := h
      rfl
  | spin => exact h.elim
  | note e k =>
      obtain ⟨_, hnil, -⟩ := h
      cases hnil
  | send buf k =>
      obtain ⟨_, _, hnil, -⟩ := h
      cases hnil
  | recv n k =>
      obtain ⟨_, _, -, hnil, -⟩ | ⟨_, hnil, -⟩ := h
      · cases hnil
      · cases hnil

theorem Goes.trans (h : p.Goes b out p' b') (h' : p'.Goes b' more q c) :
    p.Goes b (out ++ more) q c := by
  induction h with
  | start p b => exact h'
  | step hmove _ ih =>
      rw [List.append_assoc]
      exact .step hmove (ih h')

/-- A program on its way to a result keeps to it, whatever has arrived behind what it reads. -/
theorem Goes.next {a : α} {out₁ b₁ : Bytes} {p₁ : Proc ν α} (h : p.Goes b out (.done a) c)
    (hmove : p.Moves (b ++ more) out₁ p₁ b₁) : ∃ b' out₂,
      p.Moves b out₁ p₁ b' ∧ b₁ = b' ++ more ∧ out = out₁ ++ out₂ ∧
      p₁.Goes b' out₂ (.done a) c := by
  cases h with
  | start => exact absurd hmove Moves.of_done
  | step hfirst hrest =>
      obtain ⟨rfl, rfl, rfl⟩ := (hfirst.later more).unique hmove
      exact ⟨_, _, hfirst, rfl, rfl, hrest⟩

/-- It has got its result, or can go on. -/
theorem Goes.ready {a : α} (h : p.Goes b out (.done a) c) :
    (p = .done a ∧ b = c ∧ out = []) ∨ ∃ out₁ p₁ b₁, p.Moves b out₁ p₁ b₁ := by
  cases h with
  | start => exact .inl ⟨rfl, rfl, rfl⟩
  | step hfirst _ => exact .inr ⟨_, _, _, hfirst⟩

theorem Goes.of_done {a a' : α} (h : (done a : Proc ν α).Goes b out (.done a') c) :
    a = a' ∧ b = c ∧ out = [] := by
  cases h with
  | start => exact ⟨rfl, rfl, rfl⟩
  | step hfirst _ => exact absurd hfirst Moves.of_done

theorem Moves.nothing_left (h : p.Moves [] out p' b') : b' = [] := by
  cases h with
  | note => rfl
  | send => rfl
  | recv => exact List.drop_nil

/-- A program that has nothing more to read leaves what has arrived alone. -/
theorem Goes.next_send {a : α} {input out₁ b₁ : Bytes} {p₁ : Proc ν α}
    (h : p.Goes [] out (.done a) []) (hmove : p.Moves input out₁ p₁ b₁) : ∃ out₂,
      b₁ = input ∧ out = out₁ ++ out₂ ∧ p₁.Goes [] out₂ (.done a) [] := by
  obtain ⟨b', out₂, hfirst, rfl, rfl, hrest⟩ := h.next hmove
  obtain rfl := hfirst.nothing_left
  exact ⟨out₂, rfl, rfl, hrest⟩

/-- A program that has nothing more to send reads on. -/
theorem Goes.next_read {a : α} {input rest more out₁ b₁ : Bytes} {p₁ : Proc ν α}
    (h : p.Goes b [] (.done a) []) (hqueue : input ++ more = b ++ rest)
    (hmove : p.Moves input out₁ p₁ b₁) : ∃ b',
      out₁ = [] ∧ b₁ ++ more = b' ++ rest ∧ p₁.Goes b' [] (.done a) [] := by
  have hlater := hmove.later more
  rw [hqueue] at hlater
  obtain ⟨b', out₂, -, hleft, hnone, hrest⟩ := h.next hlater
  obtain ⟨rfl, rfl⟩ := List.append_eq_nil_iff.1 hnone.symm
  exact ⟨b', rfl, hleft, hrest⟩

theorem Moves.bind (h : p.Moves b out p' b') (f : α → Proc ν β) :
    (p.bind f).Moves b out (p'.bind f) b' := by
  cases h with
  | note => exact .note ..
  | send => exact .send ..
  | recv n k _ hn => exact .recv n (fun x => (k x).bind f) b hn

/-- A program goes as far as its first part does. -/
theorem Goes.bind (h : p.Goes b out p' b') (f : α → Proc ν β) :
    (p.bind f).Goes b out (p'.bind f) b' := by
  induction h with
  | start p b => exact .start _ _
  | step hmove _ ih => exact .step (hmove.bind f) ih

theorem goes_emit {μ : Type} {γ : Type} {e : μ} {k : Unit → Proc μ γ} {r : Proc μ γ}
    (h : (k ()).Goes b out r c) : (Proc.emit e >>= k).Goes b out r c :=
  .step (.note e (k ()) b) h

/-- The last buffer that is sent. -/
theorem goes_write {μ : Type} {γ : Type} {buf : Bytes} {k : Int → Proc μ γ} {r : Proc μ γ}
    (h : (k buf.length).Goes b [] r c) : (Proc.write buf >>= k).Goes b buf r c := by
  have hgo : (Proc.write buf >>= k).Goes b (buf ++ []) r c := .step (.send buf k b) h
  rw [List.append_nil] at hgo
  exact hgo

end Proc

/-! ### One operation at a time -/

section Operation

variable {μ γ : Type} {p p' : Proc μ γ} {b b' out : Bytes}

theorem Proc.Moves.of_step {x : OneStep μ γ} (h : p.step b = some x) :
    p.Moves b (x.out.getD []) x.next x.input := by
  cases p with
  | done a => cases h
  | spin => cases h
  | note e k =>
      cases h
      exact .note ..
  | send buf k =>
      cases h
      exact .send ..
  | recv n k =>
      obtain ⟨hn, heq⟩ := Option.ite_none_right_eq_some.1 h
      cases heq
      exact .recv n k b hn

theorem Proc.Moves.step (h : p.Moves b out p' b') :
    ∃ x, p.step b = some x ∧ x.next = p' ∧ x.input = b' ∧ x.out.getD [] = out := by
  cases h with
  | note => exact ⟨_, rfl, rfl, rfl, rfl⟩
  | send => exact ⟨_, rfl, rfl, rfl, rfl⟩
  | recv n k _ hn => exact ⟨_, if_pos hn, rfl, rfl, rfl⟩

end Operation

/-! ### Programs that stop at the first error -/

namespace Prog

variable {ε γ δ μ : Type}

/-- The program reads `i`, sends `o` and returns `a`, whatever comes after `i`. -/
def Gets (p : Prog μ ε γ) (i o : Bytes) (a : γ) : Prop :=
  ∀ rest, p.run.Goes (i ++ rest) o (.done (.ok a)) rest

section Gets

variable {p : Prog μ ε γ} {f : γ → Prog μ ε δ} {i i' o o' b c : Bytes} {a : γ} {d : δ}

theorem Gets.goes {q : Proc μ (Except ε δ)} (h : Gets p i o a)
    (hf : (f a).run.Goes b o' q c) : (p >>= f).run.Goes (i ++ b) (o ++ o') q c :=
  ((h b).bind _).trans hf

theorem Gets.bind (h : Gets p i o a) (hf : Gets (f a) i' o' d) :
    Gets (p >>= f) (i ++ i') (o ++ o') d := by
  intro rest
  rw [List.append_assoc]
  exact h.goes (hf rest)

theorem Gets.reads_bind (h : Gets p i [] a) (hf : Gets (f a) i' o' d) :
    Gets (p >>= f) (i ++ i') o' d := h.bind hf

theorem Gets.sends_bind (h : Gets p [] o a) (hf : Gets (f a) i' o' d) :
    Gets (p >>= f) i' (o ++ o') d := h.bind hf

/-- Nothing is read or sent after the first part. -/
theorem Gets.last (h : Gets p i o a) (hf : Gets (f a) [] [] d) : Gets (p >>= f) i o d := by
  have hall := h.bind hf
  rw [List.append_nil, List.append_nil] at hall
  exact hall

/-- All is read in the first part, and all is sent after it. -/
theorem Gets.turn (h : Gets p i [] a) (hf : Gets (f a) [] o d) : Gets (p >>= f) i o d := by
  have hall := h.bind hf
  rw [List.append_nil] at hall
  exact hall

/-- What the caller of a program goes on with. -/
theorem Gets.run {k : Except ε γ → Proc μ δ} (h : Gets p i o a) :
    (p.run >>= k).Goes (i ++ b) o (k (.ok a)) b :=
  (h b).bind k

theorem Gets.run_all {k : Except ε γ → Proc μ δ} (h : Gets p i o a) :
    (p.run >>= k).Goes i o (k (.ok a)) [] := by
  have hall := @Gets.run ε γ δ μ p i o [] a k h
  rw [List.append_nil] at hall
  exact hall

theorem gets_pure : Gets (pure a : Prog μ ε γ) [] [] a := fun _ => .start _ _

theorem gets_lift {x : Except ε γ} (h : x = .ok a) : Gets (lift x : Prog μ ε γ) [] [] a := by
  rw [h]
  exact gets_pure

theorem Gets.lift_bind {x : Except ε γ} (h : x = .ok a) (hf : Gets (f a) i o d) :
    Gets (lift x >>= f) i o d := by
  rw [h]
  exact hf

theorem Gets.failIf_bind {c : Prop} [Decidable c] {e : ε} {f : Unit → Prog μ ε δ} (hc : ¬ c)
    (hf : Gets (f ()) i o d) : Gets (failIf c e >>= f) i o d := by
  have hgo : (failIf c e : Prog μ ε Unit) = pure () := if_neg hc
  rw [hgo]
  exact hf

theorem Gets.note_bind {e : μ} {f : Unit → Prog μ ε δ} (hf : Gets (f ()) i o d) :
    Gets (note e >>= f) i o d := fun rest => .step (.note e _ _) (hf rest)

theorem Gets.send_bind {buf : Bytes} {f : Int → Prog μ ε δ} (hf : Gets (f buf.length) i o d) :
    Gets (send buf >>= f) i (buf ++ o) d := fun rest => .step (.send buf _ _) (hf rest)

/-- A run that meets no refusal. -/
theorem Ok.gets {tr : List (Act μ)} (h : Ok p tr a) (hw : AllWhole tr) :
    Gets p (bytesIn tr) (sends tr).flatten a := by
  intro rest
  have htr : Proc.Runs p (tr ++ []) (.ok a) := by
    rw [List.append_nil]
    exact h
  obtain ⟨p', hp', hgoes⟩ := htr.goes hw
  rw [Proc.eq_done_of_runs hp'] at hgoes
  exact hgoes rest

end Gets

end Prog

/-! ### Two programs -/

namespace Pair

variable {p p' : Proc ν α} {q q' : Proc ν β} {a b c out : Bytes} {s s' t u : Pair ν α β} {m n : Nat}

theorem Reaches.trans (h : Reaches s m t) (h' : Reaches t n u) : Reaches s (m + n) u := by
  induction h with
  | start s =>
      rw [Nat.zero_add]
      exact h'
  | step hstep _ ih =>
      rw [Nat.add_right_comm]
      exact .step hstep (ih h')

/-- While one program goes on, what it sends queues up for the other. -/
theorem reaches_left (h : p.Goes a out p' c) :
    ∃ n, Reaches ⟨p, q, a, b⟩ n ⟨p', q, c, b ++ out⟩ := by
  induction h generalizing b with
  | start p a =>
      rw [List.append_nil]
      exact ⟨0, .start _⟩
  | step hmove _ ih =>
      obtain ⟨n, hn⟩ := @ih (b ++ _)
      rw [← List.append_assoc]
      exact ⟨n + 1, .step (.left hmove) hn⟩

theorem reaches_right (h : q.Goes b out q' c) :
    ∃ n, Reaches ⟨p, q, a, b⟩ n ⟨p, q', a ++ out, c⟩ := by
  induction h generalizing a with
  | start q b =>
      rw [List.append_nil]
      exact ⟨0, .start _⟩
  | step hmove _ ih =>
      obtain ⟨n, hn⟩ := @ih (a ++ _)
      rw [← List.append_assoc]
      exact ⟨n + 1, .step (.right hmove) hn⟩

/-- Two steps from one state are the same, or they can be made one after the other. -/
theorem Step.diamond (h : Step s t) (h' : Step s u) : t = u ∨ ∃ w, Step t w ∧ Step u w := by
  cases h with
  | left h₁ =>
      cases h' with
      | left h₂ =>
          obtain ⟨rfl, rfl, rfl⟩ := h₁.unique h₂
          exact .inl rfl
      | right h₂ => exact .inr ⟨_, .right (h₂.later _), .left (h₁.later _)⟩
  | right h₁ =>
      cases h' with
      | left h₂ => exact .inr ⟨_, .left (h₂.later _), .right (h₁.later _)⟩
      | right h₂ =>
          obtain ⟨rfl, rfl, rfl⟩ := h₁.unique h₂
          exact .inl rfl

/-- A step never leads away from the end. -/
theorem Reaches.after_step (h : Reaches s n t) (ht : Ended t) (hstep : Step s s') :
    ∃ k, n = k + 1 ∧ Reaches s' k t := by
  induction h generalizing s' with
  | start s => exact absurd hstep (ht s')
  | step hone hrest ih =>
      rcases hone.diamond hstep with rfl | ⟨w, hw, hw'⟩
      · exact ⟨_, rfl, hrest⟩
      · obtain ⟨k, rfl, hk⟩ := ih ht hw
        exact ⟨k + 1, rfl, .step hw' hk⟩

/-- The end of one schedule is the end of all. -/
theorem Reaches.endsIn (h : Reaches s n t) (ht : Ended t) : EndsIn s n t := by
  refine ⟨ht, fun m u hu => ?_⟩
  induction hu generalizing n with
  | start s => exact ⟨Nat.zero_le n, h⟩
  | step hstep _ ih =>
      obtain ⟨k, rfl, hk⟩ := h.after_step ht hstep
      obtain ⟨hm, hreach⟩ := ih hk
      refine ⟨Nat.succ_le_succ hm, ?_⟩
      rw [Nat.add_sub_add_right]
      exact hreach

theorem EndsIn.next (h : EndsIn s n t) (hstep : Step s s') : ∃ k, EndsIn s' k t :=
  ⟨_, ((h.2 1 s' (.step hstep (.start s'))).2).endsIn h.1⟩

/-- The end is there, or a step can be made. -/
theorem EndsIn.ready (h : EndsIn s n t) : s = t ∨ ∃ s', Step s s' := by
  obtain ⟨-, hreach⟩ := h.2 0 s (.start s)
  rw [Nat.sub_zero] at hreach
  cases hreach with
  | start => exact .inl rfl
  | step hstep _ => exact .inr ⟨_, hstep⟩

/-- When the left program is done, the right one only has to read what is on the way to it. -/
theorem Reaches.right_alone {x x' : α} {y : β}
    (h : Reaches ⟨.done x, q, a, b⟩ n ⟨.done x', .done y, [], []⟩) :
    x = x' ∧ a = [] ∧ q.Goes b [] (.done y) [] := by
  generalize hs : (⟨.done x, q, a, b⟩ : Pair ν α β) = s at h
  generalize ht : (⟨.done x', .done y, [], []⟩ : Pair ν α β) = t at h
  induction h generalizing q a b with
  | start s =>
      cases hs
      cases ht
      exact ⟨rfl, rfl, .start _ _⟩
  | step hstep _ ih =>
      cases hstep with
      | left hmove =>
          cases hs
          exact absurd hmove Proc.Moves.of_done
      | right hmove =>
          cases hs
          obtain ⟨hx, hnone, hrest⟩ := ih rfl ht
          obtain ⟨rfl, rfl⟩ := List.append_eq_nil_iff.1 hnone
          exact ⟨hx, rfl, .step hmove hrest⟩

theorem Reaches.left_alone {x : α} {y y' : β}
    (h : Reaches ⟨p, .done y, a, b⟩ n ⟨.done x, .done y', [], []⟩) :
    y = y' ∧ b = [] ∧ p.Goes a [] (.done x) [] := by
  generalize hs : (⟨p, .done y, a, b⟩ : Pair ν α β) = s at h
  generalize ht : (⟨.done x, .done y', [], []⟩ : Pair ν α β) = t at h
  induction h generalizing p a b with
  | start s =>
      cases hs
      cases ht
      exact ⟨rfl, rfl, .start _ _⟩
  | step hstep _ ih =>
      cases hstep with
      | left hmove =>
          cases hs
          obtain ⟨hy, hnone, hrest⟩ := ih rfl ht
          obtain ⟨rfl, rfl⟩ := List.append_eq_nil_iff.1 hnone
          exact ⟨hy, rfl, .step hmove hrest⟩
      | right hmove =>
          cases hs
          exact absurd hmove Proc.Moves.of_done

theorem ended_done {x : α} {y : β} : Ended (⟨.done x, .done y, a, b⟩ : Pair ν α β) := by
  intro t' h
  cases h with
  | left h => exact Proc.Moves.of_done h
  | right h => exact Proc.Moves.of_done h

/-- The left program speaks first, the right one answers what it needs of that, the left one
reads the answer and speaks once more. -/
theorem endsIn_of_turns {x : α} {y : β} {ask more answer last : Bytes}
    (hask : p.Goes [] (ask ++ more) p' []) (hanswer : q.Goes (ask ++ more) answer q' more)
    (hlast : p'.Goes answer last (.done x) []) (hend : q'.Goes (more ++ last) [] (.done y) []) :
    ∃ n, EndsIn ⟨p, q, [], []⟩ n ⟨.done x, .done y, [], []⟩ := by
  obtain ⟨k₁, hk₁⟩ := reaches_left (q := q) (b := []) hask
  obtain ⟨k₂, hk₂⟩ := reaches_right (p := p') (a := []) hanswer
  obtain ⟨k₃, hk₃⟩ := reaches_left (q := q') (b := more) hlast
  obtain ⟨k₄, hk₄⟩ := reaches_right (p := .done x) (a := []) hend
  exact ⟨_, (((hk₁.trans hk₂).trans hk₃).trans hk₄).endsIn ended_done⟩

end Pair

end Duplex
