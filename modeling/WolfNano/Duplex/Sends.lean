/-
The buffers a program hands to the transport: what all of them are, in every run,
and how the runs of a sequence split.
-/
import WolfNano.Duplex.Prog

namespace Duplex

variable {ν ε α β : Type}

/-- Every buffer of every run satisfies `Q`. -/
def Proc.Sends (Q : Bytes → Prop) (p : Proc ν α) : Prop :=
  ∀ tr x, p.Runs tr x → ∀ b ∈ sends tr, Q b

theorem mem_sends {tr : List (Act ν)} {b : Bytes} :
    b ∈ sends tr ↔ ∃ r, Act.sent b r ∈ tr := by
  induction tr with
  | nil => simp
  | cons a tr ih =>
      cases a with
      | note o => simp [ih]
      | sent buf r =>
          rw [sends_sent, List.mem_cons, ih]
          constructor
          · rintro (rfl | ⟨r', hr'⟩)
            · exact ⟨r, List.mem_cons_self⟩
            · exact ⟨r', List.mem_cons_of_mem _ hr'⟩
          · rintro ⟨r', hr'⟩
            rcases List.mem_cons.1 hr' with heq | hmem
            · cases heq
              exact .inl rfl
            · exact .inr ⟨r', hmem⟩
      | got buf => simp [ih]
      | short n => simp [ih]

/-- A buffer that is not sent in the first part of a run is sent after it. -/
theorem sent_after {s u t v : List (Act ν)} {b : Bytes} {r : Int} (hb : b ∉ sends s)
    (h : t ++ .sent b r :: v = s ++ u) : ∃ t', t = s ++ t' := by
  rcases List.append_eq_append_iff.1 h with ⟨c, rfl, htail⟩ | ⟨c, rfl, -⟩
  · cases c with
    | nil => exact ⟨[], (List.append_nil _).symm.trans (List.append_nil _).symm⟩
    | cons a c =>
        obtain ⟨rfl, -⟩ := List.cons.inj htail
        exact absurd (mem_sends.2 ⟨r, by simp⟩) hb
  · exact ⟨c, rfl⟩

namespace Prog

/-- Every buffer of every run satisfies `Q`, also when the run fails. -/
def Sends (Q : Bytes → Prop) (p : Prog ν ε α) : Prop := Proc.Sends Q p

section Sends

variable {Q : Bytes → Prop} {p : Prog ν ε α}

theorem Sends.fails (hp : Sends Q p) {tr : List (Act ν)} {e : ε} (h : Fails p tr e) :
    ∀ b ∈ sends tr, Q b := hp tr _ h

theorem Sends.mono {Q' : Bytes → Prop} (hp : Sends Q p) (h : ∀ b, Q b → Q' b) : Sends Q' p :=
  fun tr x hrun b hb => h b (hp tr x hrun b hb)

/-- What follows a part of a program may use what that part returned. -/
theorem Sends.bind_ok {f : α → Prog ν ε β} (hp : Sends Q p)
    (hf : ∀ tr a, Ok p tr a → Sends Q (f a)) : Sends Q (p >>= f) := by
  intro tr x hrun b hb
  obtain ⟨y, s, t, rfl, hs, ht⟩ := (Proc.runs_bind _ _ _ _).1 hrun
  rw [sends_append, List.mem_append] at hb
  rcases hb with hb | hb
  · exact hp s y hs b hb
  · cases y with
    | error e =>
        obtain ⟨rfl, -⟩ := ht
        exact absurd hb List.not_mem_nil
    | ok a => exact hf s a hs t x ht b hb

theorem Sends.bind {f : α → Prog ν ε β} (hp : Sends Q p) (hf : ∀ a, Sends Q (f a)) :
    Sends Q (p >>= f) :=
  hp.bind_ok fun _ a _ => hf a

theorem Sends.lift {x : Except ε α} : Sends Q (Prog.lift x : Prog ν ε α) := by
  rintro tr y ⟨rfl, -⟩ b hb
  exact absurd hb List.not_mem_nil

theorem Sends.pure {a : α} : Sends Q (Pure.pure a : Prog ν ε α) := Sends.lift

theorem Sends.orFail {x : Option α} {e : ε} : Sends Q (Prog.orFail x e : Prog ν ε α) :=
  Sends.lift

theorem Sends.failIf {c : Prop} [Decidable c] {e : ε} :
    Sends Q (Prog.failIf c e : Prog ν ε Unit) := by
  unfold Prog.failIf
  split
  · exact Sends.lift
  · exact Sends.lift

theorem Sends.spin : Sends Q (Prog.spin : Prog ν ε α) := by
  rintro tr y h
  exact h.elim

theorem Sends.note {o : ν} : Sends Q (Prog.note o : Prog ν ε Unit) := by
  rintro tr y ⟨t, rfl, rfl, -⟩ b hb
  exact absurd hb List.not_mem_nil

theorem Sends.send {buf : Bytes} (h : Q buf) : Sends Q (Prog.send buf : Prog ν ε Int) := by
  rintro tr y ⟨r, t, rfl, rfl, -⟩ b hb
  rw [sends_sent, sends_nil, List.mem_singleton] at hb
  exact hb ▸ h

theorem Sends.recv {n : Nat} : Sends Q (Prog.recv n : Prog ν ε (Option Bytes)) := by
  rintro tr y (⟨c, t, -, rfl, rfl, -⟩ | ⟨t, rfl, rfl, -⟩) b hb
  · exact absurd hb List.not_mem_nil
  · exact absurd hb List.not_mem_nil

theorem Sends.ite {c : Prop} [Decidable c] {q : Prog ν ε α} (hp : Sends Q p) (hq : Sends Q q) :
    Sends Q (if c then p else q) := by
  split
  · exact hp
  · exact hq

end Sends

/-- A run of `p >>= f` is a failing run of `p`, or a successful one and a run of `f`. -/
theorem runs_bind_cases {p : Prog ν ε α} {f : α → Prog ν ε β} {tr : List (Act ν)}
    {x : Except ε β} (h : (p >>= f).run.Runs tr x) :
    (∃ e, x = .error e ∧ Fails p tr e) ∨
      ∃ a s t, tr = s ++ t ∧ Ok p s a ∧ (f a).run.Runs t x := by
  obtain ⟨y, s, t, rfl, hs, ht⟩ := (Proc.runs_bind _ _ _ _).1 h
  cases y with
  | error e =>
      obtain ⟨rfl, rfl⟩ := ht
      rw [List.append_nil]
      exact .inl ⟨e, rfl, hs⟩
  | ok a => exact .inr ⟨a, s, t, rfl, hs, ht⟩

/-- A program stops at one point of a given history. -/
theorem Ok.same {p : Prog ν ε α} {s t s' t' : List (Act ν)} {a b : α} (hs : Ok p s a)
    (ht : Ok p t b) (h : s ++ s' = t ++ t') : s = t ∧ a = b := by
  obtain ⟨rfl, hab⟩ := Proc.Runs.deterministic hs ht h
  exact ⟨rfl, Except.ok.inj hab⟩

theorem Ok.not_fails {p : Prog ν ε α} {s t s' t' : List (Act ν)} {a : α} {e : ε} (hs : Ok p s a)
    (ht : Fails p t e) : s ++ s' ≠ t ++ t' := by
  intro h
  obtain ⟨-, hab⟩ := Proc.Runs.deterministic hs ht h
  cases hab

theorem runs_lift_bind {x : Except ε α} {f : α → Prog ν ε β} {tr : List (Act ν)}
    {y : Except ε β} (h : (lift x >>= f).run.Runs tr y) :
    (∃ e, x = .error e ∧ y = .error e ∧ tr = []) ∨ ∃ a, x = .ok a ∧ (f a).run.Runs tr y := by
  cases x with
  | error e =>
      obtain ⟨rfl, rfl⟩ := h
      exact .inl ⟨e, rfl, rfl, rfl⟩
  | ok a => exact .inr ⟨a, rfl, h⟩

theorem runs_failIf {c : Prop} [Decidable c] {e : ε} {tr : List (Act ν)} {x : Except ε Unit}
    (h : (failIf c e : Prog ν ε Unit).run.Runs tr x) : tr = [] := by
  unfold failIf at h
  split at h
  · exact h.1
  · exact h.1

end Prog

/-! ### At most one -/

/-- At most one place of the list has `Q`. -/
def AtMostOne (Q : α → Prop) (l : List α) : Prop := l.Pairwise fun a b => ¬ (Q a ∧ Q b)

section AtMostOne

variable {Q : α → Prop} {l₁ l₂ : List α}

theorem AtMostOne.of_none (h : ∀ b ∈ l₁, ¬ Q b) : AtMostOne Q l₁ :=
  List.pairwise_of_forall_mem_list fun a ha _ _ hab => h a ha hab.1

theorem AtMostOne.append_none (h₁ : AtMostOne Q l₁) (h₂ : ∀ b ∈ l₂, ¬ Q b) :
    AtMostOne Q (l₁ ++ l₂) :=
  List.pairwise_append.2 ⟨h₁, AtMostOne.of_none h₂, fun _ _ b hb hab => h₂ b hb hab.2⟩

theorem AtMostOne.none_append (h₁ : ∀ b ∈ l₁, ¬ Q b) (h₂ : AtMostOne Q l₂) :
    AtMostOne Q (l₁ ++ l₂) :=
  List.pairwise_append.2 ⟨AtMostOne.of_none h₁, h₂, fun a ha _ _ hab => h₁ a ha hab.1⟩

end AtMostOne

end Duplex
