/-
Logs of key installations and of uses of the installed key with a counter.  A
use that fails is tried again with the same counter.  The log is disciplined
when every use is under the key installed last and counts on from the last
completed use before it.  Then no later use repeats the (generation, counter)
pair of a completed one, as long as no generation exhausts the counter.
-/
import Mathlib.Logic.Function.Iterate
import Mathlib.Data.List.Basic

namespace Duplex

universe u v

/-- A counter and how many steps it takes at least to come back. -/
structure Counter (C : Type v) where
  succ : C → C
  period : Nat
  free : ∀ n a, 0 < n → n < period → succ^[n] a ≠ a

inductive KeyEv (K : Type u) (C : Type v) where
  | install (k : K)
  | use (k : K) (n : C) (completed : Bool)

/-- The key in force and the counter expected next: any value right after an
installation. -/
abbrev KeyState (K : Type u) (C : Type v) := Option (K × Option C)

/-- A use with the number of installations before it. -/
structure Use (K : Type u) (C : Type v) where
  gen : Nat
  key : K
  count : C
  completed : Bool

namespace KeyLog

variable {K : Type u} {C : Type v} (c : Counter C)

/-- `st` allows the event and is followed by `st'`. -/
def Step : KeyState K C → KeyEv K C → KeyState K C → Prop
  | _, .install k, st' => st' = some (k, none)
  | st, .use k n completed, st' =>
      ∃ next, st = some (k, next) ∧ (next = none ∨ next = some n) ∧
        st' = if completed then some (k, some (c.succ n)) else st

/-- The log is disciplined from `st` on and leads to `st'`. -/
def Run : KeyState K C → List (KeyEv K C) → KeyState K C → Prop
  | st, [], st' => st = st'
  | st, e :: log, st' => ∃ mid, Step c st e mid ∧ Run mid log st'

/-- The uses of a log whose first event belongs to generation `gen`. -/
def uses : Nat → List (KeyEv K C) → List (Use K C)
  | _, [] => []
  | gen, .install _ :: log => uses (gen + 1) log
  | gen, .use k n completed :: log => ⟨gen, k, n, completed⟩ :: uses gen log

/-- The keys a log installs. -/
def installs : List (KeyEv K C) → List K
  | [] => []
  | .install k :: log => k :: installs log
  | .use _ _ _ :: log => installs log

/-- How many uses of a generation were completed. -/
def completedIn (g : Nat) (us : List (Use K C)) : Nat :=
  (us.filter fun u => u.gen == g && u.completed).length

@[simp] theorem run_nil {st st' : KeyState K C} : Run c st [] st' ↔ st = st' :=
  Iff.rfl

theorem run_append {st st' : KeyState K C} {s t : List (KeyEv K C)} :
    Run c st (s ++ t) st' ↔ ∃ mid, Run c st s mid ∧ Run c mid t st' := by
  induction s generalizing st with
  | nil => simp
  | cons e s ih =>
      simp only [List.cons_append, Run, ih]
      constructor
      · rintro ⟨a, ha, b, hb, hc⟩
        exact ⟨b, ⟨a, ha, hb⟩, hc⟩
      · rintro ⟨b, ⟨a, ha, hb⟩, hc⟩
        exact ⟨a, ha, b, hb, hc⟩

theorem le_gen_of_mem {gen : Nat} {log : List (KeyEv K C)} {u : Use K C}
    (hu : u ∈ uses gen log) : gen ≤ u.gen := by
  induction log generalizing gen with
  | nil => simp [uses] at hu
  | cons e log ih =>
      cases e with
      | install k => exact Nat.le_trans (Nat.le_succ gen) (ih hu)
      | use k n completed =>
          rcases List.mem_cons.1 hu with rfl | hu
          · exact Nat.le_refl _
          · exact ih hu

/-- Every use is under a key of its own log, unless one was in force before. -/
theorem install_mem_of_use {gen : Nat} {st st' : KeyState K C}
    {log : List (KeyEv K C)} (hrun : Run c st log st') {u : Use K C}
    (hu : u ∈ uses gen log) :
    .install u.key ∈ log ∨ ∃ next, st = some (u.key, next) := by
  induction log generalizing st gen with
  | nil => simp [uses] at hu
  | cons e log ih =>
      obtain ⟨mid, hstep, hrest⟩ := hrun
      cases e with
      | install k =>
          cases hstep
          rcases ih hrest hu with hmem | ⟨next, hst⟩
          · exact .inl (List.mem_cons_of_mem _ hmem)
          · cases hst
            exact .inl (List.mem_cons_self ..)
      | use k n completed =>
          obtain ⟨next, rfl, -, rfl⟩ := hstep
          rcases List.mem_cons.1 hu with rfl | hmem
          · exact .inr ⟨next, rfl⟩
          · rcases ih hrest hmem with hmem | ⟨next', hst⟩
            · exact .inl (List.mem_cons_of_mem _ hmem)
            · cases completed <;> cases hst <;> exact .inr ⟨_, rfl⟩

theorem installs_append {s t : List (KeyEv K C)} :
    installs (s ++ t) = installs s ++ installs t := by
  induction s with
  | nil => rfl
  | cons e s ih =>
      cases e with
      | install k => exact congrArg (k :: ·) ih
      | use k n completed => exact ih

theorem installs_eq_nil {log : List (KeyEv K C)} (h : ∀ k, .install k ∉ log) :
    installs log = [] := by
  induction log with
  | nil => rfl
  | cons e log ih =>
      have hrest : installs log = [] := ih fun k hk => h k (List.mem_cons_of_mem e hk)
      cases e with
      | install k => exact absurd List.mem_cons_self (h k)
      | use k n completed => exact hrest

/-- The key of a use is the one installed last before it. -/
theorem key_of_use {gen : Nat} {st st' : KeyState K C} {log : List (KeyEv K C)}
    (hrun : Run c st log st') {u : Use K C} (hu : u ∈ uses gen log) :
    (u.gen = gen ∧ ∃ next, st = some (u.key, next)) ∨
      ∃ i, u.gen = gen + i + 1 ∧ (installs log)[i]? = some u.key := by
  induction log generalizing st gen with
  | nil => simp [uses] at hu
  | cons e log ih =>
      obtain ⟨mid, hstep, hrest⟩ := hrun
      cases e with
      | install k =>
          cases hstep
          rcases ih hrest hu with ⟨hgen, next, hst⟩ | ⟨i, hgen, hkey⟩
          · cases hst
            exact .inr ⟨0, hgen, rfl⟩
          · exact .inr ⟨i + 1, by omega, hkey⟩
      | use k n completed =>
          obtain ⟨next, rfl, -, rfl⟩ := hstep
          rcases List.mem_cons.1 hu with rfl | hmem
          · exact .inl ⟨rfl, next, rfl⟩
          · rcases ih hrest hmem with ⟨hgen, next', hst⟩ | hlater
            · cases completed <;> cases hst <;> exact .inl ⟨hgen, _, rfl⟩
            · exact .inr hlater

/-- With different keys installed, uses under the same key belong to the same generation. -/
theorem gen_eq_of_key {K' : Type u} {f : K → K'} {st' : KeyState K C} {log : List (KeyEv K C)}
    (hrun : Run c none log st') (hnodup : ((installs log).map f).Nodup) {a b : Use K C}
    (ha : a ∈ uses 0 log) (hb : b ∈ uses 0 log) (heq : f a.key = f b.key) : a.gen = b.gen := by
  obtain ⟨-, next, hnone⟩ | ⟨i, hgen, hi⟩ := key_of_use c hrun ha
  · cases hnone
  obtain ⟨-, next, hnone⟩ | ⟨j, hgen', hj⟩ := key_of_use c hrun hb
  · cases hnone
  have hi' : ((installs log).map f)[i]? = some (f a.key) := by rw [List.getElem?_map, hi]; rfl
  have hj' : ((installs log).map f)[j]? = some (f a.key) := by rw [List.getElem?_map, hj, heq]; rfl
  have hlt : i < ((installs log).map f).length := (List.getElem?_eq_some_iff.1 hi').1
  have hij : i = j := (List.getElem?_inj hlt hnodup).1 (hi'.trans hj'.symm)
  omega

theorem completedIn_cons (g : Nat) (u : Use K C) (us : List (Use K C)) :
    completedIn g us ≤ completedIn g (u :: us) :=
  (List.Sublist.filter _ (List.sublist_cons_self u us)).length_le

/-- After a completed use, the uses of its generation go on from there, one
count for each completed use between. -/
theorem run_counts {k : K} {n : C} {gen : Nat} {log : List (KeyEv K C)}
    {st' : KeyState K C} (hrun : Run c (some (k, some n)) log st') {u : Use K C}
    (hu : u ∈ uses gen log) (hgen : u.gen = gen) :
    u.key = k ∧ ∃ m ≤ completedIn gen (uses gen log), u.count = c.succ^[m] n := by
  induction log generalizing n with
  | nil => simp [uses] at hu
  | cons e log ih =>
      obtain ⟨mid, hstep, hrest⟩ := hrun
      cases e with
      | install k' =>
          have hle : gen + 1 ≤ u.gen := le_gen_of_mem hu
          omega
      | use k' n' completed =>
          obtain ⟨next, hst, hnext, rfl⟩ := hstep
          cases hst
          rcases hnext with hnone | hsome
          · cases hnone
          · cases hsome
            rcases List.mem_cons.1 hu with rfl | hmem
            · exact ⟨rfl, 0, Nat.zero_le _, rfl⟩
            · cases completed with
              | false =>
                  obtain ⟨hkey, m, hm, hcount⟩ := ih hrest hmem
                  exact ⟨hkey, m, Nat.le_trans hm (completedIn_cons gen _ _), hcount⟩
              | true =>
                  obtain ⟨hkey, m, hm, hcount⟩ := ih hrest hmem
                  refine ⟨hkey, m + 1, ?_, by
                    rw [hcount, Function.iterate_succ_apply]⟩
                  simpa [uses, completedIn] using hm

/-- In a disciplined log the uses of one generation are under one key, and none
repeats the count of a completed one before it. -/
theorem run_distinct {gen : Nat} {st st' : KeyState K C} {log : List (KeyEv K C)}
    (hrun : Run c st log st')
    (hbound : ∀ g, completedIn g (uses gen log) < c.period) :
    (uses gen log).Pairwise fun a b =>
      a.gen = b.gen → a.completed → a.key = b.key ∧ a.count ≠ b.count := by
  induction log generalizing st gen with
  | nil => exact .nil
  | cons e log ih =>
      obtain ⟨mid, hstep, hrest⟩ := hrun
      cases e with
      | install k => exact ih hrest hbound
      | use k n completed =>
          refine List.pairwise_cons.2 ⟨fun b hb hgen hcompleted => ?_,
            ih hrest fun g => Nat.lt_of_le_of_lt (completedIn_cons g _ _) (hbound g)⟩
          obtain ⟨next, rfl, -, rfl⟩ := hstep
          obtain rfl : completed = true := hcompleted
          obtain ⟨hkey, m, hm, hcount⟩ := run_counts c hrest hb hgen.symm
          have hlt : m + 1 < c.period := by
            have htotal := hbound gen
            simp only [uses, completedIn, List.filter_cons, beq_self_eq_true,
              Bool.and_self, if_true, List.length_cons] at htotal hm
            omega
          refine ⟨hkey.symm, fun heq => c.free (m + 1) n (Nat.succ_pos m) hlt ?_⟩
          rw [Function.iterate_succ_apply, ← hcount]
          exact heq.symm

end KeyLog

end Duplex
