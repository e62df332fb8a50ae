/-
Ratchets.  A writer's first secret stands alone, its second one starts a chain, and every later one
is the update of the one before; each generation has one key, derived from its secret.  The
derivation may have collisions: a ratchet is fresh up to a generation when none of them is between
two of the inputs it takes to get there.  Then no two generations have the same key, whichever of
them the writer skips.
-/
import Mathlib.Data.List.Nodup
import Mathlib.Data.Option.Basic
import Mathlib.Order.Nat

namespace Duplex

universe u v

structure Ratchet (I : Type u) (O : Type v) where
  expand : I → Option O
  first : I
  second : I
  update : O → I
  keyInput : O → I
  update_injective : Function.Injective update
  keyInput_injective : Function.Injective keyInput
  first_ne_second : first ≠ second
  update_ne_first : ∀ s, update s ≠ first
  update_ne_second : ∀ s, update s ≠ second

namespace Ratchet

variable {I : Type u} {O : Type v} (R : Ratchet I O)

/-- The secret of a generation. -/
def secret : Nat → Option O
  | 0 => R.expand R.first
  | 1 => R.expand R.second
  | g + 2 => (secret (g + 1)).bind fun s => R.expand (R.update s)

/-- The key of a generation. -/
def key (g : Nat) : Option O := (R.secret g).bind fun s => R.expand (R.keyInput s)

/-- What the secret of a generation is derived from. -/
def origin : Nat → Option I
  | 0 => some R.first
  | 1 => some R.second
  | g + 2 => (R.secret (g + 1)).map R.update

/-- The inputs of the first `n` generations. -/
def inputs (n : Nat) : List I :=
  (List.range n).flatMap fun g => (R.origin g).toList ++ ((R.secret g).map R.keyInput).toList

/-- No collision among the inputs of the first `n` generations. -/
def Fresh (n : Nat) : Prop :=
  ∀ i ∈ R.inputs n, ∀ j ∈ R.inputs n, (R.expand i).isSome → R.expand i = R.expand j → i = j

instance [DecidableEq I] [DecidableEq O] (n : Nat) : Decidable (R.Fresh n) :=
  inferInstanceAs (Decidable (∀ i ∈ R.inputs n, ∀ j ∈ R.inputs n,
    (R.expand i).isSome → R.expand i = R.expand j → i = j))

/-- The keys of some of the generations from `n` up to `n'`, in order. -/
def Advances (n : Nat) (ks : List O) (n' : Nat) : Prop :=
  n ≤ n' ∧ ∃ gens : List Nat, gens.Pairwise (· < ·) ∧ (∀ g ∈ gens, n ≤ g ∧ g < n') ∧
    ks.map some = gens.map R.key

variable {R} {n n' n'' g g' : Nat}

theorem secret_origin {s : O} (h : R.secret g = some s) :
    ∃ i, R.origin g = some i ∧ R.expand i = some s := by
  rcases g with _ | _ | g
  · exact ⟨R.first, rfl, h⟩
  · exact ⟨R.second, rfl, h⟩
  · obtain ⟨s', hs', hexpand⟩ := Option.bind_eq_some_iff.1 h
    exact ⟨R.update s', Option.map_eq_some_iff.2 ⟨s', hs', rfl⟩, hexpand⟩

theorem origin_mem {i : I} (hg : g < n) (hi : R.origin g = some i) : i ∈ R.inputs n :=
  List.mem_flatMap.2 ⟨g, List.mem_range.2 hg,
    List.mem_append_left _ (Option.mem_toList.2 hi)⟩

theorem keyInput_mem {s : O} (hg : g < n) (hs : R.secret g = some s) :
    R.keyInput s ∈ R.inputs n :=
  List.mem_flatMap.2 ⟨g, List.mem_range.2 hg,
    List.mem_append_right _ (Option.mem_toList.2 (Option.map_eq_some_iff.2 ⟨s, hs, rfl⟩))⟩

theorem Fresh.eq (h : R.Fresh n) {i j : I} (hi : i ∈ R.inputs n) (hj : j ∈ R.inputs n) {o : O}
    (hexpand : R.expand i = some o) (hexpand' : R.expand j = some o) : i = j :=
  h i hi j hj (Option.isSome_of_eq_some hexpand) (hexpand.trans hexpand'.symm)

/-- Equal inputs of secrets are inputs of the same generation: down the chain they stay equal, and
its start is no update. -/
theorem origin_injective (hfresh : R.Fresh n) {i : I} (hg : g < n) (hg' : g' < n)
    (hi : R.origin g = some i) (hi' : R.origin g' = some i) : g = g' := by
  induction g generalizing g' i with
  | zero =>
      obtain rfl : R.first = i := Option.some.inj hi
      rcases g' with _ | _ | g'
      · rfl
      · exact absurd (Option.some.inj hi').symm R.first_ne_second
      · obtain ⟨s, -, heq⟩ := Option.map_eq_some_iff.1 hi'
        exact absurd heq (R.update_ne_first s)
  | succ g ih =>
      rcases g with _ | g
      · obtain rfl : R.second = i := Option.some.inj hi
        rcases g' with _ | _ | g'
        · exact absurd (Option.some.inj hi') R.first_ne_second
        · rfl
        · obtain ⟨s, -, heq⟩ := Option.map_eq_some_iff.1 hi'
          exact absurd heq (R.update_ne_second s)
      · obtain ⟨s, hs, rfl⟩ := Option.map_eq_some_iff.1 hi
        rcases g' with _ | _ | g'
        · exact absurd (Option.some.inj hi').symm (R.update_ne_first s)
        · exact absurd (Option.some.inj hi').symm (R.update_ne_second s)
        · obtain ⟨s', hs', heq⟩ := Option.map_eq_some_iff.1 hi'
          obtain rfl := R.update_injective heq
          obtain ⟨j, hj, hexpand⟩ := secret_origin hs
          obtain ⟨j', hj', hexpand'⟩ := secret_origin hs'
          have hlt : g + 1 < n := by omega
          have hlt' : g' + 1 < n := by omega
          obtain rfl := hfresh.eq (origin_mem hlt hj) (origin_mem hlt' hj') hexpand hexpand'
          have hsame := ih hlt hlt' hj hj'
          omega

theorem key_injective (hfresh : R.Fresh n) (hg : g < n) (hg' : g' < n) {k : O}
    (hk : R.key g = some k) (hk' : R.key g' = some k) : g = g' := by
  obtain ⟨s, hs, hexpand⟩ := Option.bind_eq_some_iff.1 hk
  obtain ⟨s', hs', hexpand'⟩ := Option.bind_eq_some_iff.1 hk'
  obtain rfl := R.keyInput_injective
    (hfresh.eq (keyInput_mem hg hs) (keyInput_mem hg' hs') hexpand hexpand')
  obtain ⟨i, hi, hsecret⟩ := secret_origin hs
  obtain ⟨i', hi', hsecret'⟩ := secret_origin hs'
  obtain rfl := hfresh.eq (origin_mem hg hi) (origin_mem hg' hi') hsecret hsecret'
  exact origin_injective hfresh hg hg' hi hi'

/-- The keys of different generations of a fresh ratchet are different. -/
theorem nodup_keys (hfresh : R.Fresh n) {ks : List O} {gens : List Nat}
    (hgens : gens.Pairwise (· < ·)) (hlt : ∀ g ∈ gens, g < n) (hks : ks.map some = gens.map R.key) :
    ks.Nodup := by
  refine (List.nodup_map_iff (Option.some_injective O)).1 ?_
  rw [hks]
  refine List.Nodup.map_on (fun g hg g' hg' heq => ?_) (hgens.imp fun hlt => hlt.ne)
  have hmem : R.key g ∈ ks.map some := hks ▸ List.mem_map_of_mem hg
  obtain ⟨k, -, hk⟩ := List.mem_map.1 hmem
  exact key_injective hfresh (hlt g hg) (hlt g' hg') hk.symm (heq ▸ hk.symm)

namespace Advances

variable {ks ks' : List O}

theorem skip (h : n ≤ n') : R.Advances n [] n' :=
  ⟨h, [], .nil, fun _ hg => absurd hg List.not_mem_nil, rfl⟩

theorem one {k : O} (hk : R.key n = some k) : R.Advances n [k] (n + 1) :=
  ⟨n.le_succ, [n], List.pairwise_singleton _ n, fun g hg => by
    obtain rfl := List.mem_singleton.1 hg
    exact ⟨le_rfl, g.lt_succ_self⟩, by rw [List.map_singleton, List.map_singleton, hk]⟩

theorem trans (h : R.Advances n ks n') (h' : R.Advances n' ks' n'') :
    R.Advances n (ks ++ ks') n'' := by
  obtain ⟨hle, gens, hgens, hbounds, hks⟩ := h
  obtain ⟨hle', gens', hgens', hbounds', hks'⟩ := h'
  refine ⟨hle.trans hle', gens ++ gens', ?_,
    ?_, by rw [List.map_append, List.map_append, hks, hks']⟩
  · exact List.pairwise_append.2 ⟨hgens, hgens', fun g hg g' hg' =>
      (hbounds g hg).2.trans_le (hbounds' g' hg').1⟩
  · intro g hg
    rcases List.mem_append.1 hg with hg | hg
    · exact ⟨(hbounds g hg).1, (hbounds g hg).2.trans_le hle'⟩
    · exact ⟨hle.trans (hbounds' g hg).1, (hbounds' g hg).2⟩

end Advances

end Ratchet

end Duplex
