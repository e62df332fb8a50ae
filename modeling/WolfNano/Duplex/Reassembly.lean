/-
Messages put together from chunks.  A reassembly looks at the bytes at hand and
either waits for more, fails, or takes a message; what it says of bytes that are
enough does not change when more follow.  Then the outcome depends on the bytes
and not on the chunks they came in.
-/
import WolfNano.Duplex.Bytes

namespace Duplex

/-- What is made of the bytes at hand. -/
inductive Pull (σ ε : Type) where
  | wait
  | fail (e : ε)
  | msg (size : Nat) (s : σ) (last : Bool)

structure Reassembly (σ ε : Type) where
  pull : σ → Bytes → Pull σ ε
  empty : ∀ s, pull s [] = .wait
  stable : ∀ s p q, pull s p ≠ .wait → pull s (p ++ q) = pull s p
  size_pos : ∀ {s p n s' last}, pull s p = .msg n s' last → 0 < n
  size_le : ∀ {s p n s' last}, pull s p = .msg n s' last → n ≤ p.length

namespace Reassembly

variable {σ ε : Type} (R : Reassembly σ ε)

/-- Take messages up to the last one, with fuel; the bytes that are left, and whether
the last message was taken. -/
def drain : Nat → σ → Bytes → Except ε (σ × Bytes × Bool)
  | 0, s, p => .ok (s, p, false)
  | fuel + 1, s, p =>
      match R.pull s p with
      | .wait => .ok (s, p, false)
      | .fail e => .error e
      | .msg n s' true => .ok (s', p.drop n, true)
      | .msg n s' false => drain fuel s' (p.drop n)

/-- Every message takes a byte, so that the length is enough fuel. -/
def outcome (s : σ) (p : Bytes) : Except ε (σ × Bytes × Bool) := R.drain p.length s p

/-- Chunk after chunk, up to the last message. -/
def feed : σ → Bytes → List Bytes → Except ε (σ × Bytes × Bool)
  | s, p, [] => .ok (s, p, false)
  | s, p, c :: cs =>
      match R.outcome s (p ++ c) with
      | .error e => .error e
      | .ok (s', p', true) => .ok (s', p', true)
      | .ok (s', p', false) => feed s' p' cs

/-- What remains of an outcome when the bytes that are left do not count. -/
def verdict (x : Except ε (σ × Bytes × Bool)) : Except ε (σ × Bool) :=
  x.map fun y => (y.1, y.2.2)

variable {R} {s s' : σ} {p q rest : Bytes}

/-- Fuel beyond the length does not matter. -/
theorem drain_fuel {fuel fuel' : Nat} (hfuel : p.length ≤ fuel) (hfuel' : p.length ≤ fuel') :
    R.drain fuel s p = R.drain fuel' s p := by
  induction fuel generalizing fuel' s p with
  | zero =>
      obtain rfl : p = [] := List.length_eq_zero_iff.1 (Nat.le_zero.1 hfuel)
      cases fuel' with
      | zero => rfl
      | succ fuel' => rw [drain, drain, R.empty]
  | succ fuel ih =>
      cases fuel' with
      | zero =>
          obtain rfl : p = [] := List.length_eq_zero_iff.1 (Nat.le_zero.1 hfuel')
          rw [drain, drain, R.empty]
      | succ fuel' =>
          rw [drain, drain]
          cases hpull : R.pull s p with
          | wait => rfl
          | fail e => rfl
          | msg n s' last =>
              have hpos := R.size_pos hpull
              have hle := R.size_le hpull
              cases last with
              | true => rfl
              | false =>
                  exact ih (by rw [List.length_drop]; omega) (by rw [List.length_drop]; omega)

theorem drain_enough {fuel : Nat} (hfuel : p.length ≤ fuel) :
    R.drain fuel s p = R.outcome s p := drain_fuel hfuel (Nat.le_refl _)

/-- The outcome by what is at the front. -/
theorem outcome_eq : R.outcome s p =
    match R.pull s p with
    | .wait => .ok (s, p, false)
    | .fail e => .error e
    | .msg n s' true => .ok (s', p.drop n, true)
    | .msg n s' false => R.outcome s' (p.drop n) := by
  have hstep : R.outcome s p = R.drain (p.length + 1) s p :=
    drain_fuel (Nat.le_refl _) (Nat.le_succ _)
  rw [hstep, drain]
  cases hpull : R.pull s p with
  | wait => rfl
  | fail e => rfl
  | msg n s' last =>
      cases last with
      | true => rfl
      | false =>
          exact drain_fuel (by rw [List.length_drop]; omega) (Nat.le_refl _)

/-- More bytes continue where the first ones left off. -/
theorem outcome_append :
    R.outcome s (p ++ q) =
      match R.outcome s p with
      | .error e => .error e
      | .ok (s', p', true) => .ok (s', p' ++ q, true)
      | .ok (s', p', false) => R.outcome s' (p' ++ q) := by
  induction hlen : p.length using Nat.strong_induction_on generalizing s p with
  | _ n ih =>
      rw [outcome_eq (p := p)]
      cases hpull : R.pull s p with
      | wait => rfl
      | fail e =>
          rw [outcome_eq, R.stable s p q (by rw [hpull]; simp), hpull]
      | msg n' s' last =>
          have hle := R.size_le hpull
          have hpos := R.size_pos hpull
          have hdrop : (p ++ q).drop n' = p.drop n' ++ q := List.drop_append_of_le_length hle
          rw [outcome_eq, R.stable s p q (by rw [hpull]; simp), hpull]
          cases last with
          | true =>
              dsimp only
              rw [hdrop]
          | false =>
              dsimp only
              rw [hdrop]
              exact ih _ (by rw [List.length_drop]; omega) rfl

/-- Bytes that were left over wait. -/
theorem outcome_rest (h : R.outcome s p = .ok (s', rest, false)) : R.pull s' rest = .wait := by
  induction hlen : p.length using Nat.strong_induction_on generalizing s p with
  | _ n ih =>
      rw [outcome_eq] at h
      cases hpull : R.pull s p with
      | wait =>
          rw [hpull] at h
          cases h
          exact hpull
      | fail e =>
          rw [hpull] at h
          cases h
      | msg n' s₁ last =>
          have hle := R.size_le hpull
          have hpos := R.size_pos hpull
          rw [hpull] at h
          cases last with
          | true => cases h
          | false => exact ih _ (by rw [List.length_drop]; omega) h rfl

/-- Where the state counts the bytes of its messages, it tells what is left. -/
theorem outcome_off {off : σ → Nat}
    (hoff : ∀ {s p n s' last}, R.pull s p = .msg n s' last → off s' = off s + n)
    {last : Bool} (h : R.outcome s p = .ok (s', rest, last)) :
    ∃ n, n ≤ p.length ∧ rest = p.drop n ∧ off s' = off s + n := by
  induction hlen : p.length using Nat.strong_induction_on generalizing s p with
  | _ n ih =>
      rw [outcome_eq] at h
      cases hpull : R.pull s p with
      | wait =>
          rw [hpull] at h
          cases h
          exact ⟨0, Nat.zero_le _, rfl, rfl⟩
      | fail e =>
          rw [hpull] at h
          cases h
      | msg n' s₁ fin =>
          have hle := R.size_le hpull
          have hpos := R.size_pos hpull
          have hone := hoff hpull
          rw [hpull] at h
          cases fin with
          | true =>
              cases h
              exact ⟨n', hlen ▸ hle, rfl, hone⟩
          | false =>
              obtain ⟨k, hk, hrest, hk'⟩ := ih _ (by rw [List.length_drop]; omega) h rfl
              rw [List.length_drop] at hk
              rw [List.drop_drop] at hrest
              exact ⟨n' + k, by omega, hrest, by omega⟩

theorem outcome_of_wait (h : R.pull s p = .wait) : R.outcome s p = .ok (s, p, false) := by
  rw [outcome_eq, h]

/-- A last message found in chunks is the last message of the bytes. -/
theorem feed_outcome {cs : List Bytes} (hp : R.pull s p = .wait) :
    verdict (R.feed s p cs) = verdict (R.outcome s (p ++ cs.flatten)) := by
  induction cs generalizing s p with
  | nil => rw [feed, List.flatten_nil, List.append_nil, outcome_of_wait hp]
  | cons c cs ih =>
      rw [feed, List.flatten_cons, ← List.append_assoc, outcome_append (p := p ++ c)]
      cases hc : R.outcome s (p ++ c) with
      | error e => rfl
      | ok y =>
          obtain ⟨s', p', last⟩ := y
          cases last with
          | true => rfl
          | false => exact ih (outcome_rest hc)

/-- The outcome does not depend on the chunks. -/
theorem feed_chunks {cs cs' : List Bytes} (h : cs.flatten = cs'.flatten) :
    verdict (R.feed s [] cs) = verdict (R.feed s [] cs') := by
  rw [feed_outcome (R.empty s), feed_outcome (R.empty s), h]

/-! ### The messages that were read -/

variable (R) in
/-- The messages at the front of the bytes, one after the other. -/
inductive Reads : σ → Bytes → σ → Bytes → Bool → Prop
  | wait {s : σ} {p : Bytes} (h : R.pull s p = .wait) : Reads s p s p false
  | last {s s' : σ} {p : Bytes} {n : Nat} (h : R.pull s p = .msg n s' true) :
      Reads s p s' (p.drop n) true
  | next {s s₁ s' : σ} {p rest : Bytes} {n : Nat} {last : Bool}
      (h : R.pull s p = .msg n s₁ false) (hrest : Reads s₁ (p.drop n) s' rest last) :
      Reads s p s' rest last

theorem outcome_reads {last : Bool} (h : R.outcome s p = .ok (s', rest, last)) :
    R.Reads s p s' rest last := by
  induction hlen : p.length using Nat.strong_induction_on generalizing s p with
  | _ n ih =>
      rw [outcome_eq] at h
      cases hpull : R.pull s p with
      | wait =>
          rw [hpull] at h
          cases h
          exact .wait hpull
      | fail e =>
          rw [hpull] at h
          cases h
      | msg n' s₁ fin =>
          have hle := R.size_le hpull
          have hpos := R.size_pos hpull
          rw [hpull] at h
          cases fin with
          | true =>
              cases h
              exact .last hpull
          | false => exact .next hpull (ih _ (by rw [List.length_drop]; omega) h rfl)

/-- The messages read up to the last one are those the first state expects, when every
message is the next one of those and leaves the rest to be expected. -/
theorem Reads.labels {τ : Type} (label : Bytes → τ) (expected : σ → List τ) (Inv : σ → Prop)
    (IsMsg : Bytes → Prop)
    (hstep : ∀ {s p n s' last}, Inv s → R.pull s p = .msg n s' last →
      IsMsg (p.take n) ∧ Inv s' ∧
        expected s = label (p.take n) :: if last then [] else expected s')
    (h : R.Reads s p s' rest true) (hs : Inv s) :
    ∃ msgs : List Bytes, p = msgs.flatten ++ rest ∧ (∀ m ∈ msgs, IsMsg m) ∧
      msgs.map label = expected s := by
  generalize hlast : true = last at h
  induction h with
  | wait hpull => cases hlast
  | @last s s' p n hpull =>
      obtain ⟨hmsg, -, hexpected⟩ := hstep hs hpull
      refine ⟨[p.take n], by simp, ?_, ?_⟩
      · intro m hm
        rwa [List.mem_singleton.1 hm]
      · rw [hexpected]
        rfl
  | @next s s₁ s' p rest n last hpull hrest ih =>
      obtain ⟨hmsg, hs₁, hexpected⟩ := hstep hs hpull
      obtain ⟨msgs, hp, hmsgs, hlabels⟩ := ih hs₁ hlast
      refine ⟨p.take n :: msgs, ?_, ?_, ?_⟩
      · rw [List.flatten_cons, List.append_assoc, ← hp, List.take_append_drop]
      · intro m hm
        rcases List.mem_cons.1 hm with rfl | hm
        · exact hmsg
        · exact hmsgs m hm
      · rw [hexpected, List.map_cons, hlabels]
        rfl

/-! ### Messages with a length in front -/

section Framed

variable {hdr : Nat} {body : Bytes → Nat} {tooLong : σ → Nat → Option ε}
  {step : σ → Bytes → Except ε (σ × Bool)}

variable (hdr body tooLong step) in
/-- The front message, by a header of fixed size that tells the length of the body. -/
def framedPull (s : σ) (p : Bytes) : Pull σ ε :=
  if p.length < hdr then
    .wait
  else
    let size := hdr + body (p.take hdr)
    match tooLong s size with
    | some e => .fail e
    | none =>
        if size > p.length then
          .wait
        else
          match step s (p.take size) with
          | .error e => .fail e
          | .ok (s', last) => .msg size s' last

theorem framedPull_msg {n : Nat} {last : Bool} :
    framedPull hdr body tooLong step s p = .msg n s' last ↔
      hdr ≤ p.length ∧ n = hdr + body (p.take hdr) ∧ tooLong s n = none ∧ n ≤ p.length ∧
        step s (p.take n) = .ok (s', last) := by
  unfold framedPull
  by_cases hshort : p.length < hdr
  · rw [if_pos hshort]
    exact iff_of_false (fun h => nomatch h) (fun h => Nat.not_lt.2 h.1 hshort)
  · rw [if_neg hshort]
    dsimp only
    have hhdr := Nat.le_of_not_lt hshort
    generalize hsize : hdr + body (p.take hdr) = size
    cases hlong : tooLong s size with
    | some e =>
        refine iff_of_false (fun h => nomatch h) ?_
        rintro ⟨-, rfl, hnone, -⟩
        cases hlong.symm.trans hnone
    | none =>
        dsimp only
        by_cases hmore : size > p.length
        · rw [if_pos hmore]
          refine iff_of_false (fun h => nomatch h) ?_
          rintro ⟨-, rfl, -, hle, -⟩
          omega
        · rw [if_neg hmore]
          cases hstep : step s (p.take size) with
          | error e =>
              refine iff_of_false (fun h => nomatch h) ?_
              rintro ⟨-, rfl, -, -, hok⟩
              cases hstep.symm.trans hok
          | ok y =>
              obtain ⟨s₁, fin⟩ := y
              constructor
              · intro h
                cases h
                exact ⟨hhdr, rfl, hlong, Nat.le_of_not_lt hmore, hstep⟩
              · rintro ⟨-, rfl, -, -, hok⟩
                cases hstep.symm.trans hok
                rfl

/-- Messages with a length in front are reassembled. -/
def framed (hdr : Nat) (hpos : 0 < hdr) (body : Bytes → Nat) (tooLong : σ → Nat → Option ε)
    (step : σ → Bytes → Except ε (σ × Bool)) : Reassembly σ ε where
  pull := framedPull hdr body tooLong step
  empty s := by
    unfold framedPull
    exact if_pos hpos
  stable s p q h := by
    unfold framedPull at h ⊢
    by_cases hshort : p.length < hdr
    · exact absurd (if_pos hshort) h
    · have hhdr := Nat.le_of_not_lt hshort
      have happend : ¬ (p ++ q).length < hdr := by
        rw [List.length_append]
        omega
      have htake : (p ++ q).take hdr = p.take hdr := List.take_append_of_le_length hhdr
      rw [if_neg hshort] at h ⊢
      rw [if_neg happend, htake]
      dsimp only at h ⊢
      cases hlong : tooLong s (hdr + body (p.take hdr)) with
      | some e => rfl
      | none =>
          rw [hlong] at h
          dsimp only at h ⊢
          by_cases hmore : hdr + body (p.take hdr) > p.length
          · exact absurd (if_pos hmore) h
          · have hle := Nat.le_of_not_lt hmore
            rw [if_neg hmore, if_neg (by rw [List.length_append]; omega),
              List.take_append_of_le_length hle]
  size_pos h := by
    have hsize := (framedPull_msg.1 h).2.1
    omega
  size_le h := (framedPull_msg.1 h).2.2.2.1

theorem framed_msg {hpos : 0 < hdr} {n : Nat} {last : Bool} :
    (framed hdr hpos body tooLong step).pull s p = .msg n s' last ↔
      hdr ≤ p.length ∧ n = hdr + body (p.take hdr) ∧ tooLong s n = none ∧ n ≤ p.length ∧
        step s (p.take n) = .ok (s', last) := framedPull_msg

end Framed

end Reassembly

end Duplex
