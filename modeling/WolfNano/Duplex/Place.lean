/-
Places in a byte string: what stands at an index, and how neighbouring pieces join.
-/
import WolfNano.Duplex.Bytes

namespace Duplex

theorem ofBE_lt_u16 {field : Bytes} (h : field.length = 2) : ofBE field < 2 ^ 16 := by
  obtain ⟨a, b, rfl⟩ := List.length_eq_two.1 h
  have ha := a.toNat_lt
  have hb := b.toNat_lt
  simp only [ofBE, List.foldl_cons, List.foldl_nil]
  omega

/-- Two octets are a 16-bit number. -/
theorem u16_ofBE {field : Bytes} (h : field.length = 2) : Duplex.u16 (ofBE field) = field := by
  obtain ⟨a, b, rfl⟩ := List.length_eq_two.1 h
  have ha := a.toNat_lt
  have hb := b.toNat_lt
  have hvalue : ofBE [a, b] = a.toNat * 256 + b.toNat := by
    simp only [ofBE, List.foldl_cons, List.foldl_nil]
    omega
  rw [hvalue, Duplex.u16]
  simp only [List.cons.injEq, and_true, ← UInt8.toNat_inj, UInt8.toNat_ofNat']
  omega

/-- Adjacent slices. -/
theorem slice_add (b : Bytes) (i n k : Nat) :
    slice b i (n + k) = slice b i n ++ slice b (i + n) k := by
  unfold slice
  rw [← List.drop_drop, List.take_add]

@[simp] theorem slice_zero (b : Bytes) (i : Nat) : slice b i 0 = [] := rfl

theorem slice_one {b : Bytes} {i : Nat} (h : i < b.length) : slice b i 1 = [b.getD i 0] := by
  unfold slice
  rw [List.drop_eq_getElem_cons h, List.take_succ_cons, List.take_zero,
    List.getD_eq_getElem?_getD, List.getElem?_eq_getElem h, Option.getD_some]

/-- `b` stands in `msg` at `p`. -/
def At (msg : Bytes) (p : Nat) (b : Bytes) : Prop :=
  p + b.length ≤ msg.length ∧ slice msg p b.length = b

section At

variable {msg b c : Bytes} {p n : Nat}

theorem At.nil (h : p ≤ msg.length) : At msg p [] := ⟨h, rfl⟩

theorem At.append (hb : At msg p b) (hc : At msg (p + b.length) c) : At msg p (b ++ c) := by
  refine ⟨?_, ?_⟩
  · rw [List.length_append, ← Nat.add_assoc]
    exact hc.1
  · rw [List.length_append, slice_add, hb.2, hc.2]

/-- `At.append` with the place of the second part worked out. -/
theorem At.append_at {q : Nat} (hb : At msg p b) (hc : At msg q c) (hq : p + b.length = q) :
    At msg p (b ++ c) := by
  subst hq
  exact hb.append hc

theorem At.of_slice (h : p + n ≤ msg.length) : At msg p (slice msg p n) := by
  have hlen := slice_length h
  exact ⟨by rwa [hlen], by rw [hlen]⟩

theorem At.of_eq_append (pre post : Bytes) (h : msg = pre ++ b ++ post) (hp : p = pre.length) :
    At msg p b := by
  refine ⟨?_, slice_eq_of_eq_append pre post h hp rfl⟩
  rw [h, hp]
  simp

theorem At.left (h : At msg p (b ++ c)) : At msg p b := by
  obtain ⟨hlen, hslice⟩ := h
  rw [List.length_append] at hlen hslice
  rw [slice_add] at hslice
  have hbound : p + b.length ≤ msg.length := by omega
  exact ⟨hbound, (List.append_inj hslice (slice_length hbound)).1⟩

theorem At.right (h : At msg p (b ++ c)) : At msg (p + b.length) c := by
  obtain ⟨hlen, hslice⟩ := h
  rw [List.length_append] at hlen hslice
  rw [slice_add] at hslice
  have hbound : p + b.length ≤ msg.length := by omega
  exact ⟨by omega, (List.append_inj hslice (slice_length hbound)).2⟩

/-- What stands at the start and ends with the message is the message. -/
theorem At.eq_self (h : At msg 0 b) (hlen : b.length = msg.length) : b = msg := by
  rw [← h.2, hlen]
  exact List.take_of_length_le (Nat.le_refl _)

theorem At.u8 (h : p + 1 ≤ msg.length) : At msg p [UInt8.ofNat (msg.getD p 0).toNat] := by
  rw [UInt8.ofNat_toNat, ← slice_one h]
  exact At.of_slice h

theorem At.u16 (h : p + 2 ≤ msg.length) : At msg p (Duplex.u16 (ofBE (slice msg p 2))) := by
  rw [u16_ofBE (slice_length h)]
  exact At.of_slice h

theorem At.cons_iff {x : UInt8} : At msg p (x :: b) ↔ msg[p]? = some x ∧ At msg (p + 1) b := by
  constructor
  · intro h
    have hroom := h.1
    rw [List.length_cons] at hroom
    have hlt : p < msg.length := by omega
    have hhead := (At.left (b := [x]) h).2
    rw [List.length_singleton, slice_one hlt] at hhead
    refine ⟨?_, At.right (b := [x]) h⟩
    rw [← List.singleton_inj.1 hhead, List.getD_eq_getElem?_getD, List.getElem?_eq_getElem hlt,
      Option.getD_some]
  · rintro ⟨hget, hrest⟩
    obtain ⟨hlt, hval⟩ := List.getElem?_eq_some_iff.1 hget
    have hone : At msg p [x] := by
      refine ⟨hlt, ?_⟩
      rw [List.length_singleton, slice_one hlt, List.getD_eq_getElem?_getD, hget, Option.getD_some]
    exact hone.append hrest

/-- A place in a part of `msg` is a place in `msg`. -/
theorem At.slice_iff {off : Nat} (hin : off + n ≤ msg.length) :
    At (slice msg off n) p b ↔ p + b.length ≤ n ∧ At msg (off + p) b := by
  have hlen := slice_length hin
  have hpart : p + b.length ≤ n → slice (slice msg off n) p b.length =
      slice msg (off + p) b.length := by
    intro hle
    simp only [slice, List.drop_take, List.drop_drop, List.take_take]
    rw [Nat.min_eq_left (by omega)]
  constructor
  · rintro ⟨hroom, hslice⟩
    rw [hlen] at hroom
    rw [hpart hroom] at hslice
    exact ⟨hroom, by omega, hslice⟩
  · rintro ⟨hle, hroom, hslice⟩
    refine ⟨by rw [hlen]; exact hle, ?_⟩
    rw [hpart hle]
    exact hslice

theorem At.slice_eq {q : Nat} (h : At msg p b) (hq : p + b.length = q) :
    slice msg p (q - p) = b := by
  rw [← hq, Nat.add_sub_cancel_left]
  exact h.2

/-- Two things of one length at a place are the same. -/
theorem At.eq (hb : At msg p b) (hc : At msg p c) (hlen : b.length = c.length) : b = c := by
  rw [← hb.2, ← hc.2, hlen]

end At

end Duplex
