/-
What it takes for a reader or a writer to end without an error: where it was, what it read,
and where it is after that.
-/
import WolfNano.ClientHello
import WolfNano.Duplex.Place

namespace WolfNano

open Duplex

theorem failIf_eq_ok {c : Prop} [Decidable c] {e : Err} {u : Unit} :
    failIf c e = .ok u ↔ ¬ c := by
  unfold failIf
  by_cases hc : c
  · rw [if_pos hc]
    exact iff_of_false (fun h => nomatch h) fun h => h hc
  · rw [if_neg hc]
    exact iff_of_true rfl hc

namespace Reader

variable {r : Reader}

/-- A reader of `msg` that has got to `p`. -/
def upTo (msg : Bytes) (p : Nat) : Reader := ⟨msg, p, false⟩

@[simp] theorem upTo_pos (msg : Bytes) (p : Nat) : (upTo msg p).pos = p := rfl

@[simp] theorem upTo_err (msg : Bytes) (p : Nat) : (upTo msg p).err = false := rfl

@[simp] theorem upTo_buf (msg : Bytes) (p : Nat) : (upTo msg p).buf = msg := rfl

theorem uint_noErr {n : Nat} (h : (r.uint n).2.err = false) :
    r.err = false ∧ add32 r.pos n ≤ r.buf.length ∧
      r.uint n = (ofBE (slice r.buf r.pos n), { r with pos := add32 r.pos n }) := by
  unfold uint at h ⊢
  by_cases hroom : (!r.err && decide (add32 r.pos n ≤ r.buf.length)) = true
  · rw [if_pos hroom]
    simp only [Bool.and_eq_true, Bool.not_eq_true', decide_eq_true_eq] at hroom
    exact ⟨hroom.1, hroom.2, rfl⟩
  · rw [if_neg hroom] at h
    cases h

theorem u8_noErr (h : r.u8.2.err = false) :
    r.err = false ∧ r.pos < r.buf.length ∧
      r.u8 = ((r.buf.getD r.pos 0).toNat, { r with pos := r.pos + 1 }) := by
  unfold u8 at h ⊢
  by_cases hroom : (!r.err && decide (r.pos < r.buf.length)) = true
  · rw [if_pos hroom]
    simp only [Bool.and_eq_true, Bool.not_eq_true', decide_eq_true_eq] at hroom
    exact ⟨hroom.1, hroom.2, rfl⟩
  · rw [if_neg hroom] at h
    cases h

theorem bytes_noErr {n : Nat} (h : (r.bytes n).2.err = false) :
    r.err = false ∧ add32 r.pos n ≤ r.buf.length ∧
      r.bytes n = (some r.pos, { r with pos := add32 r.pos n }) := by
  unfold bytes at h ⊢
  by_cases hroom : (!r.err && decide (add32 r.pos n ≤ r.buf.length)) = true
  · rw [if_pos hroom]
    simp only [Bool.and_eq_true, Bool.not_eq_true', decide_eq_true_eq] at hroom
    exact ⟨hroom.1, hroom.2, rfl⟩
  · rw [if_neg hroom] at h
    cases h

theorem failWhen_noErr {c : Bool} (h : (r.failWhen c).err = false) :
    c = false ∧ r.failWhen c = r := by
  unfold failWhen at h ⊢
  cases c with
  | true => cases h
  | false => exact ⟨rfl, rfl⟩

theorem endsAt_noErr {e : Nat} (h : (r.endsAt e).err = false) : r.pos = e ∧ r.endsAt e = r := by
  unfold endsAt at h ⊢
  by_cases hpos : r.pos ≠ e
  · rw [if_pos hpos] at h
    cases h
  · rw [if_neg hpos]
    exact ⟨not_not.1 hpos, rfl⟩

/-! ### From a known place -/

section UpTo

variable {msg : Bytes} {p : Nat}

theorem u8_upTo : (upTo msg p).u8 =
    if p + 1 ≤ msg.length then ((msg.getD p 0).toNat, upTo msg (p + 1))
    else (0, (upTo msg p).fail) := by
  unfold u8
  by_cases hroom : p + 1 ≤ msg.length
  · rw [if_pos hroom, if_pos (by simp [Nat.lt_of_succ_le hroom])]
    rfl
  · rw [if_neg hroom, if_neg (by simp [show ¬ p < msg.length from hroom])]

theorem u8_got (h : (upTo msg p).u8.2.err = false) : p + 1 ≤ msg.length ∧
    (upTo msg p).u8 = ((msg.getD p 0).toNat, upTo msg (p + 1)) := by
  rw [u8_upTo] at h ⊢
  by_cases hroom : p + 1 ≤ msg.length
  · exact ⟨hroom, if_pos hroom⟩
  · rw [if_neg hroom] at h
    cases h

variable (hmsg : msg.length < 2 ^ 31) (hp : p ≤ msg.length)

include hmsg hp

/-- Two octets are read if they are there. -/
theorem u16_upTo : (upTo msg p).u16 =
    if p + 2 ≤ msg.length then (ofBE (slice msg p 2), upTo msg (p + 2))
    else (0, (upTo msg p).fail) := by
  unfold u16 uint
  rw [upTo_pos, add32_eq (by omega)]
  by_cases hroom : p + 2 ≤ msg.length
  · rw [if_pos hroom, if_pos (by simp [hroom])]
    rfl
  · rw [if_neg hroom, if_neg (by simp [hroom])]

theorem bytes_upTo {n : Nat} (hn : n < 2 ^ 24) : (upTo msg p).bytes n =
    if p + n ≤ msg.length then (some p, upTo msg (p + n)) else (none, (upTo msg p).fail) := by
  unfold bytes
  rw [upTo_pos, add32_eq (by omega)]
  by_cases hroom : p + n ≤ msg.length
  · rw [if_pos hroom, if_pos (by simp [hroom])]
    rfl
  · rw [if_neg hroom, if_neg (by simp [hroom])]

theorem u16_got (h : (upTo msg p).u16.2.err = false) : p + 2 ≤ msg.length ∧
    (upTo msg p).u16 = (ofBE (slice msg p 2), upTo msg (p + 2)) := by
  rw [u16_upTo hmsg hp] at h ⊢
  by_cases hroom : p + 2 ≤ msg.length
  · exact ⟨hroom, if_pos hroom⟩
  · rw [if_neg hroom] at h
    cases h

theorem bytes_got {n : Nat} (hn : n < 2 ^ 24) (h : ((upTo msg p).bytes n).2.err = false) :
    p + n ≤ msg.length ∧ (upTo msg p).bytes n = (some p, upTo msg (p + n)) := by
  rw [bytes_upTo hmsg hp hn] at h ⊢
  by_cases hroom : p + n ≤ msg.length
  · exact ⟨hroom, if_pos hroom⟩
  · rw [if_neg hroom] at h
    cases h

end UpTo

end Reader

namespace Writer

/-- A writer that has written `b` without an error. -/
def wrote (cap : Nat) (b : Bytes) : Writer := ⟨b, cap, b.length, false⟩

variable {cap : Nat} {b : Bytes}

theorem init_wrote : init cap = wrote cap [] := rfl

theorem put_wrote {v : Bytes} (h : b.length + v.length < 2 ^ 32) :
    (wrote cap b).put v = wrote cap (b ++ v) := by
  simp [put, wrote, add32_eq h]

theorem u8_wrote {v : Nat} (hcap : cap < 2 ^ 32) (h : b.length + 1 ≤ cap) :
    (wrote cap b).u8 v = wrote cap (b ++ [UInt8.ofNat v]) := by
  unfold u8
  rw [if_pos (by simp [wrote, Nat.lt_of_succ_le h])]
  exact put_wrote (Nat.lt_of_le_of_lt h hcap)

theorem u16_wrote {v : Nat} (hcap : cap < 2 ^ 32) (h : b.length + 2 ≤ cap) :
    (wrote cap b).u16 v = wrote cap (b ++ Duplex.u16 v) := by
  have hfits : b.length + 2 < 2 ^ 32 := Nat.lt_of_le_of_lt h hcap
  unfold u16
  rw [if_pos (by simp [wrote, add32_eq hfits, h])]
  exact put_wrote hfits

theorem lenStart_wrote {n : Nat} (hcap : cap < 2 ^ 32) (h : b.length + n ≤ cap) :
    (wrote cap b).lenStart n = (wrote cap (b ++ zeros n), b.length + n) := by
  induction n generalizing b with
  | zero => simp [lenStart, wrote, zeros]
  | succ n ih =>
      rw [lenStart, u8_wrote hcap (by omega), ih (by simp; omega)]
      simp only [List.append_assoc, List.length_append, List.length_singleton]
      refine Prod.ext ?_ (by omega)
      exact congrArg (fun t => wrote cap (b ++ t)) rfl

theorem lenEnd_wrote {pre post : Bytes} {n : Nat} (hsize : pre.length + n + post.length < 2 ^ 32) :
    (wrote cap (pre ++ zeros n ++ post)).lenEnd (pre.length + n) n =
      wrote cap (pre ++ be n post.length ++ post) := by
  unfold lenEnd
  rw [if_neg (show ¬ (wrote cap (pre ++ zeros n ++ post)).err = true from Bool.false_ne_true)]
  have htotal : (pre ++ zeros n ++ post).length = pre.length + n + post.length := by
    rw [List.length_append, List.length_append, zeros_length]
  have hlen : sub32 (pre ++ zeros n ++ post).length (pre.length + n) = post.length := by
    rw [htotal, sub32_eq hsize (Nat.le_add_right _ _), Nat.add_sub_cancel_left]
  have hpos : sub32 (pre.length + n) n = pre.length := by
    rw [sub32_eq (by omega) (Nat.le_add_left _ _), Nat.add_sub_cancel]
  simp only [wrote, hlen, hpos]
  rw [splice_middle pre (zeros n) post _ (by simp)]
  simp

end Writer

end WolfNano
