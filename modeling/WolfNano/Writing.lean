/-
What a sequence of writer calls puts into its buffer: all of its bytes when they fit, and
an error when they do not.
-/
import WolfNano.Reading

namespace WolfNano

open Duplex

namespace Writer

/-! ### After an error -/

theorem u8_stuck {w : Writer} (h : w.err = true) (v : Nat) : w.u8 v = w := by
  cases w
  cases h
  rfl

theorem u16_stuck {w : Writer} (h : w.err = true) (v : Nat) : w.u16 v = w := by
  cases w
  cases h
  rfl

theorem u24_stuck {w : Writer} (h : w.err = true) (v : Nat) : w.u24 v = w := by
  cases w
  cases h
  rfl

theorem bytes_stuck {w : Writer} (h : w.err = true) (p : Option Bytes) (n : Nat) :
    w.bytes p n = w := by
  cases w
  cases h
  rfl

theorem lenStart_stuck {w : Writer} (h : w.err = true) (n : Nat) : (w.lenStart n).1 = w := by
  induction n with
  | zero => rfl
  | succ n ih =>
      rw [lenStart, u8_stuck h]
      exact ih

theorem lenEnd_stuck {w : Writer} (h : w.err = true) (off n : Nat) : w.lenEnd off n = w :=
  if_pos h

theorem u8_err {w : Writer} {v : Nat} (h : w.err = true) : (w.u8 v).err = true := by
  rw [u8_stuck h]
  exact h

theorem u16_err {w : Writer} {v : Nat} (h : w.err = true) : (w.u16 v).err = true := by
  rw [u16_stuck h]
  exact h

theorem u24_err {w : Writer} {v : Nat} (h : w.err = true) : (w.u24 v).err = true := by
  rw [u24_stuck h]
  exact h

theorem bytes_err {w : Writer} {p : Option Bytes} {n : Nat} (h : w.err = true) :
    (w.bytes p n).err = true := by
  rw [bytes_stuck h]
  exact h

theorem lenStart_err {w : Writer} {n : Nat} (h : w.err = true) : (w.lenStart n).1.err = true := by
  rw [lenStart_stuck h]
  exact h

theorem lenEnd_err {w : Writer} {off n : Nat} (h : w.err = true) : (w.lenEnd off n).err = true := by
  rw [lenEnd_stuck h]
  exact h

/-! ### What is written -/

/-- `f` appends `b`, or fails when there is no room for it. -/
structure Appends (f : Writer → Writer) (b : Bytes) : Prop where
  err : ∀ w, w.err = true → (f w).err = true
  fits : ∀ cap pre, pre.length + b.length < 2 ^ 32 → pre.length + b.length ≤ cap →
    f (wrote cap pre) = wrote cap (pre ++ b)
  full : ∀ cap pre, pre.length + b.length < 2 ^ 32 → pre.length ≤ cap →
    cap < pre.length + b.length → (f (wrote cap pre)).err = true

namespace Appends

variable {f g : Writer → Writer} {a b : Bytes}

theorem comp (hf : Appends f a) (hg : Appends g b) : Appends (fun w => g (f w)) (a ++ b) where
  err w hw := hg.err _ (hf.err w hw)
  fits cap pre hsize hroom := by
    rw [List.length_append] at hsize hroom
    have hlen : (pre ++ a).length = pre.length + a.length := List.length_append
    rw [hf.fits cap pre (by omega) (by omega), hg.fits cap _ (by omega) (by omega),
      List.append_assoc]
  full cap pre hsize hpre hroom := by
    rw [List.length_append] at hsize hroom
    have hlen : (pre ++ a).length = pre.length + a.length := List.length_append
    by_cases hmid : pre.length + a.length ≤ cap
    · rw [hf.fits cap pre (by omega) hmid]
      exact hg.full cap _ (by omega) (by omega) (by omega)
    · exact hg.err _ (hf.full cap pre (by omega) hpre (by omega))

theorem nil : Appends id [] where
  err _ hw := hw
  fits cap pre _ _ := by
    rw [List.append_nil]
    rfl
  full cap pre _ hpre hroom := by
    rw [List.length_nil] at hroom
    omega

theorem u8 (v : Nat) : Appends (fun w => w.u8 v) [UInt8.ofNat v] where
  err _ hw := u8_err hw
  fits cap pre hsize hroom := by
    rw [List.length_singleton] at hsize hroom
    unfold Writer.u8
    rw [if_pos (by simp [wrote, Nat.lt_of_succ_le hroom])]
    exact put_wrote hsize
  full cap pre _ _ hroom := by
    have hfull : ¬ pre.length < cap := Nat.not_lt.2 (Nat.le_of_lt_succ hroom)
    unfold Writer.u8
    rw [if_neg (by simp [wrote, hfull])]
    rfl

theorem u16 (v : Nat) : Appends (fun w => w.u16 v) (Duplex.u16 v) where
  err _ hw := u16_err hw
  fits cap pre hsize hroom := by
    rw [u16_length] at hsize hroom
    unfold Writer.u16
    rw [if_pos (by simp [wrote, add32_eq hsize, hroom])]
    exact put_wrote hsize
  full cap pre hsize _ hroom := by
    rw [u16_length] at hsize hroom
    unfold Writer.u16
    rw [if_neg (by simp [wrote, add32_eq hsize]; omega)]
    rfl

theorem u24 (v : Nat) : Appends (fun w => w.u24 v) (Duplex.u24 v) where
  err _ hw := u24_err hw
  fits cap pre hsize hroom := by
    rw [u24_length] at hsize hroom
    unfold Writer.u24
    rw [if_pos (by simp [wrote, add32_eq hsize, hroom])]
    exact put_wrote hsize
  full cap pre hsize _ hroom := by
    rw [u24_length] at hsize hroom
    unfold Writer.u24
    rw [if_neg (by simp [wrote, add32_eq hsize]; omega)]
    rfl

theorem u16s (vs : List Nat) : Appends (fun w => w.u16s vs) (vs.flatMap Duplex.u16) := by
  induction vs with
  | nil => exact nil
  | cons v vs ih => exact (u16 v).comp ih

theorem bytes (p : Bytes) : Appends (fun w => w.bytes (some p) p.length) p where
  err _ hw := bytes_err hw
  fits cap pre hsize hroom := by
    unfold Writer.bytes
    rw [if_pos (by simp [wrote, add32_eq hsize, hroom]), Option.getD_some, List.take_length]
    exact put_wrote hsize
  full cap pre hsize _ hroom := by
    unfold Writer.bytes
    rw [if_neg (by simp [wrote, add32_eq hsize]; omega)]
    rfl

/-- No bytes, from a NULL pointer. -/
theorem null : Appends (fun w => w.bytes none 0) [] where
  err _ hw := bytes_err hw
  fits cap pre hsize hroom := by
    have hsame : add32 pre.length 0 = pre.length := add32_eq hsize
    unfold Writer.bytes
    rw [if_pos (by simpa [wrote, hsame] using hroom)]
    exact put_wrote hsize
  full cap pre _ hpre hroom := absurd hpre (Nat.not_le.2 hroom)

theorem lenStart (n : Nat) : Appends (fun w => (w.lenStart n).1) (zeros n) := by
  induction n with
  | zero => exact nil
  | succ n ih => exact (u8 0).comp ih

/-- Octets that are zero, one by one. -/
theorem blanks {α : Type} (l : List α) :
    Appends (fun w => l.foldl (fun w _ => w.u8 0) w) (zeros l.length) := by
  induction l with
  | nil => exact nil
  | cons _ l ih => exact (u8 0).comp ih

theorem lenStart_offset {cap n : Nat} {pre : Bytes} (hsize : pre.length + n < 2 ^ 32)
    (hroom : pre.length + n ≤ cap) : ((wrote cap pre).lenStart n).2 = pre.length + n := by
  induction n generalizing pre with
  | zero => rfl
  | succ n ih =>
      have hone := (u8 0).fits cap pre (by simp; omega) (by simp; omega)
      rw [Writer.lenStart, hone, ih (by simp; omega) (by simp; omega)]
      simp
      omega

/-- A length field that is filled in when its contents are there. -/
theorem block (n : Nat) (hf : Appends f b) :
    Appends (fun w => (f (w.lenStart n).1).lenEnd (w.lenStart n).2 n) (be n b.length ++ b) where
  err w hw := lenEnd_err (hf.err _ (lenStart_err hw))
  fits cap pre hsize hroom := by
    rw [List.length_append, be_length] at hsize hroom
    have hzeros : (zeros n).length = n := List.length_replicate
    have hstart := (lenStart n).fits cap pre (by omega) (by omega)
    rw [lenStart_offset (by omega) (by omega), hstart,
      hf.fits cap _ (by rw [List.length_append]; omega) (by rw [List.length_append]; omega),
      lenEnd_wrote (by omega), List.append_assoc]
  full cap pre hsize hpre hroom := by
    rw [List.length_append, be_length] at hsize hroom
    have hzeros : (zeros n).length = n := List.length_replicate
    refine lenEnd_err ?_
    by_cases hmid : pre.length + n ≤ cap
    · have hstart := (lenStart n).fits cap pre (by omega) (by omega)
      rw [hstart]
      refine hf.full cap _ ?_ ?_ ?_
      all_goals
        rw [List.length_append]
        omega
    · exact hf.err _ ((lenStart n).full cap pre (by omega) hpre (by omega))

end Appends

end Writer

end WolfNano
