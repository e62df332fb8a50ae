/-
Wire encoding, `wn_msg.c`.  Positions and capacities are 32-bit, so a sum of a
position and a length wraps before it is compared.  The error of a reader or a
writer sticks: later operations do nothing.
-/
import WolfNano.Seam

namespace WolfNano

open Duplex

/-- A `word32` sum. -/
def add32 (a b : Nat) : Nat := (a + b) % 2 ^ 32

theorem add32_eq {a b : Nat} (h : a + b < 2 ^ 32) : add32 a b = a + b :=
  Nat.mod_eq_of_lt h

/-- A `word32` difference. -/
def sub32 (a b : Nat) : Nat := (2 ^ 32 + a - b) % 2 ^ 32

theorem sub32_eq {a b : Nat} (ha : a < 2 ^ 32) (hba : b ≤ a) : sub32 a b = a - b := by
  rw [sub32, Nat.add_sub_assoc hba, Nat.add_mod_left, Nat.mod_eq_of_lt (by omega)]

/-- `wn_Reader`; its length is that of the buffer. -/
structure Reader where
  buf : Bytes
  pos : Nat
  err : Bool
  deriving DecidableEq

namespace Reader

/-- `wn_Reader_Init`. -/
def init (buf : Bytes) : Reader := ⟨buf, 0, false⟩

def fail (r : Reader) : Reader := { r with err := true }

/-- The common part of `wn_Read_U8`, `wn_Read_U16` and `wn_Read_U24`. -/
def uint (r : Reader) (n : Nat) : Nat × Reader :=
  if !r.err && add32 r.pos n ≤ r.buf.length then
    (ofBE (slice r.buf r.pos n), { r with pos := add32 r.pos n })
  else
    (0, r.fail)

/-- `wn_Read_U8`. -/
def u8 (r : Reader) : Nat × Reader :=
  if !r.err && r.pos < r.buf.length then
    ((r.buf.getD r.pos 0).toNat, { r with pos := r.pos + 1 })
  else
    (0, r.fail)

/-- `wn_Read_U16`. -/
def u16 (r : Reader) : Nat × Reader := r.uint 2

/-- `wn_Read_U24`. -/
def u24 (r : Reader) : Nat × Reader := r.uint 3

/-- `wn_Read_Bytes`: the returned pointer as an offset into the buffer. -/
def bytes (r : Reader) (n : Nat) : Option Nat × Reader :=
  if !r.err && add32 r.pos n ≤ r.buf.length then
    (some r.pos, { r with pos := add32 r.pos n })
  else
    (none, r.fail)

/-! ### Reading at a known position -/

/-- A reader of `pre ++ rest` that has got past `pre`. -/
def here (pre rest : Bytes) : Reader := ⟨pre ++ rest, pre.length, false⟩

@[simp] theorem here_err (pre rest : Bytes) : (here pre rest).err = false := rfl

theorem init_eq_here (buf : Bytes) : init buf = here [] buf := rfl

theorem here_u8 (pre rest : Bytes) (b : UInt8) :
    (here pre (b :: rest)).u8 = (b.toNat, here (pre ++ [b]) rest) := by
  simp [here, u8]

section Field

variable {pre field rest : Bytes} (hlen : (pre ++ field).length < 2 ^ 32)

include hlen

theorem here_uint :
    (here pre (field ++ rest)).uint field.length
      = (ofBE field, here (pre ++ field) rest) := by
  rw [List.length_append] at hlen
  have hslice : slice (pre ++ (field ++ rest)) pre.length field.length = field :=
    slice_eq_of_eq_append pre rest (List.append_assoc ..).symm rfl rfl
  simp [here, uint, hslice, add32_eq hlen]

theorem here_bytes :
    (here pre (field ++ rest)).bytes field.length
      = (some pre.length, here (pre ++ field) rest) := by
  rw [List.length_append] at hlen
  simp [here, bytes, add32_eq hlen]

end Field

theorem here_u16 {pre rest : Bytes} {v : Nat} (hv : v < 2 ^ 16)
    (hlen : pre.length + 2 < 2 ^ 32) :
    (here pre (Duplex.u16 v ++ rest)).u16 = (v, here (pre ++ Duplex.u16 v) rest) := by
  have hfield : (pre ++ Duplex.u16 v).length < 2 ^ 32 := by
    rw [List.length_append, u16_length]
    exact hlen
  have huint := @here_uint pre (Duplex.u16 v) rest hfield
  rw [ofBE_u16 hv] at huint
  exact huint

theorem here_u24 {pre rest : Bytes} {v : Nat} (hv : v < 2 ^ 24)
    (hlen : pre.length + 3 < 2 ^ 32) :
    (here pre (Duplex.u24 v ++ rest)).u24 = (v, here (pre ++ Duplex.u24 v) rest) := by
  have hfield : (pre ++ Duplex.u24 v).length < 2 ^ 32 := by
    rw [List.length_append, u24_length]
    exact hlen
  have huint := @here_uint pre (Duplex.u24 v) rest hfield
  rw [ofBE_u24 hv] at huint
  exact huint

/-! ### What a read can do -/

/-- The error of a reader sticks. -/
theorem bytes_err {r : Reader} {n : Nat} (h : r.err = true) : (r.bytes n).2.err = true := by
  simp [bytes, h, fail]

theorem u8_err {r : Reader} (h : r.err = true) : (r.u8).2.err = true := by
  simp [u8, h, fail]

section Backwards

variable {pre rest : Bytes}

/-- A read of `n` bytes either moves past them or fails. -/
theorem uint_here (n : Nat) (hn : (pre ++ rest).length + n < 2 ^ 32) :
    (∃ field more, rest = field ++ more ∧ field.length = n ∧
        (here pre rest).uint n = (ofBE field, here (pre ++ field) more)) ∨
      rest.length < n ∧ ((here pre rest).uint n).2.err = true := by
  rw [List.length_append] at hn
  by_cases hle : n ≤ rest.length
  · have hlen : (rest.take n).length = n := List.length_take_of_le hle
    have hread := @here_uint pre (rest.take n) (rest.drop n)
      (by rw [List.length_append, hlen]; omega)
    rw [hlen, List.take_append_drop] at hread
    exact .inl ⟨rest.take n, rest.drop n, (List.take_append_drop n rest).symm, hlen, hread⟩
  · refine .inr ⟨by omega, ?_⟩
    have hover : ¬ add32 pre.length n ≤ (pre ++ rest).length := by
      rw [add32_eq (by omega), List.length_append]
      omega
    have hread : (here pre rest).uint n = (0, (here pre rest).fail) := by
      unfold uint
      rw [if_neg (by simpa [here] using hover)]
    rw [hread]
    rfl

theorem bytes_here (n : Nat) (hn : (pre ++ rest).length + n < 2 ^ 32) :
    (∃ field more, rest = field ++ more ∧ field.length = n ∧
        (here pre rest).bytes n = (some pre.length, here (pre ++ field) more)) ∨
      rest.length < n ∧ ((here pre rest).bytes n).2.err = true := by
  rw [List.length_append] at hn
  by_cases hle : n ≤ rest.length
  · have hlen : (rest.take n).length = n := List.length_take_of_le hle
    have hread := @here_bytes pre (rest.take n) (rest.drop n)
      (by rw [List.length_append, hlen]; omega)
    rw [hlen, List.take_append_drop] at hread
    exact .inl ⟨rest.take n, rest.drop n, (List.take_append_drop n rest).symm, hlen, hread⟩
  · refine .inr ⟨by omega, ?_⟩
    have hover : ¬ add32 pre.length n ≤ (pre ++ rest).length := by
      rw [add32_eq (by omega), List.length_append]
      omega
    have hread : (here pre rest).bytes n = (none, (here pre rest).fail) := by
      unfold bytes
      rw [if_neg (by simpa [here] using hover)]
    rw [hread]
    rfl

/-- A 24-bit number either is there or the read fails. -/
theorem u24_here (hn : (pre ++ rest).length + 3 < 2 ^ 32) :
    (∃ v more, v < 2 ^ 24 ∧ rest = Duplex.u24 v ++ more ∧
        (here pre rest).u24 = (v, here (pre ++ Duplex.u24 v) more)) ∨
      rest.length < 3 ∧ ((here pre rest).u24).2.err = true := by
  rcases uint_here 3 hn with ⟨field, more, rfl, hlen, hread⟩ | hshort
  · obtain ⟨hlt, hfield⟩ := u24_ofBE hlen
    refine .inl ⟨ofBE field, more, hlt, ?_, ?_⟩
    · rw [hfield]
    · rw [hfield]
      exact hread
  · exact .inr hshort

end Backwards

end Reader

/-- `wn_Writer`: `buf` holds the bytes up to `len`. -/
structure Writer where
  buf : Bytes
  cap : Nat
  len : Nat
  err : Bool
  deriving DecidableEq

namespace Writer

/-- `wn_Writer_Init`. -/
def init (cap : Nat) : Writer := ⟨[], cap, 0, false⟩

def fail (w : Writer) : Writer := { w with err := true }

/-- Store `v` at the end and advance. -/
def put (w : Writer) (v : Bytes) : Writer :=
  { w with buf := splice w.buf w.len v, len := add32 w.len v.length }

/-- `wn_Write_U8`. -/
def u8 (w : Writer) (v : Nat) : Writer :=
  if !w.err && w.len < w.cap then w.put [UInt8.ofNat v] else w.fail

/-- `wn_Write_U16`. -/
def u16 (w : Writer) (v : Nat) : Writer :=
  if !w.err && add32 w.len 2 ≤ w.cap then w.put (Duplex.u16 v) else w.fail

/-- `wn_Write_U24`. -/
def u24 (w : Writer) (v : Nat) : Writer :=
  if !w.err && add32 w.len 3 ≤ w.cap then w.put (Duplex.u24 v) else w.fail

/-- `wn_Write_Bytes`; `none` is a NULL pointer. -/
def bytes (w : Writer) (p : Option Bytes) (n : Nat) : Writer :=
  if !w.err && add32 w.len n ≤ w.cap && (p.isSome || n == 0) then
    w.put ((p.getD []).take n)
  else
    w.fail

/-- `wn_Write_LenStart`. -/
def lenStart (w : Writer) : Nat → Writer × Nat
  | 0 => (w, w.len)
  | n + 1 => (w.u8 0).lenStart n

/-- `wn_Write_LenEnd`. -/
def lenEnd (w : Writer) (offset lenBytes : Nat) : Writer :=
  if w.err then
    w
  else
    { w with buf := splice w.buf (sub32 offset lenBytes) (be lenBytes (sub32 w.len offset)) }

end Writer

end WolfNano
