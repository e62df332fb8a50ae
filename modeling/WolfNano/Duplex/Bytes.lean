/-
Byte strings: big-endian fields, slices and in-place overwrites.  Lengths and
field values are natural numbers; a field keeps the low-order octets of the
value it is given, as a cast to a narrower machine word does.
-/
import Mathlib.Data.List.Basic
import Mathlib.Tactic.Ring

namespace Duplex

abbrev Bytes := List UInt8

/-- Two octets, most significant first. -/
def u16 (v : Nat) : Bytes := [UInt8.ofNat (v / 256), UInt8.ofNat v]

/-- Three octets, most significant first. -/
def u24 (v : Nat) : Bytes :=
  [UInt8.ofNat (v / 65536), UInt8.ofNat (v / 256), UInt8.ofNat v]

/-- The `n` low-order octets of `v`, most significant first. -/
def be : Nat → Nat → Bytes
  | 0, _ => []
  | n + 1, v => UInt8.ofNat (v / 256 ^ n) :: be n v

def zeros (n : Nat) : Bytes := List.replicate n 0

/-- The number a big-endian field denotes. -/
def ofBE (bs : Bytes) : Nat := bs.foldl (fun acc b => acc * 256 + b.toNat) 0

@[simp] theorem u16_length (v : Nat) : (u16 v).length = 2 := rfl

@[simp] theorem u24_length (v : Nat) : (u24 v).length = 3 := rfl

@[simp] theorem be_length (n v : Nat) : (be n v).length = n := by
  induction n with
  | zero => rfl
  | succ n ih => simp [be, ih]

@[simp] theorem zeros_length (n : Nat) : (zeros n).length = n := by
  simp [zeros]

theorem be_two (v : Nat) : be 2 v = u16 v := by
  simp [be, u16]

theorem be_three (v : Nat) : be 3 v = u24 v := by
  simp [be, u24]

theorem ofBE_u16 {v : Nat} (hv : v < 65536) : ofBE (u16 v) = v := by
  simp only [ofBE, u16, List.foldl_cons, List.foldl_nil, UInt8.toNat_ofNat']
  omega

theorem ofBE_u24 {v : Nat} (hv : v < 16777216) : ofBE (u24 v) = v := by
  simp only [ofBE, u24, List.foldl_cons, List.foldl_nil, UInt8.toNat_ofNat']
  omega

/-- Three octets are a 24-bit number. -/
theorem u24_ofBE {field : Bytes} (h : field.length = 3) :
    ofBE field < 2 ^ 24 ∧ u24 (ofBE field) = field := by
  obtain ⟨a, b, c, rfl⟩ := List.length_eq_three.1 h
  have ha := a.toNat_lt
  have hb := b.toNat_lt
  have hc := c.toNat_lt
  have hvalue : ofBE [a, b, c] = a.toNat * 65536 + b.toNat * 256 + c.toNat := by
    simp only [ofBE, List.foldl_cons, List.foldl_nil]
    omega
  rw [hvalue, u24]
  refine ⟨by omega, ?_⟩
  simp only [List.cons.injEq, and_true, ← UInt8.toNat_inj, UInt8.toNat_ofNat']
  omega

theorem foldl_be (n v acc : Nat) :
    (be n v).foldl (fun acc b => acc * 256 + b.toNat) acc
      = acc * 256 ^ n + v % 256 ^ n := by
  induction n generalizing acc with
  | zero => simp [be, Nat.mod_one]
  | succ n ih =>
      simp only [be, List.foldl_cons, ih, UInt8.toNat_ofNat']
      have hmod : v % 256 ^ (n + 1) = v % 256 ^ n + 256 ^ n * (v / 256 ^ n % 256) := by
        rw [Nat.pow_succ, Nat.mod_mul]
      rw [hmod, Nat.pow_succ]
      ring

/-- A field of `n` octets denotes the value modulo `256 ^ n`. -/
theorem ofBE_be (n v : Nat) : ofBE (be n v) = v % 256 ^ n := by
  rw [ofBE, foldl_be]
  simp

/-- The `n` bytes of `buf` that start at `off`. -/
def slice (buf : Bytes) (off n : Nat) : Bytes := (buf.drop off).take n

/-- `buf` after the bytes `v` were stored from index `off` on. -/
def splice (buf : Bytes) (off : Nat) (v : Bytes) : Bytes :=
  buf.take off ++ v ++ buf.drop (off + v.length)

theorem splice_take (buf plain : Bytes) :
    (splice buf 0 plain).take plain.length = plain := by
  simp [splice]

theorem slice_append_left (pre mid post : Bytes) :
    slice (pre ++ mid ++ post) pre.length mid.length = mid := by
  simp [slice]

theorem slice_eq_of_eq_append {buf mid : Bytes} {off n : Nat} (pre post : Bytes)
    (hbuf : buf = pre ++ mid ++ post) (hoff : off = pre.length)
    (hn : n = mid.length) : slice buf off n = mid := by
  subst hbuf hoff hn
  exact slice_append_left pre mid post

theorem slice_length {buf : Bytes} {off n : Nat} (h : off + n ≤ buf.length) :
    (slice buf off n).length = n := by
  simp only [slice, List.length_take, List.length_drop]
  omega

@[simp] theorem splice_at_end (buf v : Bytes) :
    splice buf buf.length v = buf ++ v := by
  simp [splice]

/-- Storing over a placeholder of the same length. -/
theorem splice_middle (pre old post v : Bytes) (hlen : old.length = v.length) :
    splice (pre ++ old ++ post) pre.length v = pre ++ v ++ post := by
  simp [splice, ← hlen]

theorem splice_length_of_le {buf v : Bytes} {off : Nat}
    (h : off + v.length ≤ buf.length) :
    (splice buf off v).length = buf.length := by
  simp only [splice, List.length_append, List.length_take, List.length_drop]
  omega

/-- Splitting a byte string at two adjacent cuts. -/
theorem take_append_slice (buf : Bytes) (off n : Nat) :
    buf.take off ++ slice buf off n = buf.take (off + n) := by
  rw [slice, List.take_add]

/-- An element of a list is written no longer than the list. -/
theorem length_le_flatMap {α : Type} {f : α → Bytes} {l : List α} {a : α} (ha : a ∈ l) :
    (f a).length ≤ (l.flatMap f).length := by
  rw [List.flatMap_def]
  apply List.Sublist.length_le
  apply List.sublist_flatten_of_mem
  exact List.mem_map_of_mem ha

end Duplex
