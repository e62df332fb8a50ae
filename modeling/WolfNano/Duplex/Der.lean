/-
Definite lengths of up to three octets in their shortest form, and the headers made of them.
-/
import WolfNano.Duplex.Place
import Mathlib.Tactic.SplitIfs

namespace Duplex

/-- The shortest form of a length. -/
def derLen (n : Nat) : Bytes :=
  if n < 128 then [UInt8.ofNat n]
  else if n < 256 then [0x81, UInt8.ofNat n]
  else if n < 65536 then 0x82 :: u16 n
  else 0x83 :: u24 n

def derHeader (tag n : Nat) : Bytes := UInt8.ofNat tag :: derLen n

/-- A tag, the length of what follows, and that. -/
def tlv (tag : Nat) (contents : Bytes) : Bytes := derHeader tag contents.length ++ contents

theorem derLen_length_pos (n : Nat) : 0 < (derLen n).length := by
  unfold derLen
  split
  · exact Nat.one_pos
  · split
    · exact Nat.two_pos
    · split
      · exact Nat.succ_pos _
      · exact Nat.succ_pos _

theorem derLen_length_le (n : Nat) : (derLen n).length ≤ 4 := by
  unfold derLen
  split
  · exact Nat.le_add_left 1 3
  · split
    · exact Nat.le_add_left 2 2
    · split
      · exact Nat.le_add_left 3 1
      · exact Nat.le_refl 4

theorem derLen_length_mono {m n : Nat} (h : m ≤ n) : (derLen m).length ≤ (derLen n).length := by
  have hform : ∀ k, (derLen k).length =
      if k < 128 then 1 else if k < 256 then 2 else if k < 65536 then 3 else 4 := by
    intro k
    unfold derLen
    split
    · rfl
    · split
      · rfl
      · split
        · rfl
        · rfl
  rw [hform, hform]
  split_ifs
  all_goals omega

@[simp] theorem derHeader_length (tag n : Nat) :
    (derHeader tag n).length = 1 + (derLen n).length := by
  rw [derHeader, List.length_cons, Nat.add_comm]

theorem tlv_length (tag : Nat) (contents : Bytes) :
    (tlv tag contents).length = 1 + (derLen contents.length).length + contents.length := by
  rw [tlv, List.length_append, derHeader_length]

/-- Elements of one length have contents of one length. -/
theorem tlv_length_inj {tag tag' : Nat} {a b : Bytes}
    (h : (tlv tag a).length = (tlv tag' b).length) :
    a.length = b.length := by
  rw [tlv_length, tlv_length] at h
  rcases Nat.le_total a.length b.length with hle | hle
  · have hmono := derLen_length_mono hle
    omega
  · have hmono := derLen_length_mono hle
    omega

end Duplex
