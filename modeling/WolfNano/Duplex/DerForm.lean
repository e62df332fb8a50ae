/-
DER lengths of any size, elements made of them, and the contents of an INTEGER
with the number it stands for.
-/
import WolfNano.Duplex.Der

namespace Duplex

/-! ### Big-endian numbers -/

theorem foldl_ofBE (b : Bytes) (acc : Nat) :
    b.foldl (fun acc b => acc * 256 + b.toNat) acc = acc * 256 ^ b.length + ofBE b := by
  induction b generalizing acc with
  | nil => simp [ofBE]
  | cons x b ih =>
      rw [ofBE, List.foldl_cons, List.foldl_cons, ih, ih (0 * 256 + x.toNat), List.length_cons]
      ring

theorem ofBE_cons (x : UInt8) (b : Bytes) : ofBE (x :: b) = x.toNat * 256 ^ b.length + ofBE b := by
  rw [ofBE, List.foldl_cons, foldl_ofBE, Nat.zero_mul, Nat.zero_add]

theorem ofBE_lt (b : Bytes) : ofBE b < 256 ^ b.length := by
  induction b with
  | nil => exact Nat.one_pos
  | cons x b ih =>
      have hx : x.toNat + 1 ≤ 256 := x.toNat_lt
      calc ofBE (x :: b) = x.toNat * 256 ^ b.length + ofBE b := ofBE_cons x b
        _ < x.toNat * 256 ^ b.length + 256 ^ b.length := Nat.add_lt_add_left ih _
        _ = (x.toNat + 1) * 256 ^ b.length := (Nat.succ_mul _ _).symm
        _ ≤ 256 * 256 ^ b.length := Nat.mul_le_mul_right _ hx
        _ = 256 ^ (x :: b).length := by rw [List.length_cons, Nat.pow_succ, Nat.mul_comm]

/-- Without a leading zero a number fills its octets. -/
theorem le_ofBE {x : UInt8} {b : Bytes} (hx : x ≠ 0) : 256 ^ b.length ≤ ofBE (x :: b) := by
  have hpos : 1 ≤ x.toNat := by
    apply Nat.pos_of_ne_zero
    intro hzero
    exact hx (UInt8.toNat_inj.1 hzero)
  rw [ofBE_cons]
  exact Nat.le_add_right_of_le (Nat.le_mul_of_pos_left _ hpos)

theorem ofBE_inj {a b : Bytes} (hlen : a.length = b.length) (h : ofBE a = ofBE b) : a = b := by
  induction a generalizing b with
  | nil => exact (List.eq_nil_of_length_eq_zero hlen.symm).symm
  | cons x a ih =>
      obtain ⟨y, b, rfl⟩ := List.exists_cons_of_length_eq_add_one hlen.symm
      have hrest : a.length = b.length := Nat.succ.inj hlen
      have ha := ofBE_lt a
      have hb := ofBE_lt b
      rw [ofBE_cons, ofBE_cons, hrest] at h
      rw [hrest] at ha
      have hfirst : x.toNat = y.toNat := by
        have hx := Nat.mul_add_div (Nat.zero_lt_of_lt ha) x.toNat (ofBE a)
        have hy := Nat.mul_add_div (Nat.zero_lt_of_lt hb) y.toNat (ofBE b)
        rw [Nat.div_eq_of_lt ha, Nat.add_zero, Nat.mul_comm] at hx
        rw [Nat.div_eq_of_lt hb, Nat.add_zero, Nat.mul_comm] at hy
        rw [← hx, ← hy, h]
      rw [hfirst] at h
      rw [UInt8.toNat_inj.1 hfirst, ih hrest (Nat.add_left_cancel h)]

/-- Without a leading zero the value tells the octets. -/
theorem eq_of_ofBE_eq {a b : Bytes} (ha : a.head? ≠ some 0) (hb : b.head? ≠ some 0)
    (h : ofBE a = ofBE b) : a = b := by
  have hle : ∀ {a b : Bytes}, b.head? ≠ some 0 → ofBE a = ofBE b → b.length ≤ a.length := by
    intro a b hhead heq
    cases b with
    | nil => exact Nat.zero_le _
    | cons y b =>
        have hy : y ≠ 0 := fun hzero => hhead (congrArg some hzero)
        have hlt : 256 ^ b.length < 256 ^ a.length := by
          calc 256 ^ b.length ≤ ofBE (y :: b) := le_ofBE hy
            _ = ofBE a := heq.symm
            _ < 256 ^ a.length := ofBE_lt a
        exact (Nat.pow_lt_pow_iff_right (by decide)).1 hlt
  exact ofBE_inj (Nat.le_antisymm (hle ha h.symm) (hle hb h)) h

/-! ### Lengths -/

/-- The octets of a length in the shortest definite form. -/
def DerLength (n : Nat) (b : Bytes) : Prop :=
  (n < 128 ∧ b = [UInt8.ofNat n]) ∨
    (128 ≤ n ∧ ∃ octets, b = UInt8.ofNat (128 + octets.length) :: octets ∧
      octets.length < 127 ∧ octets.head? ≠ some 0 ∧ ofBE octets = n)

/-- Up to three octets this is the form of `derLen`. -/
theorem derLength_derLen {n : Nat} (hn : n < 2 ^ 24) : DerLength n (derLen n) := by
  rw [derLen]
  split
  · rename_i hshort
    exact .inl ⟨hshort, rfl⟩
  · rename_i hlong
    refine .inr ⟨Nat.not_lt.1 hlong, ?_⟩
    have hhead : ∀ {v : Nat} {rest : Bytes}, 0 < v → v < 256 →
        (UInt8.ofNat v :: rest).head? ≠ some 0 := by
      intro v rest hpos hlt heq
      have hzero := congrArg UInt8.toNat (Option.some.inj heq)
      rw [UInt8.toNat_ofNat', Nat.mod_eq_of_lt hlt] at hzero
      exact absurd hzero (Nat.pos_iff_ne_zero.1 hpos)
    split
    · rename_i hone
      refine ⟨[UInt8.ofNat n], rfl, Nat.le_add_left 2 125, hhead (by omega) hone, ?_⟩
      rw [ofBE_cons, UInt8.toNat_ofNat', Nat.mod_eq_of_lt hone]
      exact Nat.mul_one n
    · split
      · rename_i hone htwo
        exact ⟨u16 n, rfl, Nat.le_add_left 3 124, hhead (by omega) (by omega), ofBE_u16 htwo⟩
      · exact ⟨u24 n, rfl, Nat.le_add_left 4 123, hhead (by omega) (by omega), ofBE_u24 hn⟩

/-- A length has one form. -/
theorem derLength_form {n : Nat} {a b : Bytes} (ha : DerLength n a) (hb : DerLength n b) :
    a = b := by
  rcases ha with ⟨hshort, rfl⟩ | ⟨hlong, octets, rfl, -, hhead, hvalue⟩
  · rcases hb with ⟨-, rfl⟩ | ⟨hlong, -⟩
    · rfl
    · omega
  · rcases hb with ⟨hshort, -⟩ | ⟨-, octets', rfl, -, hhead', hvalue'⟩
    · omega
    · rw [eq_of_ofBE_eq hhead hhead' (hvalue.trans hvalue'.symm)]

/-- The octets tell the length, and where they end. -/
theorem derLength_unique {m n : Nat} {a b r s : Bytes} (ha : DerLength m a) (hb : DerLength n b)
    (h : a ++ r = b ++ s) : m = n ∧ a = b ∧ r = s := by
  have hvalue : ∀ {v : Nat}, v < 256 → (UInt8.ofNat v).toNat = v := fun hv => by
    rw [UInt8.toNat_ofNat', Nat.mod_eq_of_lt hv]
  rcases ha with ⟨hm, rfl⟩ | ⟨hm, octets, rfl, hcount, -, hvalm⟩
  · rcases hb with ⟨hn, rfl⟩ | ⟨hn, octets', rfl, hcount', -, -⟩
    · obtain ⟨hfirst, hrest⟩ := List.cons.inj h
      have hmn := congrArg UInt8.toNat hfirst
      rw [hvalue (by omega), hvalue (by omega)] at hmn
      exact ⟨hmn, by rw [hmn], hrest⟩
    · have hfirst := congrArg UInt8.toNat (List.cons.inj h).1
      rw [hvalue (by omega), hvalue (by omega)] at hfirst
      omega
  · rcases hb with ⟨hn, rfl⟩ | ⟨hn, octets', rfl, hcount', -, hvaln⟩
    · have hfirst := congrArg UInt8.toNat (List.cons.inj h).1
      rw [hvalue (by omega), hvalue (by omega)] at hfirst
      omega
    · obtain ⟨hfirst, hrest⟩ := List.cons.inj h
      have hlen := congrArg UInt8.toNat hfirst
      rw [hvalue (by omega), hvalue (by omega)] at hlen
      obtain ⟨rfl, hrs⟩ := List.append_inj hrest (by omega)
      exact ⟨hvalm.symm.trans hvaln, rfl, hrs⟩

/-! ### Elements -/

/-- An element with this tag and these contents. -/
def DerTlv (tag : UInt8) (contents b : Bytes) : Prop :=
  ∃ len, DerLength contents.length len ∧ b = tag :: len ++ contents

theorem derTlv_tlv {tag : Nat} {contents : Bytes} (h : contents.length < 2 ^ 24) :
    DerTlv (UInt8.ofNat tag) contents (tlv tag contents) :=
  ⟨_, derLength_derLen h, rfl⟩

theorem DerTlv.unique {tag tag' : UInt8} {c c' b b' r s : Bytes} (hb : DerTlv tag c b)
    (hb' : DerTlv tag' c' b') (h : b ++ r = b' ++ s) : c = c' ∧ b = b' ∧ r = s := by
  obtain ⟨len, hlen, rfl⟩ := hb
  obtain ⟨len', hlen', rfl⟩ := hb'
  rw [List.cons_append, List.cons_append, List.cons_append, List.cons_append,
    List.append_assoc, List.append_assoc] at h
  obtain ⟨rfl, hrest⟩ := List.cons.inj h
  obtain ⟨hcount, rfl, hcs⟩ := derLength_unique hlen hlen' hrest
  obtain ⟨rfl, hrs⟩ := List.append_inj hcs hcount
  exact ⟨rfl, rfl, hrs⟩

/-- An element whose length takes at most three octets. -/
theorem DerTlv.eq_tlv {tag : Nat} {contents b : Bytes} (h : DerTlv (UInt8.ofNat tag) contents b)
    (hlen : contents.length < 2 ^ 24) : b = tlv tag contents := by
  obtain ⟨len, hlength, rfl⟩ := h
  rw [derLength_form hlength (derLength_derLen hlen)]
  rfl

/-! ### Integers -/

/-- The contents of an INTEGER: at least one octet, and no first octet that only repeats
the sign of the second. -/
def IntMinimal : Bytes → Prop
  | [] => False
  | [_] => True
  | a :: b :: _ => ¬ (a = 0 ∧ b < 128) ∧ ¬ (a = 255 ∧ 128 ≤ b)

/-- The number, in two's complement. -/
def intValue (c : Bytes) : Int :=
  if c.headD 0 < 128 then ofBE c else ofBE c - 256 ^ c.length

/-- The contents of a positive INTEGER. -/
def IntPositive (c : Bytes) : Prop := IntMinimal c ∧ 0 < intValue c

/-- A clear sign bit in the first octet. -/
def IntUnsigned (c : Bytes) : Prop := c ≠ [] ∧ c.headD 0 < 128

/-- Contents that are zero, or have a zero octet more than their number needs. -/
def IntLeadingZero (c : Bytes) : Prop := c.headD 0 = 0 ∧ c.tail.headD 0 < 128

theorem IntPositive.unsigned {c : Bytes} (h : IntPositive c) : IntUnsigned c := by
  obtain ⟨hmin, hpos⟩ := h
  cases c with
  | nil => exact hmin.elim
  | cons a b =>
      refine ⟨List.cons_ne_nil a b, ?_⟩
      by_contra hsign
      rw [intValue, if_neg hsign] at hpos
      have hlt : (ofBE (a :: b) : Int) < 256 ^ (a :: b).length := by exact_mod_cast ofBE_lt (a :: b)
      omega

/-- With a clear sign bit, positive means no leading zero too many. -/
theorem intPositive_iff {c : Bytes} (h : IntUnsigned c) : IntPositive c ↔ ¬ IntLeadingZero c := by
  obtain ⟨hne, hsign⟩ := h
  cases c with
  | nil => exact absurd rfl hne
  | cons a b =>
      rw [List.headD_cons] at hsign
      have ha : a ≠ 255 := by
        rintro rfl
        exact absurd hsign (by decide)
      have hvalue : intValue (a :: b) = ofBE (a :: b) := if_pos hsign
      constructor
      · rintro ⟨hmin, hpos⟩ ⟨hzero, hnext⟩
        cases b with
        | nil =>
            rw [hvalue, show a = 0 from hzero] at hpos
            exact absurd hpos (by decide)
        | cons b rest => exact hmin.1 ⟨hzero, hnext⟩
      · intro hlead
        constructor
        · cases b with
          | nil => trivial
          | cons b rest => exact ⟨hlead, fun hneg => ha hneg.1⟩
        · rw [hvalue]
          by_cases hzero : a = 0
          · cases b with
            | nil => exact absurd ⟨hzero, show (0 : UInt8) < 128 by decide⟩ hlead
            | cons b rest =>
                have hb : b ≠ 0 := by
                  rintro rfl
                  exact hlead ⟨hzero, show (0 : UInt8) < 128 by decide⟩
                have hle := le_ofBE (b := rest) hb
                have hpow := Nat.pow_pos (n := rest.length) (show 0 < 256 by decide)
                rw [ofBE_cons]
                omega
          · have hle := le_ofBE (b := b) hzero
            have hpow := Nat.pow_pos (n := b.length) (show 0 < 256 by decide)
            omega

end Duplex
