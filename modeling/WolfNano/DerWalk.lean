/-
The TLV layer: a header is read exactly where a shortest-form header stands, and the same
header is read in every part of the buffer that holds what it announces.
-/
import WolfNano.X509
import WolfNano.Duplex.Der

namespace WolfNano

open Duplex

/-- A conditional in front of the rest of a computation. -/
theorem ite_bind_eq_ok {α β : Type} {c : Prop} [Decidable c] {x y : Asn α} {f : α → Asn β} {b : β} :
    (if c then x >>= f else y >>= f) = .ok b ↔ ∃ a, (if c then x else y) = .ok a ∧ f a = .ok b := by
  by_cases hc : c
  · rw [if_pos hc, if_pos hc]
    exact except_bind_eq_ok
  · rw [if_neg hc, if_neg hc]
    exact except_bind_eq_ok

section Asn

variable {der : Bytes} {i n : Nat}

theorem decodeIf_ok {c : Prop} [Decidable c] {u : Unit} : decodeIf c = .ok u ↔ ¬ c := by
  unfold decodeIf
  split
  · rename_i hc
    exact iff_of_false (fun h => nomatch h) (not_not.2 hc)
  · rename_i hc
    exact iff_of_true rfl hc

theorem byteAt_ok : byteAt der i = .ok n ↔ ∃ b, der[i]? = some b ∧ b.toNat = n := by
  unfold byteAt
  cases hget : der[i]? with
  | none => simp
  | some b => simp

theorem byteAt_at : byteAt der i = .ok n ↔ n < 256 ∧ At der i [UInt8.ofNat n] := by
  rw [byteAt_ok]
  constructor
  · rintro ⟨b, hget, rfl⟩
    refine ⟨b.toNat_lt, At.cons_iff.2 ⟨?_, At.nil ?_⟩⟩
    · rw [UInt8.ofNat_toNat]
      exact hget
    · exact (List.getElem?_eq_some_iff.1 hget).1
  · rintro ⟨hn, hat⟩
    exact ⟨_, (At.cons_iff.1 hat).1, UInt8.toNat_ofNat_of_lt hn⟩

theorem At.octet {v : Nat} (h : byteAt der i = .ok v) : At der i [UInt8.ofNat v] :=
  (byteAt_at.1 h).2

theorem u16_octets {a b : Nat} (hb : b < 256) :
    u16 (a * 256 + b) = [UInt8.ofNat a, UInt8.ofNat b] := by
  simp only [u16, List.cons.injEq, and_true, ← UInt8.toNat_inj, UInt8.toNat_ofNat']
  omega

theorem u24_octets {a b c : Nat} (hb : b < 256) (hc : c < 256) :
    u24 ((a * 256 + b) * 256 + c) = [UInt8.ofNat a, UInt8.ofNat b, UInt8.ofNat c] := by
  simp only [u24, List.cons.injEq, and_true, ← UInt8.toNat_inj, UInt8.toNat_ofNat']
  omega

/-- The number of octets that follow the first one, and the first one. -/
theorem asnGetLength_at {idx maxIdx len : Nat} (h : asnGetLength der idx maxIdx = .ok (len, i)) :
    len < 2 ^ 24 ∧ At der idx (derLen len) ∧ i = idx + (derLen len).length ∧ i + len ≤ maxIdx := by
  unfold asnGetLength at h
  simp only [except_bind_eq_ok, decodeIf_ok] at h
  obtain ⟨_, hroom, b, hb, h⟩ := h
  by_cases hlong : b ≥ 0x80
  · rw [if_pos hlong] at h
    simp only [except_bind_eq_ok, decodeIf_ok, except_pure_eq_ok, Prod.mk.injEq] at h
    obtain ⟨_, hcount, first, hfirst, _, hlead, length, hoctets, _, hmin, _, hend, rfl, rfl⟩ := h
    obtain ⟨hzero, hrest⟩ := not_or.1 hcount
    obtain ⟨hthree, hin⟩ := not_or.1 hrest
    obtain ⟨hb₂, hbAt⟩ := byteAt_at.1 hb
    obtain ⟨hf₂, hfAt⟩ := byteAt_at.1 hfirst
    obtain hone | htwo | hthree : b = 129 ∨ b = 130 ∨ b = 131 := by omega
    · subst hone
      simp only [lengthOctets, except_bind_eq_ok] at hoctets
      obtain ⟨b₁, hb₁, heq⟩ := hoctets
      cases hfirst.symm.trans hb₁
      have hlen : length = first := (Except.ok.inj heq).symm.trans (by omega)
      subst hlen
      have hder : derLen length = [129] ++ [UInt8.ofNat length] := by
        rw [derLen, if_neg (by omega), if_pos hf₂]
        rfl
      rw [hder]
      exact ⟨by omega, hbAt.append hfAt, rfl, Nat.not_lt.1 hend⟩
    · subst htwo
      simp only [lengthOctets, except_bind_eq_ok] at hoctets
      obtain ⟨b₁, hb₁, b₂, hb₂, heq⟩ := hoctets
      cases hfirst.symm.trans hb₁
      obtain ⟨hlt₂, hAt₂⟩ := byteAt_at.1 hb₂
      have hlen : length = first * 256 + b₂ := (Except.ok.inj heq).symm.trans (by omega)
      have hder : derLen length = [130] ++ [UInt8.ofNat first] ++ [UInt8.ofNat b₂] := by
        rw [derLen, if_neg (by omega), if_neg (by omega), if_pos (by omega), hlen,
          u16_octets hlt₂]
        rfl
      rw [hder]
      exact ⟨by omega, (hbAt.append hfAt).append hAt₂, rfl, Nat.not_lt.1 hend⟩
    · subst hthree
      simp only [lengthOctets, except_bind_eq_ok] at hoctets
      obtain ⟨b₁, hb₁, b₂, hb₂, b₃, hb₃, heq⟩ := hoctets
      cases hfirst.symm.trans hb₁
      obtain ⟨hlt₂, hAt₂⟩ := byteAt_at.1 hb₂
      obtain ⟨hlt₃, hAt₃⟩ := byteAt_at.1 hb₃
      have hlen : length = (first * 256 + b₂) * 256 + b₃ :=
        (Except.ok.inj heq).symm.trans (by omega)
      have hder : derLen length =
          [131] ++ [UInt8.ofNat first] ++ [UInt8.ofNat b₂] ++ [UInt8.ofNat b₃] := by
        rw [derLen, if_neg (by omega), if_neg (by omega), if_neg (by omega), hlen,
          u24_octets hlt₂ hlt₃]
        rfl
      rw [hder]
      exact ⟨by omega, ((hbAt.append hfAt).append hAt₂).append hAt₃, rfl, Nat.not_lt.1 hend⟩
  · rw [if_neg hlong] at h
    simp only [except_bind_eq_ok, decodeIf_ok, except_pure_eq_ok, Prod.mk.injEq] at h
    obtain ⟨_, hend, rfl, rfl⟩ := h
    have hder : derLen b = [UInt8.ofNat b] := by
      rw [derLen, if_pos (by omega)]
    rw [hder]
    exact ⟨by omega, At.octet hb, rfl, Nat.not_lt.1 hend⟩

theorem asnGetLength_of_at {idx maxIdx len : Nat} (hlen : len < 2 ^ 24)
    (hat : At der idx (derLen len)) (hend : idx + (derLen len).length + len ≤ maxIdx) :
    asnGetLength der idx maxIdx = .ok (len, idx + (derLen len).length) := by
  have hpos := derLen_length_pos len
  unfold asnGetLength
  simp only [except_bind_eq_ok, decodeIf_ok]
  refine ⟨(), by omega, ?_⟩
  by_cases h₁ : len < 128
  · have hder : derLen len = [UInt8.ofNat len] := by rw [derLen, if_pos h₁]
    rw [hder] at hat hend ⊢
    refine ⟨len, byteAt_at.2 ⟨by omega, hat⟩, ?_⟩
    rw [if_neg (by omega)]
    simp only [except_bind_eq_ok, decodeIf_ok, except_pure_eq_ok]
    exact ⟨(), Nat.not_lt.2 hend, rfl⟩
  by_cases h₂ : len < 256
  · have hder : derLen len = [UInt8.ofNat 129] ++ [UInt8.ofNat len] := by
      rw [derLen, if_neg h₁, if_pos h₂]
      rfl
    rw [hder] at hat hend ⊢
    have hb₁ : byteAt der (idx + 1) = .ok len := byteAt_at.2 ⟨h₂, hat.right⟩
    refine ⟨129, byteAt_at.2 ⟨by decide, hat.left⟩, ?_⟩
    rw [if_pos (by decide)]
    simp only [except_bind_eq_ok, decodeIf_ok, except_pure_eq_ok, lengthOctets]
    simp only [List.length_append, List.length_singleton] at hend
    refine ⟨(), by omega, len, hb₁, (), by omega, len, ⟨len, hb₁, ?_⟩, (), h₁, (), by omega, rfl⟩
    rw [Nat.zero_mul, Nat.zero_add]
  by_cases h₃ : len < 65536
  · have hder : derLen len =
        [UInt8.ofNat 130] ++ [UInt8.ofNat (len / 256)] ++ [UInt8.ofNat (len % 256)] := by
      have hdiv : len / 256 * 256 + len % 256 = len := Nat.div_add_mod' len 256
      rw [derLen, if_neg h₁, if_neg h₂, if_pos h₃]
      conv_lhs => rw [← hdiv]
      rw [u16_octets (by omega)]
      rfl
    rw [hder] at hat hend ⊢
    have hb₁ : byteAt der (idx + 1) = .ok (len / 256) :=
      byteAt_at.2 ⟨by omega, hat.left.right⟩
    have hb₂ : byteAt der (idx + 1 + 1) = .ok (len % 256) := byteAt_at.2 ⟨by omega, hat.right⟩
    refine ⟨130, byteAt_at.2 ⟨by decide, hat.left.left⟩, ?_⟩
    rw [if_pos (by decide)]
    simp only [except_bind_eq_ok, decodeIf_ok, except_pure_eq_ok, lengthOctets]
    simp only [List.length_append, List.length_singleton] at hend
    refine ⟨(), by omega, len / 256, hb₁, (), by omega, len, ⟨_, hb₁, _, hb₂, ?_⟩, (), h₁, (),
      by omega, rfl⟩
    exact congrArg Except.ok (by omega)
  · have hder : derLen len = [UInt8.ofNat 131] ++ [UInt8.ofNat (len / 65536)] ++
        [UInt8.ofNat (len / 256 % 256)] ++ [UInt8.ofNat (len % 256)] := by
      have hdiv : (len / 65536 * 256 + len / 256 % 256) * 256 + len % 256 = len := by omega
      rw [derLen, if_neg h₁, if_neg h₂, if_neg h₃]
      conv_lhs => rw [← hdiv]
      rw [u24_octets (by omega) (by omega)]
      rfl
    rw [hder] at hat hend ⊢
    have hb₁ : byteAt der (idx + 1) = .ok (len / 65536) :=
      byteAt_at.2 ⟨by omega, hat.left.left.right⟩
    have hb₂ : byteAt der (idx + 1 + 1) = .ok (len / 256 % 256) :=
      byteAt_at.2 ⟨by omega, hat.left.right⟩
    have hb₃ : byteAt der (idx + 1 + 1 + 1) = .ok (len % 256) := byteAt_at.2 ⟨by omega, hat.right⟩
    refine ⟨131, byteAt_at.2 ⟨by decide, hat.left.left.left⟩, ?_⟩
    rw [if_pos (by decide)]
    simp only [except_bind_eq_ok, decodeIf_ok, except_pure_eq_ok, lengthOctets]
    simp only [List.length_append, List.length_singleton] at hend
    refine ⟨(), by omega, len / 65536, hb₁, (), by omega, len, ⟨_, hb₁, _, hb₂, _, hb₃, ?_⟩, (), h₁,
      (), by omega, rfl⟩
    exact congrArg Except.ok (by omega)

/-- A header is read where its shortest form stands, with what it announces inside the
bound. -/
theorem asnGetHeader_ok {tag idx maxIdx len : Nat} (htag : tag < 256) :
    asnGetHeader der tag idx maxIdx = .ok (len, i) ↔
      len < 2 ^ 24 ∧ At der idx (derHeader tag len) ∧ i = idx + (derHeader tag len).length ∧
        i + len ≤ maxIdx := by
  have hpos := derLen_length_pos len
  unfold asnGetHeader
  simp only [except_bind_eq_ok, decodeIf_ok]
  constructor
  · rintro ⟨_, hroom, t, ht, _, heq, hlength⟩
    obtain rfl : t = tag := not_not.1 heq
    obtain ⟨hlen, hat, rfl, hend⟩ := asnGetLength_at hlength
    refine ⟨hlen, (At.octet ht).append hat, ?_, hend⟩
    rw [derHeader_length, Nat.add_assoc]
  · rintro ⟨hlen, hat, rfl, hend⟩
    rw [derHeader_length, ← Nat.add_assoc] at hend ⊢
    refine ⟨(), by omega, tag, byteAt_at.2 ⟨htag, At.left (b := [UInt8.ofNat tag]) hat⟩, (),
      not_not.2 rfl, ?_⟩
    exact asnGetLength_of_at hlen (At.right (b := [UInt8.ofNat tag]) hat) hend

end Asn

end WolfNano
