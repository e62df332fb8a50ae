/-
The extensions of an accepted certificate: the contents of the four the parser knows, and
what it records of them.
-/
import WolfNano.CertEncoding

namespace WolfNano

open Duplex

theorem byteAt_getD {der : Bytes} {i n : Nat} (h : byteAt der i = .ok n) :
    (der.getD i 0).toNat = n := by
  obtain ⟨b, hget, rfl⟩ := byteAt_ok.1 h
  rw [List.getD_eq_getElem?_getD, hget, Option.getD_some]

theorem slice_getD {der : Bytes} {p n i : Nat} (h : i < n) :
    (slice der p n).getD i 0 = der.getD (p + i) 0 := by
  rw [List.getD_eq_getElem?_getD, List.getD_eq_getElem?_getD, slice, List.getElem?_take_of_lt h,
    List.getElem?_drop]

theorem slice_getD_ge {der : Bytes} {p n i : Nat} (h : n ≤ i) : (slice der p n).getD i 0 = 0 := by
  rw [List.getD_eq_getElem?_getD, List.getElem?_eq_none, Option.getD_none]
  rw [slice, List.length_take]
  omega

/-- An element that is read, with the place after it. -/
structure ElementAt (der : Bytes) (tag idx maxIdx len i : Nat) : Prop where
  inDer : At der idx (tlv tag (slice der i len))
  contents : (slice der i len).length = len
  len_lt : len < 2 ^ 24
  next : idx + (tlv tag (slice der i len)).length = i + len
  lt : idx < i
  le : i + len ≤ maxIdx

/-- A header that is accepted is followed by its contents: together they are the encoding
of an element. -/
theorem asnGetHeader_element {der : Bytes} {tag idx maxIdx len i : Nat} (htag : tag < 256)
    (hmax : maxIdx ≤ der.length) (h : asnGetHeader der tag idx maxIdx = .ok (len, i)) :
    ElementAt der tag idx maxIdx len i := by
  obtain ⟨hlen, hlt, hat, hnext, hidx⟩ := asnGetHeader_tlv htag hmax h
  exact ⟨hat, hlen, hlt, hnext, hidx, ((asnGetHeader_ok htag).1 h).2.2.2⟩

/-- An Extension. -/
structure CertExt where
  oid : Bytes
  crit : Bool
  value : Bytes

/-- DER TRUE, when `b`. -/
def derTrue (b : Bool) : Bytes := if b then tlv asnBoolean [0xFF] else []

def CertExt.encode (e : CertExt) : Bytes :=
  tlv asnSeq (tlv asnObjectId e.oid ++ derTrue e.crit ++ tlv asnOctetString e.value)

/-- A BOOLEAN that two of the walkers accept is TRUE. -/
theorem derTrue_at {der : Bytes} {idx e len j v : Nat} {u u' : Unit} (he : e ≤ der.length)
    (hheader : asnGetHeader der asnBoolean idx e = .ok (len, j)) (hone : decodeIf (len ≠ 1) = .ok u)
    (hv : byteAt der j = .ok v) (htrue : decodeIf (v ≠ 0xFF) = .ok u') :
    At der idx (derTrue true) ∧ idx + (derTrue true).length = j + len ∧ j + len ≤ e := by
  obtain rfl : len = 1 := not_not.1 (decodeIf_ok.1 hone)
  obtain rfl : v = 0xFF := not_not.1 (decodeIf_ok.1 htrue)
  have helem := asnGetHeader_element (by decide) he hheader
  have hcontents : slice der j 1 = [0xFF] := (byteAt_at.1 hv).2.2
  have hat := helem.inDer
  have hnext := helem.next
  rw [hcontents] at hat hnext
  exact ⟨hat, hnext, helem.le⟩

/-! ### basicConstraints -/

/-- `SEQUENCE { cA, pathLen }`, the second only in a build that reads it. -/
def BasicConstraints (B : X509Build) (value : Bytes) (ca : Bool) : Prop :=
  ∃ path, (path = [] ∨ B.pathLen = true ∧ ∃ n, path = tlv asnInteger n) ∧
    value = tlv asnSeq (derTrue ca ++ path)

section Bodies

variable {B : X509Build} {der : Bytes} {idx extEnd : Nat} {x x' : X509Exts} {crit : Bool}
  (hend : extEnd ≤ der.length)

include hend

/-- The rest of the body, from the end of the optional BOOLEAN on. -/
theorem basicConstraints_rest {seqLen j i : Nat} {ca : Bool}
    (hseq : asnGetHeader der asnSeq idx extEnd = .ok (seqLen, j)) (hfill : j + seqLen = extEnd)
    (hca : At der j (derTrue ca)) (hcaEnd : j + (derTrue ca).length = i) (hi : i ≤ j + seqLen)
    (h : (do
      let last ←
        if B.pathLen ∧ i < j + seqLen then do
          let (len, k) ← asnGetHeader der asnInteger i (j + seqLen)
          pure (k + len)
        else
          pure i
      decodeIf (last ≠ j + seqLen)
      pure { x with flags := { x.flags with
        bcSet := true, bcCrit := x.flags.bcCrit || crit, ca := x.flags.ca || ca } }) = .ok x') :
    ∃ ca, BasicConstraints B (slice der idx (extEnd - idx)) ca ∧
      x' = { x with flags := { x.flags with
        bcSet := true, bcCrit := x.flags.bcCrit || crit, ca := x.flags.ca || ca } } := by
  have helem := asnGetHeader_element (by decide) hend hseq
  have hle : j + seqLen ≤ der.length := by omega
  have hpath : ∃ path, (path = [] ∨ B.pathLen = true ∧ ∃ n, path = tlv asnInteger n) ∧
      At der i path ∧ i + path.length = j + seqLen ∧
      x' = { x with flags := { x.flags with
        bcSet := true, bcCrit := x.flags.bcCrit || crit, ca := x.flags.ca || ca } } := by
    by_cases hmore : B.pathLen = true ∧ i < j + seqLen
    · rw [if_pos hmore] at h
      obtain ⟨⟨len, k⟩, hint, h⟩ := except_bind_eq_ok.1 h
      obtain ⟨last, hpure, h⟩ := except_bind_eq_ok.1 h
      obtain rfl : k + len = last := except_pure_eq_ok.1 hpure
      obtain ⟨_, hlast, h⟩ := except_bind_eq_ok.1 h
      cases h
      have hlast := not_not.1 (decodeIf_ok.1 hlast)
      have hn := asnGetHeader_element (by decide) hle hint
      exact ⟨_, .inr ⟨hmore.1, _, rfl⟩, hn.inDer, hn.next.trans hlast, rfl⟩
    · rw [if_neg hmore] at h
      obtain ⟨last, hpure, h⟩ := except_bind_eq_ok.1 h
      obtain rfl : i = last := except_pure_eq_ok.1 hpure
      obtain ⟨_, hlast, h⟩ := except_bind_eq_ok.1 h
      cases h
      exact ⟨[], .inl rfl, At.nil (by omega), not_not.1 (decodeIf_ok.1 hlast), rfl⟩
  obtain ⟨path, hshape, hat, hpathEnd, rfl⟩ := hpath
  have hcontents := (hca.append_at hat hcaEnd).slice_eq (q := j + seqLen) (by
    rw [List.length_append]
    omega)
  rw [Nat.add_sub_cancel_left] at hcontents
  refine ⟨ca, ⟨path, hshape, ?_⟩, rfl⟩
  rw [← hcontents]
  exact helem.inDer.slice_eq (helem.next.trans hfill)

/-- The reader of basicConstraints accepts one element, with the flag or without, and only
adds to the flags. -/
theorem extBasicConstraints_ok (h : extBasicConstraints B der idx extEnd x crit = .ok x') :
    ∃ ca, BasicConstraints B (slice der idx (extEnd - idx)) ca ∧
      x' = { x with flags := { x.flags with
        bcSet := true, bcCrit := x.flags.bcCrit || crit, ca := x.flags.ca || ca } } := by
  unfold extBasicConstraints at h
  obtain ⟨⟨seqLen, j⟩, hseq, h⟩ := except_bind_eq_ok.1 h
  obtain ⟨_, hfill, h⟩ := except_bind_eq_ok.1 h
  have hfill : j + seqLen = extEnd := not_not.1 (decodeIf_ok.1 hfill)
  have hle : j + seqLen ≤ der.length := by omega
  have helem := asnGetHeader_element (by decide) hend hseq
  have hrest := @basicConstraints_rest B der idx extEnd x x' crit hend seqLen j
  obtain ⟨bool, -, h⟩ := ite_bind_eq_ok.1 h
  cases bool with
  | false => exact @hrest j false hseq hfill (At.nil (by omega)) rfl (by omega) h
  | true =>
      obtain ⟨⟨len, k⟩, hheader, h⟩ := except_bind_eq_ok.1 h
      obtain ⟨_, hone, h⟩ := except_bind_eq_ok.1 h
      obtain ⟨v, hv, h⟩ := except_bind_eq_ok.1 h
      obtain ⟨_, htrue, h⟩ := except_bind_eq_ok.1 h
      obtain ⟨hat, hatEnd, hlast⟩ := derTrue_at hle hheader hone hv htrue
      exact @hrest (k + len) true hseq hfill hat hatEnd hlast h

/-- A BIT STRING of usages, with the first two octets of it in little-endian order. -/
def KeyUsage (value : Bytes) (usage : Nat) : Prop :=
  ∃ unused bits, value = tlv asnBitString (unused :: bits) ∧
    usage = (bits.getD 0 0).toNat + (bits.getD 1 0).toNat * 256

/-- The reader of keyUsage accepts one bit string that sets a bit, and only adds to the
flags. -/
theorem extKeyUsage_ok (hzero : x.keyUsage = 0) (h : extKeyUsage der idx extEnd x crit = .ok x') :
    ∃ usage, KeyUsage (slice der idx (extEnd - idx)) usage ∧ usage ≠ 0 ∧
      x' = { x with
        flags := { x.flags with kuSet := true, kuCrit := x.flags.kuCrit || crit }
        keyUsage := usage } := by
  unfold extKeyUsage at h
  obtain ⟨⟨kuLen, j⟩, hbits, h⟩ := except_bind_eq_ok.1 h
  obtain ⟨⟨len', j'⟩, hheader, hexact⟩ := except_bind_eq_ok.1 hbits
  obtain ⟨_, hfill, hexact⟩ := except_bind_eq_ok.1 hexact
  cases hexact
  obtain ⟨_, hpos, h⟩ := except_bind_eq_ok.1 h
  obtain ⟨unused, hunused, h⟩ := except_bind_eq_ok.1 h
  obtain ⟨_, -, h⟩ := except_bind_eq_ok.1 h
  have hfill : j + kuLen = extEnd := not_not.1 (decodeIf_ok.1 hfill)
  have hpos := decodeIf_ok.1 hpos
  have helem := asnGetHeader_element (by decide) hend hheader
  have hvalue : slice der idx (extEnd - idx) = tlv asnBitString (slice der j kuLen) :=
    helem.inDer.slice_eq (helem.next.trans hfill)
  by_cases htwo : kuLen ≥ 2
  · rw [if_pos htwo] at h
    obtain ⟨last, -, h⟩ := except_bind_eq_ok.1 h
    obtain ⟨_, -, h⟩ := except_bind_eq_ok.1 h
    obtain ⟨low, hlow, h⟩ := except_bind_eq_ok.1 h
    obtain ⟨high, hhigh, h⟩ := ite_bind_eq_ok.1 h
    obtain ⟨_, hne, h⟩ := except_bind_eq_ok.1 h
    cases h
    have hsplit : slice der j kuLen = UInt8.ofNat unused :: slice der (j + 1) (kuLen - 1) := by
      obtain ⟨k, rfl⟩ : ∃ k, kuLen = 1 + k := ⟨kuLen - 1, by omega⟩
      rw [slice_add, Nat.add_sub_cancel_left]
      exact congrArg (· ++ slice der (j + 1) k) (byteAt_at.1 hunused).2.2
    have hlow : ((slice der (j + 1) (kuLen - 1)).getD 0 0).toNat = low := by
      rw [slice_getD (by omega)]
      exact byteAt_getD hlow
    have hhigh : ((slice der (j + 1) (kuLen - 1)).getD 1 0).toNat = high := by
      by_cases hthree : kuLen ≥ 3
      · rw [if_pos hthree] at hhigh
        rw [slice_getD (by omega)]
        exact byteAt_getD hhigh
      · rw [if_neg hthree] at hhigh
        obtain rfl : 0 = high := except_pure_eq_ok.1 hhigh
        rw [slice_getD_ge (by omega)]
        rfl
    refine ⟨low + high * 256, ⟨_, _, by rw [hvalue, hsplit], by rw [hlow, hhigh]⟩,
      decodeIf_ok.1 hne, rfl⟩
  · rw [if_neg htwo] at h
    obtain ⟨_, hne, h⟩ := except_bind_eq_ok.1 h
    exact absurd hzero (decodeIf_ok.1 hne)

end Bodies

/-! ### extKeyUsage -/

/-- A list of purposes that is not empty. -/
def ExtKeyUsage (value : Bytes) (purposes : List Bytes) : Prop :=
  purposes ≠ [] ∧ value = tlv asnSeq (purposes.flatMap (tlv asnObjectId))

/-- Comparing an object identifier in place is comparing its slice. -/
theorem oidEq_ok {der want : Bytes} {idx len : Nat} {b : Bool} (hlen : idx + len ≤ der.length)
    (h : oidEq der idx len want = .ok b) : b = true ↔ slice der idx len = want := by
  unfold oidEq at h
  by_cases hsize : len = want.length
  · rw [if_pos hsize] at h
    obtain ⟨p, hp, h⟩ := except_bind_eq_ok.1 h
    unfold bytesAt at hp
    rw [if_pos hlen] at hp
    cases hp
    cases h
    exact beq_iff_eq
  · rw [if_neg hsize] at h
    cases h
    refine iff_of_false Bool.false_ne_true fun heq => hsize ?_
    rw [← heq, slice_length hlen]

/-- The usage word: a bit for each of the two purposes that are known. -/
def usageOf (purposes : List Bytes) (usage : Nat) : Nat :=
  purposes.foldl (fun u p => if p = oidEkuSrvauth then u ||| 2 else if p = oidEkuAny then u ||| 1
    else u) usage

theorem usageOf_testBit (purposes : List Bytes) (usage : Nat) :
    ((usageOf purposes usage).testBit 1 = true ↔ usage.testBit 1 = true ∨
    oidEkuSrvauth ∈ purposes) ∧
    ((usageOf purposes usage).testBit 0 = true ↔ usage.testBit 0 = true ∨
    oidEkuAny ∈ purposes) := by
  induction purposes generalizing usage with
  | nil => simp [usageOf]
  | cons p purposes ih =>
      have hstep : usageOf (p :: purposes) usage = usageOf purposes
          (if p = oidEkuSrvauth then usage ||| 2 else if p = oidEkuAny then usage ||| 1
            else usage) := rfl
      rw [hstep, (ih _).1, (ih _).2]
      have htwo : (2 : Nat).testBit 1 = true ∧ (2 : Nat).testBit 0 = false := ⟨rfl, rfl⟩
      have hone : (1 : Nat).testBit 1 = false ∧ (1 : Nat).testBit 0 = true := ⟨rfl, rfl⟩
      by_cases hserver : p = oidEkuSrvauth
      · have hne : oidEkuAny ≠ p := by
          rw [hserver]
          decide
        rw [if_pos hserver, Nat.testBit_or, Nat.testBit_or, htwo.1, htwo.2, List.mem_cons,
          List.mem_cons, hserver]
        rw [hserver] at hne
        simp [hne]
      · by_cases hany : p = oidEkuAny
        · have hne : oidEkuSrvauth ≠ oidEkuAny := by decide
          rw [if_neg hserver, if_pos hany, Nat.testBit_or, Nat.testBit_or, hone.1, hone.2,
            List.mem_cons, List.mem_cons, hany]
          simp [hne]
        · rw [if_neg hserver, if_neg hany, List.mem_cons, List.mem_cons]
          simp [Ne.symm hserver, Ne.symm hany]

section Loops

variable {der : Bytes} {e : Nat} (he : e ≤ der.length)

include he

/-- By induction on the fuel: the loop accepts a run of object identifiers that ends where
the list ends, and remembers the two it knows. -/
theorem ekuLoop_ok {n idx usage usage' : Nat} (hidx : idx ≤ e)
    (h : ekuLoop der n idx e usage = .ok usage') :
    ∃ purposes : List Bytes, At der idx (purposes.flatMap (tlv asnObjectId)) ∧
      idx + (purposes.flatMap (tlv asnObjectId)).length = e ∧ usage' = usageOf purposes usage := by
  induction n generalizing idx usage with
  | zero => cases h
  | succ n ih =>
      unfold ekuLoop at h
      by_cases hmore : idx < e
      · rw [if_pos hmore] at h
        obtain ⟨⟨len, j⟩, hheader, h⟩ := except_bind_eq_ok.1 h
        obtain ⟨server, hserver, h⟩ := except_bind_eq_ok.1 h
        have helem := asnGetHeader_element (by decide) he hheader
        have hle := helem.le
        have hserver := oidEq_ok (by omega) hserver
        have hcons : ∀ usage₁, usage₁ = usageOf [slice der j len] usage →
            ekuLoop der n (j + len) e usage₁ = .ok usage' →
            ∃ purposes : List Bytes, At der idx (purposes.flatMap (tlv asnObjectId)) ∧
              idx + (purposes.flatMap (tlv asnObjectId)).length = e ∧
              usage' = usageOf purposes usage := by
          rintro usage₁ rfl hloop
          obtain ⟨purposes, hat, hend, rfl⟩ := ih hle hloop
          refine ⟨slice der j len :: purposes, ?_, ?_, rfl⟩
          · rw [List.flatMap_cons]
            exact helem.inDer.append_at hat helem.next
          · rw [List.flatMap_cons, List.length_append, ← Nat.add_assoc, helem.next]
            exact hend
        cases server with
        | true =>
            refine hcons _ ?_ h
            show _ = if slice der j len = oidEkuSrvauth then usage ||| 2 else _
            rw [if_pos (hserver.1 rfl)]
        | false =>
            have hnot : slice der j len ≠ oidEkuSrvauth := fun heq => nomatch hserver.2 heq
            obtain ⟨any, hany, h⟩ := except_bind_eq_ok.1 h
            have hany := oidEq_ok (by omega) hany
            cases any with
            | true =>
                refine hcons _ ?_ h
                show _ = if slice der j len = oidEkuSrvauth then usage ||| 2 else
                  if slice der j len = oidEkuAny then usage ||| 1 else usage
                rw [if_neg hnot, if_pos (hany.1 rfl)]
            | false =>
                refine hcons _ ?_ h
                show _ = if slice der j len = oidEkuSrvauth then usage ||| 2 else
                  if slice der j len = oidEkuAny then usage ||| 1 else usage
                rw [if_neg hnot, if_neg (fun heq => nomatch hany.2 heq)]
      · rw [if_neg hmore] at h
        cases h
        exact ⟨[], At.nil (by omega), by simp; omega, rfl⟩

/-- The reader of extKeyUsage accepts one sequence of object identifiers. -/
theorem extExtKeyUsage_ok {idx : Nat} {x x' : X509Exts} {crit : Bool}
    (h : extExtKeyUsage der idx e x crit = .ok x') :
    ∃ purposes, ExtKeyUsage (slice der idx (e - idx)) purposes ∧
      x' = { x with
        flags := { x.flags with ekuSet := true, ekuCrit := x.flags.ekuCrit || crit }
        extKeyUsage := usageOf purposes x.extKeyUsage } := by
  unfold extExtKeyUsage at h
  obtain ⟨⟨seqLen, j⟩, hseq, h⟩ := except_bind_eq_ok.1 h
  obtain ⟨_, hfill, h⟩ := except_bind_eq_ok.1 h
  obtain ⟨_, hne, h⟩ := except_bind_eq_ok.1 h
  obtain ⟨usage, hloop, h⟩ := except_bind_eq_ok.1 h
  cases h
  have hfill : j + seqLen = e := not_not.1 (decodeIf_ok.1 hfill)
  have hne := decodeIf_ok.1 hne
  have helem := asnGetHeader_element (by decide) he hseq
  have hin : j ≤ e := by omega
  obtain ⟨purposes, hat, hend, rfl⟩ := ekuLoop_ok he hin hloop
  have hcontents := hat.slice_eq hend
  rw [← hfill, Nat.add_sub_cancel_left] at hcontents
  refine ⟨purposes, ⟨?_, ?_⟩, rfl⟩
  · rintro rfl
    exact hne (by simp at hend; omega)
  · rw [← hcontents]
    exact helem.inDer.slice_eq (helem.next.trans hfill)

end Loops

/-! ### subjectAltName -/

/-- The dNSNames among the names, in order. -/
def dnsNames (names : List (Nat × Bytes)) : List Bytes :=
  (names.filter fun n => n.1 = asnSanDns).map Prod.snd

/-- A name that can be matched: not empty, at most 255 octets, no NUL. -/
def DnsName (name : Bytes) : Prop := 1 ≤ name.length ∧ name.length ≤ 255 ∧ 0 ∉ name

/-- A list of names that is not empty. -/
def AltName (value : Bytes) (names : List (Nat × Bytes)) : Prop :=
  names ≠ [] ∧ (∀ n ∈ names, n.1 < 256) ∧ (∀ name ∈ dnsNames names, DnsName name) ∧
    value = tlv asnSeq (names.flatMap fun n => tlv n.1 n.2)

section San

variable {der : Bytes} {e : Nat} (he : e ≤ der.length)

include he

omit he in
/-- Looking for a zero octet in place is looking for it in the slice. -/
theorem hasNul_ok {idx len : Nat} {b : Bool} (hlen : idx + len ≤ der.length)
    (h : hasNul der idx len = .ok b) : b = true ↔ 0 ∈ slice der idx len := by
  unfold hasNul at h
  obtain ⟨p, hp, h⟩ := except_bind_eq_ok.1 h
  unfold bytesAt at hp
  rw [if_pos hlen] at hp
  cases hp
  cases h
  exact List.contains_iff_mem

/-- The names a pool of slices holds. -/
def poolNames (der : Bytes) (san : List Slice) : List Bytes := san.map fun s => s.bytes der

/-- By induction on the fuel: the loop accepts a run of general names, and the pool takes
the DNS names among them in order until it is full. -/
theorem sanLoop_ok {n idx : Nat} {san san' : List Slice} (hidx : idx ≤ e)
    (hpool : san.length ≤ x509MaxSan) (h : sanLoop der n idx e san = .ok san') :
    ∃ names : List (Nat × Bytes), At der idx (names.flatMap fun n => tlv n.1 n.2) ∧
      idx + (names.flatMap fun n => tlv n.1 n.2).length = e ∧
      (∀ n ∈ names, n.1 < 256) ∧ (∀ name ∈ dnsNames names, DnsName name) ∧
      poolNames der san' = (poolNames der san ++ dnsNames names).take x509MaxSan := by
  induction n generalizing idx san with
  | zero => cases h
  | succ n ih =>
      unfold sanLoop at h
      by_cases hmore : idx < e
      · rw [if_pos hmore] at h
        obtain ⟨tag, htag, h⟩ := except_bind_eq_ok.1 h
        obtain ⟨⟨len, j⟩, hheader, h⟩ := except_bind_eq_ok.1 h
        have htagLt := (byteAt_at.1 htag).1
        have helem := asnGetHeader_element htagLt he hheader
        have hle := helem.le
        dsimp only at h
        by_cases hdns : tag = asnSanDns
        · rw [if_pos hdns] at h
          obtain ⟨_, hsize, h⟩ := except_bind_eq_ok.1 h
          obtain ⟨nul, hnul, h⟩ := except_bind_eq_ok.1 h
          obtain ⟨_, hclean, h⟩ := except_bind_eq_ok.1 h
          have hsize := decodeIf_ok.1 hsize
          have hclean := decodeIf_ok.1 hclean
          have hnul := hasNul_ok (by omega) hnul
          have hname : DnsName (slice der j len) := by
            have hlen := helem.contents
            unfold x509MaxDnsName at hsize
            exact ⟨by omega, by omega, fun hmem => hclean (hnul.2 hmem)⟩
          have hdnsCons : ∀ rest, dnsNames ((tag, slice der j len) :: rest) =
              slice der j len :: dnsNames rest := by
            intro rest
            simp [dnsNames, hdns]
          have hcons : ∀ san₁, san₁.length ≤ x509MaxSan →
              sanLoop der n (j + len) e san₁ = .ok san' →
              (∀ rest, (poolNames der san₁ ++ dnsNames rest).take x509MaxSan =
                (poolNames der san ++ slice der j len :: dnsNames rest).take x509MaxSan) →
              ∃ names : List (Nat × Bytes), At der idx (names.flatMap fun n => tlv n.1 n.2) ∧
                idx + (names.flatMap fun n => tlv n.1 n.2).length = e ∧
                (∀ n ∈ names, n.1 < 256) ∧ (∀ name ∈ dnsNames names, DnsName name) ∧
                poolNames der san' = (poolNames der san ++ dnsNames names).take x509MaxSan := by
            intro san₁ hpool₁ hloop htake
            obtain ⟨names, hat, hend, htags, hnames, hsan⟩ := ih hle hpool₁ hloop
            refine ⟨(tag, slice der j len) :: names, ?_, ?_, ?_, ?_, ?_⟩
            · rw [List.flatMap_cons]
              exact helem.inDer.append_at hat helem.next
            · rw [List.flatMap_cons, List.length_append, ← Nat.add_assoc, helem.next]
              exact hend
            · exact List.forall_mem_cons.2 ⟨htagLt, htags⟩
            · rw [hdnsCons]
              exact List.forall_mem_cons.2 ⟨hname, hnames⟩
            · rw [hsan, hdnsCons]
              exact htake names
          by_cases hroom : san.length < x509MaxSan
          · rw [if_pos hroom] at h
            refine hcons _ (by simp; omega) h fun rest => ?_
            simp [poolNames, Slice.bytes]
          · rw [if_neg hroom] at h
            refine hcons _ hpool h fun rest => ?_
            have hfull : (poolNames der san).length = x509MaxSan := by
              rw [poolNames, List.length_map]
              omega
            rw [List.take_left' hfull, List.take_left' hfull]
        · rw [if_neg hdns] at h
          obtain ⟨names, hat, hend, htags, hnames, hsan⟩ := ih hle hpool h
          have hskip : dnsNames ((tag, slice der j len) :: names) = dnsNames names := by
            simp [dnsNames, hdns]
          refine ⟨(tag, slice der j len) :: names, ?_, ?_, ?_, ?_, ?_⟩
          · rw [List.flatMap_cons]
            exact helem.inDer.append_at hat helem.next
          · rw [List.flatMap_cons, List.length_append, ← Nat.add_assoc, helem.next]
            exact hend
          · exact List.forall_mem_cons.2 ⟨htagLt, htags⟩
          · rw [hskip]
            exact hnames
          · rw [hsan, hskip]
      · rw [if_neg hmore] at h
        cases h
        refine ⟨[], At.nil (by omega), by simp; omega, by simp, by simp [dnsNames], ?_⟩
        rw [show dnsNames [] = [] from rfl, List.append_nil, List.take_of_length_le]
        rw [poolNames, List.length_map]
        exact hpool

/-- The reader of subjectAltName accepts one sequence of general names. -/
theorem extAltName_ok {idx : Nat} {x x' : X509Exts} {crit : Bool} (hnone : x.san = [])
    (h : extAltName der idx e x crit = .ok x') :
    ∃ names san, AltName (slice der idx (e - idx)) names ∧
      poolNames der san = (dnsNames names).take x509MaxSan ∧
      x' = { x with
        flags := { x.flags with sanSet := true, sanCrit := x.flags.sanCrit || crit }
        san := san } := by
  unfold extAltName at h
  obtain ⟨⟨seqLen, j⟩, hseq, h⟩ := except_bind_eq_ok.1 h
  obtain ⟨_, hfill, h⟩ := except_bind_eq_ok.1 h
  obtain ⟨_, hne, h⟩ := except_bind_eq_ok.1 h
  obtain ⟨san, hloop, h⟩ := except_bind_eq_ok.1 h
  cases h
  have hfill : j + seqLen = e := not_not.1 (decodeIf_ok.1 hfill)
  have hne := decodeIf_ok.1 hne
  have helem := asnGetHeader_element (by decide) he hseq
  rw [hnone] at hloop
  have hin : j ≤ e := by omega
  obtain ⟨names, hat, hend, htags, hnames, hsan⟩ := sanLoop_ok he hin (Nat.zero_le _) hloop
  have hcontents := hat.slice_eq hend
  rw [← hfill, Nat.add_sub_cancel_left] at hcontents
  refine ⟨names, san, ⟨?_, htags, hnames, ?_⟩, hsan, rfl⟩
  · rintro rfl
    exact hne (by simp at hend; omega)
  · rw [← hcontents]
    exact helem.inDer.slice_eq (helem.next.trans hfill)

end San

end WolfNano
