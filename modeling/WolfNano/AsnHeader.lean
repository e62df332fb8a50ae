/-
`wn_Asn_GetLength` and `wn_Asn_GetHeader` as calls, with 32-bit indices that wrap and out
parameters: what they accept is one header for each tag and length, and a call that fails
leaves its caller's index and length alone.
-/
import WolfNano.DerWalk
import WolfNano.Duplex.DerForm

namespace WolfNano

open Duplex

/-- `WOLFNANO_E_X509_DECODE`. -/
def eX509Decode : Int := -11

/-- What a call returns, and what it leaves in `*inOutIdx` and `*len`. -/
structure HeaderCall where
  ret : Int
  idx : UInt32
  len : Int
  deriving DecidableEq

/-- The loop over the length octets; `none` is a read outside the buffer. -/
def wnLengthOctets (der : Bytes) : Nat → UInt32 → Nat → Option (UInt32 × Nat)
  | 0, idx, length => some (idx, length)
  | bytes + 1, idx, length => do
      let b ← der[idx.toNat]?
      wnLengthOctets der bytes (idx + 1) (length <<< 8 ||| b.toNat)

/-- The bounds check at the end of `wn_Asn_GetLength`. -/
def wnLengthDone (inOutIdx maxIdx : UInt32) (check : Bool) (idx : UInt32) (length : Nat) :
    HeaderCall :=
  if check ∧ idx + UInt32.ofNat length > maxIdx then ⟨eX509Decode, inOutIdx, 0⟩
  else ⟨length, idx, length⟩

/-- `wn_Asn_GetLength`; `*len` is zero when it fails. -/
def wnAsnGetLength (der : Bytes) (inOutIdx maxIdx : UInt32) (check : Bool) : Option HeaderCall :=
  if inOutIdx + 1 > maxIdx then
    some ⟨eX509Decode, inOutIdx, 0⟩
  else do
    let b ← der[inOutIdx.toNat]?
    let idx := inOutIdx + 1
    if b ≥ 0x80 then
      let bytes := (b &&& 0x7F).toUInt32
      if bytes = 0 ∨ bytes > 3 ∨ idx + bytes > maxIdx then
        some ⟨eX509Decode, inOutIdx, 0⟩
      else do
        let first ← der[idx.toNat]?
        -- no leading zero, and the long form only from 128 on
        if first = 0 then
          some ⟨eX509Decode, inOutIdx, 0⟩
        else do
          let (idx, length) ← wnLengthOctets der bytes.toNat idx 0
          if length < 0x80 then
            some ⟨eX509Decode, inOutIdx, 0⟩
          else
            some (wnLengthDone inOutIdx maxIdx check idx length)
    else
      some (wnLengthDone inOutIdx maxIdx check idx b.toNat)

/-- `wn_Asn_GetHeader`; `len` is what the caller's variable held. -/
def wnAsnGetHeader (der : Bytes) (tag : UInt8) (inOutIdx : UInt32) (len : Int)
    (maxIdx : UInt32) : Option HeaderCall :=
  if inOutIdx + 1 > maxIdx then
    some ⟨eX509Decode, inOutIdx, len⟩
  else do
    let t ← der[inOutIdx.toNat]?
    if t ≠ tag then
      some ⟨eX509Decode, inOutIdx, len⟩
    else do
      let call ← wnAsnGetLength der (inOutIdx + 1) maxIdx true
      if call.ret ≥ 0 then
        some ⟨call.len, call.idx, call.len⟩
      else
        some ⟨call.ret, inOutIdx, len⟩

/-! ### The calls and the functions on numbers -/

/-- A result on numbers as a call leaves it. -/
def asCall (idx : UInt32) (len : Int) : Asn (Nat × Nat) → Option HeaderCall
  | .ok (length, i) => some ⟨length, UInt32.ofNat i, length⟩
  | .error .fault => none
  | .error _ => some ⟨eX509Decode, idx, len⟩

section Words

variable {der : Bytes} {idx maxIdx : UInt32}

theorem toNat_next (h : idx.toNat + 1 < 2 ^ 32) : (idx + 1).toNat = idx.toNat + 1 := by
  rw [UInt32.toNat_add]
  exact Nat.mod_eq_of_lt h

theorem shift_octet (length : Nat) (b : UInt8) :
    length <<< 8 ||| b.toNat = length * 256 + b.toNat := by
  rw [← Nat.shiftLeft_add_eq_or_of_lt b.toNat_lt, Nat.shiftLeft_eq]

theorem lengthOctets_error {i n length : Nat} {e : X509Err}
    (h : lengthOctets der i n length = .error e) : e = .fault := by
  induction n generalizing i length with
  | zero => cases h
  | succ n ih =>
      rw [lengthOctets, byteAt] at h
      cases hget : der[i]? with
      | none =>
          rw [hget] at h
          cases h
          rfl
      | some b =>
          rw [hget] at h
          exact ih h

theorem lengthOctets_lt {i n length value : Nat}
    (h : lengthOctets der i n length = .ok value) : value < (length + 1) * 256 ^ n := by
  induction n generalizing i length with
  | zero =>
      cases h
      omega
  | succ n ih =>
      rw [lengthOctets, except_bind_eq_ok] at h
      obtain ⟨b, hb, hrest⟩ := h
      have hlt := (byteAt_at.1 hb).1
      calc value < (length * 256 + b + 1) * 256 ^ n := ih hrest
        _ ≤ ((length + 1) * 256) * 256 ^ n := Nat.mul_le_mul_right _ (by omega)
        _ = (length + 1) * 256 ^ (n + 1) := by rw [Nat.mul_assoc, Nat.pow_succ, Nat.mul_comm 256]

theorem wnLengthOctets_eq {n length : Nat} (h : idx.toNat + n < 2 ^ 32) :
    wnLengthOctets der n idx length =
      match lengthOctets der idx.toNat n length with
      | .ok value => some (UInt32.ofNat (idx.toNat + n), value)
      | .error _ => none := by
  induction n generalizing idx length with
  | zero => simp [wnLengthOctets, lengthOctets]
  | succ n ih =>
      rw [wnLengthOctets, lengthOctets, byteAt]
      cases hget : der[idx.toNat]? with
      | none => rfl
      | some b =>
          have hnext : (idx + 1).toNat = idx.toNat + 1 := toNat_next (by omega)
          have hrest := @ih (idx + 1) (length * 256 + b.toNat) (by omega)
          rw [hnext, Nat.add_right_comm] at hrest
          exact (congrArg _ (shift_octet length b)).trans hrest

theorem asCall_decodeIf {len : Int} {c : Prop} [Decidable c] {f : Unit → Asn (Nat × Nat)} :
    asCall idx len (decodeIf c >>= f) =
      if c then some ⟨eX509Decode, idx, len⟩ else asCall idx len (f ()) := by
  unfold decodeIf
  split
  · rfl
  · rfl

theorem asCall_byteAt {len : Int} {i : Nat} {f : Nat → Asn (Nat × Nat)} :
    asCall idx len (byteAt der i >>= f) = der[i]? >>= fun b => asCall idx len (f b.toNat) := by
  unfold byteAt
  cases der[i]? with
  | none => rfl
  | some b => rfl

/-- The number of octets that follow the first one. -/
theorem octets_count {b : UInt8} (h : b ≥ 0x80) :
    ((b &&& 0x7F).toUInt32).toNat = b.toNat - 0x80 := by
  have hlt := b.toNat_lt
  have hge : 0x80 ≤ b.toNat := h
  rw [UInt8.toNat_toUInt32, UInt8.toNat_and]
  change b.toNat &&& (2 ^ 7 - 1) = _
  rw [Nat.and_two_pow_sub_one_eq_mod]
  omega

theorem wnLengthDone_eq {i : UInt32} {length : Nat} (hi : i.toNat + length < 2 ^ 32) :
    some (wnLengthDone idx maxIdx true i length) =
      if i.toNat + length > maxIdx.toNat then some ⟨eX509Decode, idx, 0⟩
      else some ⟨length, i, length⟩ := by
  have hsum : (i + UInt32.ofNat length).toNat = i.toNat + length := by
    rw [UInt32.toNat_add, UInt32.toNat_ofNat', Nat.mod_eq_of_lt (a := length) (by omega),
      Nat.mod_eq_of_lt hi]
  unfold wnLengthDone
  by_cases hend : i.toNat + length > maxIdx.toNat
  · have hword : i + UInt32.ofNat length > maxIdx := by
      rw [gt_iff_lt, UInt32.lt_iff_toNat_lt, hsum]
      exact hend
    rw [if_pos ⟨rfl, hword⟩, if_pos hend]
  · have hword : ¬ i + UInt32.ofNat length > maxIdx := by
      rw [gt_iff_lt, UInt32.lt_iff_toNat_lt, hsum]
      exact hend
    rw [if_neg (fun hand => hword hand.2), if_neg hend]

/-- With an index below the last word and a bound of 31 bits no sum wraps. -/
theorem wnAsnGetLength_eq (hidx : idx.toNat + 1 < 2 ^ 32) (hmax : maxIdx.toNat < 2 ^ 31) :
    wnAsnGetLength der idx maxIdx true =
    asCall idx 0 (asnGetLength der idx.toNat maxIdx.toNat) := by
  have hnext := toNat_next hidx
  unfold wnAsnGetLength asnGetLength
  rw [asCall_decodeIf]
  have hroom : (idx + 1 > maxIdx) ↔ idx.toNat + 1 > maxIdx.toNat := by
    rw [gt_iff_lt, UInt32.lt_iff_toNat_lt, hnext]
  by_cases hshort : idx.toNat + 1 > maxIdx.toNat
  · rw [if_pos (hroom.2 hshort), if_pos hshort]
  · rw [if_neg (mt hroom.1 hshort), if_neg hshort, asCall_byteAt]
    refine congrArg _ (funext fun b => ?_)
    dsimp only
    have hlong : (b ≥ 0x80) ↔ b.toNat ≥ 0x80 := Iff.rfl
    by_cases hb : b.toNat ≥ 0x80
    · rw [if_pos (hlong.2 hb), if_pos hb, asCall_decodeIf]
      have hcount := octets_count (hlong.2 hb)
      have hb₂ := b.toNat_lt
      generalize (b &&& 0x7F).toUInt32 = bytes at hcount ⊢
      have hends : (idx + 1 + bytes).toNat = idx.toNat + 1 + (b.toNat - 0x80) := by
        rw [UInt32.toNat_add, hnext, hcount, Nat.mod_eq_of_lt (by omega)]
      have hbad : (bytes = 0 ∨ bytes > 3 ∨ idx + 1 + bytes > maxIdx) ↔
          (b.toNat - 0x80 = 0 ∨ b.toNat - 0x80 > 3 ∨
            idx.toNat + 1 + (b.toNat - 0x80) > maxIdx.toNat) := by
        rw [← UInt32.toNat_inj, gt_iff_lt, UInt32.lt_iff_toNat_lt, gt_iff_lt,
          UInt32.lt_iff_toNat_lt, hends, hcount]
        rfl
      by_cases hcond : b.toNat - 0x80 = 0 ∨ b.toNat - 0x80 > 3 ∨
          idx.toNat + 1 + (b.toNat - 0x80) > maxIdx.toNat
      · rw [if_pos (hbad.2 hcond), if_pos hcond]
      · rw [if_neg (mt hbad.1 hcond), if_neg hcond, asCall_byteAt, hnext]
        refine congrArg _ (funext fun first => ?_)
        rw [asCall_decodeIf]
        have hzero : (first = 0) ↔ first.toNat = 0 := by rw [← UInt8.toNat_inj]; rfl
        by_cases hlead : first.toNat = 0
        · rw [if_pos (hzero.2 hlead), if_pos hlead]
        · rw [if_neg (mt hzero.1 hlead), if_neg hlead, hcount,
            wnLengthOctets_eq (by rw [hnext]; omega), hnext]
          cases hvalue : lengthOctets der (idx.toNat + 1) (b.toNat - 0x80) 0 with
          | error e =>
              cases lengthOctets_error hvalue
              rfl
          | ok value =>
              have hsmall : value < 2 ^ 24 := by
                have hlt := lengthOctets_lt hvalue
                have hpow : 256 ^ (b.toNat - 0x80) ≤ 256 ^ 3 :=
                  Nat.pow_le_pow_right (by decide) (by omega)
                omega
              have hword : (UInt32.ofNat (idx.toNat + 1 + (b.toNat - 0x80))).toNat =
                  idx.toNat + 1 + (b.toNat - 0x80) := by
                rw [UInt32.toNat_ofNat', Nat.mod_eq_of_lt (by omega)]
              change (if value < 0x80 then _ else some _) = asCall idx 0 (decodeIf _ >>= _)
              rw [asCall_decodeIf]
              by_cases hmin : value < 0x80
              · rw [if_pos hmin, if_pos hmin]
              · rw [if_neg hmin, if_neg hmin, asCall_decodeIf]
                dsimp only
                rw [wnLengthDone_eq (by omega), hword]
                rfl
    · rw [if_neg (mt hlong.1 hb), if_neg hb, asCall_decodeIf, wnLengthDone_eq (by omega), hnext]
      by_cases hend : idx.toNat + 1 + b.toNat > maxIdx.toNat
      · rw [if_pos hend, if_pos hend]
      · rw [if_neg hend, if_neg hend]
        change _ = some (HeaderCall.mk b.toNat (UInt32.ofNat (idx.toNat + 1)) b.toNat)
        rw [← hnext, UInt32.ofNat_toNat]

/-- `wn_Asn_GetHeader` has results of its own on failure only. -/
theorem wnAsnGetHeader_eq {tag : UInt8} {len : Int} (hidx : idx.toNat + 1 < 2 ^ 32)
    (hmax : maxIdx.toNat < 2 ^ 31) :
    wnAsnGetHeader der tag idx len maxIdx =
      asCall idx len (asnGetHeader der tag.toNat idx.toNat maxIdx.toNat) := by
  have hnext := toNat_next hidx
  unfold wnAsnGetHeader asnGetHeader
  rw [asCall_decodeIf]
  have hroom : (idx + 1 > maxIdx) ↔ idx.toNat + 1 > maxIdx.toNat := by
    rw [gt_iff_lt, UInt32.lt_iff_toNat_lt, hnext]
  by_cases hshort : idx.toNat + 1 > maxIdx.toNat
  · rw [if_pos (hroom.2 hshort), if_pos hshort]
  · rw [if_neg (mt hroom.1 hshort), if_neg hshort, asCall_byteAt]
    refine congrArg _ (funext fun t => ?_)
    rw [asCall_decodeIf]
    by_cases htag : t = tag
    · subst htag
      rw [if_neg (not_not.2 rfl), if_neg (not_not.2 rfl),
        wnAsnGetLength_eq (by rw [hnext]; omega) hmax, hnext]
      cases asnGetLength der (idx.toNat + 1) maxIdx.toNat with
      | ok r =>
          exact if_pos (e := some ⟨r.1, idx, len⟩) (Int.natCast_nonneg r.1)
      | error e =>
          cases e with
          | fault => rfl
          | invalidArg | x509Decode | x509CritExt | badCert => rfl
    · rw [if_pos htag, if_pos (mt UInt8.toNat_inj.1 htag)]

end Words

/-! ### No read outside the buffer -/

section NoFault

variable {der : Bytes} {i maxIdx : Nat}

theorem byteAt_inside {e : X509Err} (hi : i < der.length) : byteAt der i ≠ .error e := by
  unfold byteAt
  rw [List.getElem?_eq_getElem hi]
  exact nofun

theorem lengthOctets_inside {n length : Nat} {e : X509Err} (hi : i + n ≤ der.length) :
    lengthOctets der i n length ≠ .error e := by
  induction n generalizing i length with
  | zero => exact nofun
  | succ n ih =>
      rw [lengthOctets, Ne, except_bind_eq_error]
      rintro (hread | ⟨b, -, hrest⟩)
      · exact byteAt_inside (by omega) hread
      · exact ih (by omega) hrest

theorem decodeIf_error {c : Prop} [Decidable c] {e : X509Err} (h : decodeIf c = .error e) :
    e = .x509Decode := by
  unfold decodeIf at h
  split at h
  · cases h
    rfl
  · cases h

theorem asnGetLength_error {e : X509Err} (hmax : maxIdx ≤ der.length)
    (h : asnGetLength der i maxIdx = .error e) : e = .x509Decode := by
  unfold asnGetLength at h
  rcases except_bind_eq_error.1 h with hroom | ⟨_, hroom, h⟩
  · exact decodeIf_error hroom
  have hi := decodeIf_ok.1 hroom
  rcases except_bind_eq_error.1 h with hread | ⟨b, -, h⟩
  · exact absurd hread (byteAt_inside (by omega))
  dsimp only at h
  split at h
  · rcases except_bind_eq_error.1 h with hcount | ⟨_, hcount, h⟩
    · exact decodeIf_error hcount
    have hin := decodeIf_ok.1 hcount
    rcases except_bind_eq_error.1 h with hread | ⟨first, -, h⟩
    · exact absurd hread (byteAt_inside (by omega))
    rcases except_bind_eq_error.1 h with hlead | ⟨_, -, h⟩
    · exact decodeIf_error hlead
    rcases except_bind_eq_error.1 h with hoctets | ⟨value, -, h⟩
    · exact absurd hoctets (lengthOctets_inside (by omega))
    rcases except_bind_eq_error.1 h with hmin | ⟨_, -, h⟩
    · exact decodeIf_error hmin
    rcases except_bind_eq_error.1 h with hend | ⟨_, -, h⟩
    · exact decodeIf_error hend
    · cases h
  · rcases except_bind_eq_error.1 h with hend | ⟨_, -, h⟩
    · exact decodeIf_error hend
    · cases h

theorem asnGetHeader_error {tag : Nat} {e : X509Err} (hmax : maxIdx ≤ der.length)
    (h : asnGetHeader der tag i maxIdx = .error e) : e = .x509Decode := by
  unfold asnGetHeader at h
  rcases except_bind_eq_error.1 h with hroom | ⟨_, hroom, h⟩
  · exact decodeIf_error hroom
  have hi := decodeIf_ok.1 hroom
  rcases except_bind_eq_error.1 h with hread | ⟨t, -, h⟩
  · exact absurd hread (byteAt_inside (by omega))
  rcases except_bind_eq_error.1 h with htag | ⟨_, -, h⟩
  · exact decodeIf_error htag
  · exact asnGetLength_error hmax h

end NoFault

/-! ### Headers -/

/-- A bound inside the buffer, and a start index below the last 32-bit number, as every
index is into a buffer with a 32-bit size. -/
structure InBuffer (der : Bytes) (start maxIdx : UInt32) : Prop where
  bound : maxIdx.toNat ≤ 0x7FFFFFFF
  bound_in : maxIdx.toNat ≤ der.length
  start_lt : start.toNat + 1 < 2 ^ 32

/-- The start index that `InBuffer` leaves out: the bounds check adds 1, wraps to 0 and
passes, and the tag is read at `in[0xFFFFFFFF]`, outside every buffer with a 32-bit size. -/
theorem wnAsnGetHeader_wraps {der : Bytes} (tag : UInt8) (len : Int) (maxIdx : UInt32)
    (hsize : der.length < 2 ^ 32) : wnAsnGetHeader der tag 0xFFFFFFFF len maxIdx = none := by
  have hpasses : ¬ (0xFFFFFFFF : UInt32) + 1 > maxIdx :=
    UInt32.not_lt.2 (UInt32.le_iff_toNat_le.2 (Nat.zero_le _))
  have houtside : der[(0xFFFFFFFF : UInt32).toNat]? = none :=
    List.getElem?_eq_none (Nat.le_of_lt_succ hsize)
  rw [wnAsnGetHeader, if_neg hpasses, houtside]
  rfl

/-- The tag, and the length in its shortest form, in the short form or in at most three
octets. -/
def IsHeader (tag : UInt8) (length : Nat) (hdr : Bytes) : Prop :=
  ∃ b, DerLength length b ∧ b.length ≤ 4 ∧ hdr = tag :: b

theorem isHeader_iff {tag : UInt8} {length : Nat} {hdr : Bytes} :
    IsHeader tag length hdr ↔ length < 2 ^ 24 ∧ hdr = derHeader tag.toNat length := by
  rw [derHeader, UInt8.ofNat_toNat]
  constructor
  · rintro ⟨b, hform, hfour, rfl⟩
    have hlt : length < 2 ^ 24 := by
      rcases hform with ⟨hshort, -⟩ | ⟨-, octets, rfl, -, -, rfl⟩
      · exact Nat.lt_trans hshort (by decide)
      · rw [List.length_cons] at hfour
        calc ofBE octets < 256 ^ octets.length := ofBE_lt octets
          _ ≤ 256 ^ 3 := Nat.pow_le_pow_right (by decide) (Nat.le_of_succ_le_succ hfour)
    exact ⟨hlt, congrArg _ (derLength_form hform (derLength_derLen hlt))⟩
  · rintro ⟨hlt, rfl⟩
    exact ⟨_, derLength_derLen hlt, derLen_length_le length, rfl⟩

section Calls

variable {der : Bytes} {tag : UInt8} {start maxIdx : UInt32} {len : Int}

/-- What a call succeeds with. -/
theorem wnAsnGetHeader_ok (hin : InBuffer der start maxIdx) {length : Nat} {j : UInt32} :
    wnAsnGetHeader der tag start len maxIdx = some ⟨length, j, length⟩ ↔
      ∃ hdr, IsHeader tag length hdr ∧ At der start.toNat hdr ∧
        j.toNat = start.toNat + hdr.length ∧ j.toNat + length ≤ maxIdx.toNat := by
  have hmax := hin.bound
  rw [wnAsnGetHeader_eq hin.start_lt (by omega)]
  have hnumbers : asCall start len (asnGetHeader der tag.toNat start.toNat maxIdx.toNat) =
      some ⟨length, j, length⟩ ↔
        asnGetHeader der tag.toNat start.toNat maxIdx.toNat = .ok (length, j.toNat) := by
    constructor
    · intro h
      cases hres : asnGetHeader der tag.toNat start.toNat maxIdx.toNat with
      | error e =>
          cases asnGetHeader_error hin.bound_in hres
          rw [hres] at h
          cases h
      | ok r =>
          obtain ⟨value, i⟩ := r
          rw [hres] at h
          have hcall := Option.some.inj h
          rw [HeaderCall.mk.injEq] at hcall
          obtain ⟨hvalue, rfl, -⟩ := hcall
          obtain rfl := Int.ofNat.inj hvalue
          obtain ⟨-, -, -, hend⟩ := (asnGetHeader_ok tag.toNat_lt).1 hres
          rw [UInt32.toNat_ofNat', Nat.mod_eq_of_lt (by omega)]
    · intro h
      rw [h, asCall, UInt32.ofNat_toNat]
  rw [hnumbers, asnGetHeader_ok tag.toNat_lt]
  constructor
  · rintro ⟨hlt, hat, hj, hend⟩
    exact ⟨_, isHeader_iff.2 ⟨hlt, rfl⟩, hat, hj, hend⟩
  · rintro ⟨hdr, hhdr, hat, hj, hend⟩
    obtain ⟨hlt, rfl⟩ := isHeader_iff.1 hhdr
    exact ⟨hlt, hat, hj, hend⟩

/-- A call succeeds with a length and leaves it in `*len`, or it fails and changes nothing. -/
theorem wnAsnGetHeader_cases (tag : UInt8) (len : Int) (hin : InBuffer der start maxIdx) :
    (∃ (length : Nat) (j : UInt32),
        wnAsnGetHeader der tag start len maxIdx = some ⟨length, j, length⟩) ∨
      wnAsnGetHeader der tag start len maxIdx = some ⟨eX509Decode, start, len⟩ := by
  have hmax := hin.bound
  rw [wnAsnGetHeader_eq hin.start_lt (by omega)]
  cases hres : asnGetHeader der tag.toNat start.toNat maxIdx.toNat with
  | ok r => exact .inl ⟨r.1, UInt32.ofNat r.2, rfl⟩
  | error e =>
      cases asnGetHeader_error hin.bound_in hres
      exact .inr rfl

end Calls

section Headers

variable {tag : UInt8} {length : Nat} {pre hdr contents : Bytes}

theorem toNat_small {n : Nat} (hn : n ≤ 0x7FFFFFFF) : (UInt32.ofNat n).toNat = n := by
  rw [UInt32.toNat_ofNat', Nat.mod_eq_of_lt (by omega)]

theorem inBuffer_front {b : Bytes} (rest : Bytes) {n : Nat} (hn : n ≤ b.length)
    (hsize : b.length ≤ 0x7FFFFFFF) :
    InBuffer (b ++ rest) (UInt32.ofNat n) (UInt32.ofNat b.length) := by
  refine ⟨?_, ?_, ?_⟩
  · rw [toNat_small hsize]
    exact hsize
  · rw [toNat_small hsize, List.length_append]
    exact Nat.le_add_right _ _
  · rw [toNat_small (by omega)]
    omega

/-- A header is decoded wherever it stands in front of its contents. -/
theorem isHeader_decodes (rest : Bytes) (len : Int) (hhdr : IsHeader tag length hdr)
    (hlen : contents.length = length) (hsize : (pre ++ hdr ++ contents).length ≤ 0x7FFFFFFF) :
    wnAsnGetHeader (pre ++ hdr ++ contents ++ rest) tag (UInt32.ofNat pre.length) len
        (UInt32.ofNat (pre ++ hdr ++ contents).length) =
      some ⟨length, UInt32.ofNat (pre ++ hdr).length, length⟩ := by
  have htotal : (pre ++ hdr ++ contents).length = pre.length + hdr.length + length := by
    rw [List.length_append, List.length_append, hlen]
  have hpre := toNat_small (n := pre.length) (by omega)
  have hj := toNat_small (n := (pre ++ hdr).length) (by rw [List.length_append]; omega)
  refine (wnAsnGetHeader_ok (inBuffer_front rest (by omega) hsize)).2 ⟨hdr, hhdr, ?_, ?_, ?_⟩
  · rw [hpre, List.append_assoc (pre ++ hdr)]
    exact At.of_eq_append pre (contents ++ rest) rfl rfl
  · rw [hj, hpre, List.length_append]
  · rw [hj, toNat_small hsize, htotal, List.length_append]

variable (tag length hdr) in
/-- Somewhere `hdr` is accepted as the header of contents of this length. -/
def Accepted : Prop :=
  ∃ (der : Bytes) (start maxIdx j : UInt32) (len : Int), InBuffer der start maxIdx ∧
    wnAsnGetHeader der tag start len maxIdx = some ⟨length, j, length⟩ ∧
      slice der start.toNat (j.toNat - start.toNat) = hdr

theorem accepted_iff : Accepted tag length hdr ↔ IsHeader tag length hdr := by
  constructor
  · rintro ⟨der, start, maxIdx, j, len, hin, hcall, rfl⟩
    obtain ⟨hdr, hhdr, hat, hj, -⟩ := (wnAsnGetHeader_ok hin).1 hcall
    rw [At.slice_eq hat hj.symm]
    exact hhdr
  · intro hhdr
    obtain ⟨hlt, heq⟩ := isHeader_iff.1 hhdr
    have hfive : hdr.length ≤ 5 := by
      rw [heq, derHeader_length]
      have hfour := derLen_length_le length
      omega
    have hsize : ([] ++ hdr ++ zeros length).length ≤ 0x7FFFFFFF := by
      rw [List.nil_append, List.length_append, zeros_length]
      omega
    refine ⟨_, _, _, _, 0, inBuffer_front [] (Nat.zero_le _) hsize,
      isHeader_decodes [] 0 hhdr (zeros_length length) hsize, ?_⟩
    have hat : At ([] ++ hdr ++ zeros length ++ []) 0 hdr :=
      At.of_eq_append [] (zeros length) (List.append_nil _) rfl
    have hj : (UInt32.ofNat ([] ++ hdr).length).toNat = hdr.length :=
      toNat_small (n := hdr.length) (by omega)
    exact At.slice_eq hat ((Nat.zero_add _).trans hj.symm)

end Headers

/-- Headers are decoded canonically. -/
structure CanonicalHeaders : Prop where
  /-- A call reads nothing outside the buffer, and what it returns tells what it did. -/
  returns : ∀ {der : Bytes} {start maxIdx : UInt32} (tag : UInt8) (len : Int),
    InBuffer der start maxIdx →
      ∃ call, wnAsnGetHeader der tag start len maxIdx = some call ∧
        (call.ret < 0 → call.idx = start ∧ call.len = len) ∧
        (0 ≤ call.ret → call.len = call.ret ∧ start.toNat + 2 ≤ call.idx.toNat)
  accepts_iff : ∀ {der : Bytes} {start maxIdx : UInt32} (tag : UInt8) (len : Int),
    InBuffer der start maxIdx → ∀ (length : Nat) (j : UInt32),
      wnAsnGetHeader der tag start len maxIdx = some ⟨length, j, length⟩ ↔
        ∃ hdr, IsHeader tag length hdr ∧ At der start.toNat hdr ∧
          j.toNat = start.toNat + hdr.length ∧ j.toNat + length ≤ maxIdx.toNat
  one_header : ∀ (tag : UInt8) (length : Nat), length < 2 ^ 24 →
    ∃! hdr, Accepted tag length hdr
  decodes : ∀ {tag : UInt8} {length : Nat} {pre hdr contents : Bytes} (rest : Bytes) (len : Int),
    IsHeader tag length hdr → contents.length = length →
      (pre ++ hdr ++ contents).length ≤ 0x7FFFFFFF →
        wnAsnGetHeader (pre ++ hdr ++ contents ++ rest) tag (UInt32.ofNat pre.length) len
            (UInt32.ofNat (pre ++ hdr ++ contents).length) =
          some ⟨length, UInt32.ofNat (pre ++ hdr).length, length⟩

theorem canonical_headers : CanonicalHeaders where
  returns := by
    intro der start maxIdx tag len hin
    rcases wnAsnGetHeader_cases tag len hin with ⟨length, j, hcall⟩ | hcall
    · refine ⟨_, hcall, fun hneg => absurd hneg (Int.not_lt.2 (Int.natCast_nonneg length)), ?_⟩
      intro _
      obtain ⟨hdr, hhdr, -, hj, -⟩ := (wnAsnGetHeader_ok hin).1 hcall
      refine ⟨rfl, ?_⟩
      obtain ⟨-, rfl⟩ := isHeader_iff.1 hhdr
      have hpos := derLen_length_pos length
      rw [derHeader_length] at hj
      dsimp only
      omega
    · exact ⟨_, hcall, fun _ => ⟨rfl, rfl⟩, fun hpos => absurd hpos
        (show ¬ (0 : Int) ≤ eX509Decode by decide)⟩
  accepts_iff := fun _ _ hin _ _ => wnAsnGetHeader_ok hin
  one_header := by
    intro tag length hlt
    refine ⟨derHeader tag.toNat length, accepted_iff.2 (isHeader_iff.2 ⟨hlt, rfl⟩), ?_⟩
    intro hdr haccepted
    exact (isHeader_iff.1 (accepted_iff.1 haccepted)).2
  decodes := isHeader_decodes

end WolfNano
