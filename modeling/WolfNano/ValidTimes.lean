/-
Validity times: the decoder of the two Time formats and the day count, against the calendar.
-/
import WolfNano.Calendar
import WolfNano.ChainRule
import WolfNano.DerWalk

namespace WolfNano

open Duplex Calendar

/-! ### The instants -/

/-- A point of time: a date and a time of day, with room for a leap second. -/
structure Instant where
  date : Date
  hour : Nat
  minute : Nat
  second : Nat
  deriving DecidableEq, Repr

namespace Instant

structure Valid (t : Instant) : Prop where
  date : t.date.Valid
  hour : t.hour ≤ 23
  minute : t.minute ≤ 59
  second : t.second ≤ 60

/-- The seconds from 1970-01-01 00:00:00. -/
def epoch (t : Instant) : Int :=
  t.date.number * 86400 + t.hour * 3600 + t.minute * 60 + t.second

end Instant

/-- Two decimal digits. -/
def twoDigits (n : Nat) : Bytes := [UInt8.ofNat (48 + n / 10), UInt8.ofNat (48 + n % 10)]

namespace Instant

/-- `MMDDHHMMSSZ` -/
def fields (t : Instant) : Bytes :=
  twoDigits t.date.month ++ twoDigits t.date.day ++ twoDigits t.hour ++ twoDigits t.minute ++
    twoDigits t.second ++ [90]

/-- UTCTime, `YYMMDDHHMMSSZ`. -/
def utcTlv (t : Instant) : Bytes := [0x17, 13] ++ twoDigits (t.date.year % 100).toNat ++ t.fields

/-- GeneralizedTime, `YYYYMMDDHHMMSSZ`. -/
def genTlv (t : Instant) : Bytes :=
  [0x18, 15] ++ twoDigits (t.date.year / 100).toNat ++ twoDigits (t.date.year % 100).toNat ++
    t.fields

/-- The TLV is this time in one of the two formats. -/
def IsTlv (B : X509Build) (t : Instant) (tlv : Bytes) : Prop :=
  t.Valid ∧ ((1950 ≤ t.date.year ∧ t.date.year ≤ 2049 ∧ tlv = t.utcTlv) ∨
    (B.genTime = true ∧ 0 ≤ t.date.year ∧ t.date.year ≤ 9999 ∧ tlv = t.genTlv))

end Instant

/-! ### The day count -/

/-- From March on, the months before the next one in closed form. -/
theorem daysBeforeMonth_march {y : Int} {n : Nat} (hn : 2 ≤ n) (hle : n ≤ 11) :
    daysBeforeMonth y n = (153 * (n - 2) + 2) / 5 + if Leap y then 60 else 59 := by
  induction n, hn using Nat.le_induction with
  | base =>
      by_cases hleap : Leap y
      · simp [daysBeforeMonth, monthLength, hleap]
      · simp [daysBeforeMonth, monthLength, hleap]
  | succ n hn ih =>
      rw [daysBeforeMonth, ih (by omega), monthLength, if_neg (by omega : ¬ n + 1 = 2)]
      have hlast : n ≤ 10 := by omega
      interval_cases n <;> simp <;> omega

/-- The day count of the source is the number of days in the calendar. -/
theorem daysFromCivil_eq {d : Date} (h : d.Valid) :
    daysFromCivil d.year d.month d.day = d.number := by
  obtain ⟨y, m, k⟩ := d
  obtain ⟨hpos, hle, -, -⟩ := h
  dsimp only at hpos hle ⊢
  have hera : ∀ z : Int, (if z ≥ 0 then z else z - 399).tdiv 400 = z / 400 := by
    intro z
    by_cases hz : z ≥ 0
    · rw [if_pos hz, Int.tdiv_eq_ediv_of_nonneg hz]
    · rw [if_neg hz]
      have hneg : (z - 399).tdiv 400 = -((399 - z) / 400) := by
        rw [← Int.tdiv_eq_ediv_of_nonneg (by omega), ← Int.neg_tdiv]
        congr 1
        omega
      rw [hneg]
      omega
  have hyears : ∀ z : Int, z / 400 * 146097 + ((z - z / 400 * 400) * 365 +
      (z - z / 400 * 400).tdiv 4 - (z - z / 400 * 400).tdiv 100) =
        365 * z + z / 4 - z / 100 + z / 400 := by
    intro z
    rw [Int.tdiv_eq_ediv_of_nonneg (by omega), Int.tdiv_eq_ediv_of_nonneg (by omega)]
    omega
  have hleap : Leap y ↔ y % 4 = 0 ∧ (y % 100 ≠ 0 ∨ y % 400 = 0) := Iff.rfl
  have hstart : daysBeforeYear 1970 = 719162 := by decide
  unfold daysFromCivil Date.number
  simp only [hera, hstart]
  by_cases hm : m ≤ 2
  · have hyear := hyears (y - 1)
    rw [if_pos (by omega : (m : Int) ≤ 2)]
    unfold daysBeforeYear
    interval_cases m
    · simp [daysBeforeMonth]
      omega
    · simp [daysBeforeMonth, monthLength]
      omega
  · have hyear := hyears y
    have hmonth := daysBeforeMonth_march (y := y) (n := m - 1) (by omega) (by omega)
    rw [if_neg (by omega : ¬ (m : Int) ≤ 2), if_pos (by omega : (m : Int) > 2),
      Int.tdiv_eq_ediv_of_nonneg (by omega : 0 ≤ 153 * ((m : Int) + -3) + 2)]
    unfold daysBeforeYear
    by_cases hl : Leap y
    · have hl' := hleap.1 hl
      rw [if_pos hl] at hmonth
      omega
    · have hl' := mt hleap.2 hl
      rw [if_neg hl] at hmonth
      omega

theorem daysInMonth_eq {y m : Nat} (hpos : 1 ≤ m) (hle : m ≤ 12) :
    daysInMonth y m = monthLength y m := by
  have hleap : Leap (y : Int) ↔ y % 4 = 0 ∧ (y % 100 ≠ 0 ∨ y % 400 = 0) := by
    unfold Leap
    omega
  unfold daysInMonth monthLength
  simp only [hleap]
  interval_cases m <;> simp

/-! ### The decoder -/

theorem ofNat_toNat_sub {b : UInt8} {n : Nat} (h : b.toNat = n) : UInt8.ofNat n = b := by
  rw [← h, UInt8.ofNat_toNat]

/-- Two digits at a place. -/
theorem dig2_here {pre rest : Bytes} {i n : Nat} (hi : pre.length = i) :
    dig2 (pre ++ rest) i = .ok n ↔ n < 100 ∧ ∃ post, rest = twoDigits n ++ post := by
  subst hi
  unfold dig2
  simp only [except_bind_eq_ok, except_pure_eq_ok, byteAt_ok, decodeIf_ok]
  constructor
  · rintro ⟨a, ⟨x, hx, rfl⟩, _, ha, b, ⟨z, hz, rfl⟩, _, hb, rfl⟩
    rw [List.getElem?_append_right (Nat.le_refl _), Nat.sub_self] at hx
    rw [List.getElem?_append_right (by omega), Nat.add_sub_cancel_left] at hz
    obtain ⟨post, rfl⟩ : ∃ post, rest = x :: z :: post := by
      rcases rest with _ | ⟨_, _ | ⟨_, post⟩⟩
      · cases hx
      · cases hz
      · exact ⟨post, by simp_all⟩
    refine ⟨by omega, post, ?_⟩
    have hfst : UInt8.ofNat (48 + ((x.toNat - 48) * 10 + (z.toNat - 48)) / 10) = x :=
      ofNat_toNat_sub (by omega)
    have hsnd : UInt8.ofNat (48 + ((x.toNat - 48) * 10 + (z.toNat - 48)) % 10) = z :=
      ofNat_toNat_sub (by omega)
    rw [twoDigits, hfst, hsnd]
    rfl
  · rintro ⟨hn, post, rfl⟩
    have hfst : (UInt8.ofNat (48 + n / 10)).toNat = 48 + n / 10 := by
      rw [UInt8.toNat_ofNat']
      omega
    have hsnd : (UInt8.ofNat (48 + n % 10)).toNat = 48 + n % 10 := by
      rw [UInt8.toNat_ofNat']
      omega
    refine ⟨48 + n / 10, ⟨_, by simp [twoDigits], hfst⟩, (), by omega, 48 + n % 10,
      ⟨_, by simp [twoDigits], hsnd⟩, (), by omega, by omega⟩

/-- The fields after the year, at a place. -/
theorem timeFields_here {pre rest : Bytes} {p mo d h mi s : Nat} (hp : pre.length = p) :
    (dig2 (pre ++ rest) p = .ok mo ∧ dig2 (pre ++ rest) (p + 2) = .ok d ∧
      dig2 (pre ++ rest) (p + 4) = .ok h ∧ dig2 (pre ++ rest) (p + 6) = .ok mi ∧
        dig2 (pre ++ rest) (p + 8) = .ok s ∧ byteAt (pre ++ rest) (p + 10) = .ok 90) ↔
      (mo < 100 ∧ d < 100 ∧ h < 100 ∧ mi < 100 ∧ s < 100) ∧
        ∃ post, rest = twoDigits mo ++ twoDigits d ++ twoDigits h ++ twoDigits mi ++
          twoDigits s ++ [90] ++ post := by
  subst hp
  have hlen : ∀ n, (twoDigits n).length = 2 := fun _ => rfl
  constructor
  · rintro ⟨hmo, hd, hh, hmi, hs, hz⟩
    obtain ⟨hmo', rest, rfl⟩ := (dig2_here rfl).1 hmo
    rw [← List.append_assoc] at hd hh hmi hs hz
    obtain ⟨hd', rest, rfl⟩ := (dig2_here (by simp [hlen])).1 hd
    rw [← List.append_assoc] at hh hmi hs hz
    obtain ⟨hh', rest, rfl⟩ := (dig2_here (by simp [hlen])).1 hh
    rw [← List.append_assoc] at hmi hs hz
    obtain ⟨hmi', rest, rfl⟩ := (dig2_here (by simp [hlen])).1 hmi
    rw [← List.append_assoc] at hs hz
    obtain ⟨hs', rest, rfl⟩ := (dig2_here (by simp [hlen])).1 hs
    rw [← List.append_assoc, byteAt_ok] at hz
    obtain ⟨b, hget, hb⟩ := hz
    rw [List.getElem?_append_right (by simp [hlen])] at hget
    obtain ⟨post, rfl⟩ : ∃ post, rest = b :: post := by
      match rest, hget with
      | _ :: post, hget =>
          refine ⟨post, ?_⟩
          simpa [hlen] using hget
    rw [← UInt8.ofNat_toNat (x := b), hb]
    exact ⟨⟨hmo', hd', hh', hmi', hs'⟩, post, by simp⟩
  · rintro ⟨⟨hmo, hd, hh, hmi, hs⟩, post, rfl⟩
    simp only [List.append_assoc]
    refine ⟨(dig2_here rfl).2 ⟨hmo, _, rfl⟩, ?_, ?_, ?_, ?_, ?_⟩
    · rw [← List.append_assoc]
      exact (dig2_here (by simp [hlen])).2 ⟨hd, _, rfl⟩
    · rw [← List.append_assoc, ← List.append_assoc]
      exact (dig2_here (by simp [hlen])).2 ⟨hh, _, rfl⟩
    · rw [← List.append_assoc, ← List.append_assoc, ← List.append_assoc]
      exact (dig2_here (by simp [hlen])).2 ⟨hmi, _, rfl⟩
    · rw [← List.append_assoc, ← List.append_assoc, ← List.append_assoc, ← List.append_assoc]
      exact (dig2_here (by simp [hlen])).2 ⟨hs, _, rfl⟩
    · refine byteAt_ok.2 ⟨90, ?_, rfl⟩
      simp [twoDigits]

/-- The bounds the decoder checks are those of an instant. -/
theorem valid_iff {y mo d h mi s : Nat} :
    ¬ (mo < 1 ∨ mo > 12 ∨ d < 1 ∨ d > daysInMonth y mo ∨ h > 23 ∨ mi > 59 ∨ s > 60) ↔
      Instant.Valid ⟨⟨y, mo, d⟩, h, mi, s⟩ := by
  constructor
  · intro hbounds
    simp only [not_or, not_lt] at hbounds
    obtain ⟨hpos, hle, hday, hlast, hh, hmi, hs⟩ := hbounds
    rw [daysInMonth_eq hpos hle] at hlast
    exact ⟨⟨hpos, hle, hday, hlast⟩, hh, hmi, hs⟩
  · rintro ⟨⟨hpos, hle, hday, hlast⟩, hh, hmi, hs⟩
    dsimp only at hpos hle hday hlast hh hmi hs
    rw [← daysInMonth_eq hpos hle] at hlast
    omega

section Decoder

variable {B : X509Build} {tlv : Bytes} {e : Int}

/-- What the decoder does once it has found the year. -/
theorem certTimeEpoch_ok : certTimeEpoch B tlv = .ok e ↔
    2 ≤ tlv.length ∧ ∃ y p mo d h mi s, byteAt tlv 1 = .ok (tlv.length - 2) ∧
      timeYear B tlv = .ok (y, p) ∧
      (dig2 tlv p = .ok mo ∧ dig2 tlv (p + 2) = .ok d ∧ dig2 tlv (p + 4) = .ok h ∧
        dig2 tlv (p + 6) = .ok mi ∧ dig2 tlv (p + 8) = .ok s ∧ byteAt tlv (p + 10) = .ok 90) ∧
      Instant.Valid ⟨⟨y, mo, d⟩, h, mi, s⟩ ∧ Instant.epoch ⟨⟨y, mo, d⟩, h, mi, s⟩ = e := by
  unfold certTimeEpoch
  simp only [except_bind_eq_ok, except_pure_eq_ok, decodeIf_ok, valid_iff]
  constructor
  · rintro ⟨_, hlen, len, hbyte, _, htotal, ⟨y, p⟩, hyear, mo, hmo, d, hd, h, hh, mi, hmi, s, hs, z,
      hz, _, hzulu, _, hvalid, rfl⟩
    have hlen' : len = tlv.length - 2 := by omega
    subst hlen'
    rw [not_not.1 hzulu] at hz
    refine ⟨by omega, y, p, mo, d, h, mi, s, hbyte, hyear, ⟨hmo, hd, hh, hmi, hs, hz⟩, hvalid, ?_⟩
    rw [Instant.epoch, ← daysFromCivil_eq hvalid.date]
  · rintro ⟨hlen, y, p, mo, d, h, mi, s, hbyte, hyear, ⟨hmo, hd, hh, hmi, hs, hz⟩, hvalid, rfl⟩
    refine ⟨(), by omega, _, hbyte, (), by omega, (y, p), hyear, mo, hmo, d, hd, h, hh, mi, hmi, s,
      hs, 90, hz, (), by decide, (), hvalid, ?_⟩
    rw [Instant.epoch, ← daysFromCivil_eq hvalid.date]

theorem timeYear_utc {y0 : Nat} {rest : Bytes} (hy : y0 < 100) :
    timeYear B ([0x17, 13] ++ (twoDigits y0 ++ rest)) =
      .ok (y0 + (if y0 < 50 then 2000 else 1900), 4) := by
  have htag : byteAt ([0x17, 13] ++ (twoDigits y0 ++ rest)) 0 = .ok asnUtcTime := rfl
  have hlen : byteAt ([0x17, 13] ++ (twoDigits y0 ++ rest)) 1 = .ok 13 := rfl
  have hyear : dig2 ([0x17, 13] ++ (twoDigits y0 ++ rest)) 2 = .ok y0 :=
    (dig2_here rfl).2 ⟨hy, rest, rfl⟩
  refine except_bind_eq_ok.2 ⟨_, htag, except_bind_eq_ok.2 ⟨_, hlen, ?_⟩⟩
  rw [if_pos ⟨rfl, rfl⟩]
  exact except_bind_eq_ok.2 ⟨_, hyear, rfl⟩

theorem timeYear_gen {c y0 : Nat} {rest : Bytes} (hgen : B.genTime = true) (hc : c < 100)
    (hy : y0 < 100) :
    timeYear B ([0x18, 15] ++ (twoDigits c ++ (twoDigits y0 ++ rest))) =
      .ok (y0 + c * 100, 6) := by
  have htag : byteAt ([0x18, 15] ++ (twoDigits c ++ (twoDigits y0 ++ rest))) 0 =
    .ok asnGenTime := rfl
  have hlen : byteAt ([0x18, 15] ++ (twoDigits c ++ (twoDigits y0 ++ rest))) 1 = .ok 15 := rfl
  have hcent : dig2 ([0x18, 15] ++ (twoDigits c ++ (twoDigits y0 ++ rest))) 2 = .ok c :=
    (dig2_here rfl).2 ⟨hc, _, rfl⟩
  have hyear : dig2 ([0x18, 15] ++ (twoDigits c ++ (twoDigits y0 ++ rest))) 4 = .ok y0 := by
    rw [← List.append_assoc]
    exact (dig2_here rfl).2 ⟨hy, rest, rfl⟩
  refine except_bind_eq_ok.2 ⟨_, htag, except_bind_eq_ok.2 ⟨_, hlen, ?_⟩⟩
  rw [if_neg (fun h => absurd h.2 (by decide)), if_pos ⟨hgen, rfl, rfl⟩]
  exact except_bind_eq_ok.2 ⟨_, hcent, except_bind_eq_ok.2 ⟨_, hyear, rfl⟩⟩

/-- The two ways to a year. -/
theorem timeYear_ok {y p : Nat} (h2 : 2 ≤ tlv.length) (h : timeYear B tlv = .ok (y, p)) :
    (∃ y0 rest, y0 < 100 ∧ tlv = [0x17, 13] ++ (twoDigits y0 ++ rest) ∧
      y = y0 + (if y0 < 50 then 2000 else 1900) ∧ p = 4) ∨
    (∃ c y0 rest, B.genTime = true ∧ c < 100 ∧ y0 < 100 ∧
      tlv = [0x18, 15] ++ (twoDigits c ++ (twoDigits y0 ++ rest)) ∧ y = y0 + c * 100 ∧ p = 6) := by
  obtain ⟨a, b, rest, rfl⟩ : ∃ a b rest, tlv = a :: b :: rest := by
    match tlv, h2 with
    | a :: b :: rest, _ => exact ⟨a, b, rest, rfl⟩
  unfold timeYear at h
  simp only [except_bind_eq_ok, byteAt_ok] at h
  obtain ⟨tag, ⟨_, ha, rfl⟩, len, ⟨_, hb, rfl⟩, h⟩ := h
  cases ha
  cases hb
  by_cases hutc : a.toNat = asnUtcTime ∧ b.toNat = 13
  · rw [if_pos hutc] at h
    simp only [except_bind_eq_ok, except_pure_eq_ok] at h
    obtain ⟨y0, hy0, heq⟩ := h
    cases heq
    obtain ⟨hlt, post, hrest⟩ := (@dig2_here [a, b] rest 2 y0 rfl).1 hy0
    have ha : a = 0x17 := UInt8.toNat_inj.1 hutc.1
    have hb : b = 13 := UInt8.toNat_inj.1 hutc.2
    exact .inl ⟨y0, post, hlt, by rw [ha, hb, hrest]; rfl, rfl, rfl⟩
  · rw [if_neg hutc] at h
    by_cases hgen : B.genTime = true ∧ a.toNat = asnGenTime ∧ b.toNat = 15
    · rw [if_pos hgen] at h
      simp only [except_bind_eq_ok, except_pure_eq_ok] at h
      obtain ⟨c, hc, y0, hy0, heq⟩ := h
      cases heq
      obtain ⟨hclt, post, rfl⟩ := (@dig2_here [a, b] rest 2 c rfl).1 hc
      obtain ⟨hlt, post, rfl⟩ := (@dig2_here ([a, b] ++ twoDigits c) post 4 y0 rfl).1 hy0
      have ha : a = 0x18 := UInt8.toNat_inj.1 hgen.2.1
      have hb : b = 15 := UInt8.toNat_inj.1 hgen.2.2
      exact .inr ⟨c, y0, post, hgen.1, hclt, hlt, by rw [ha, hb]; rfl, rfl, rfl⟩
    · rw [if_neg hgen] at h
      cases h

/-- The decoder accepts exactly the two formats, and returns the instant. -/
theorem certTimeEpoch_iff :
    certTimeEpoch B tlv = .ok e ↔ ∃ t : Instant, t.IsTlv B tlv ∧ t.epoch = e := by
  have hlen : ∀ n, (twoDigits n).length = 2 := fun _ => rfl
  rw [certTimeEpoch_ok]
  constructor
  · rintro ⟨h2, y, p, mo, d, h, mi, s, hbyte, hyear, hfields, hvalid, hepoch⟩
    refine ⟨_, ⟨hvalid, ?_⟩, hepoch⟩
    rcases timeYear_ok h2 hyear with ⟨y0, rest, hy0, rfl, rfl, rfl⟩ |
      ⟨c, y0, rest, hgen, hc, hy0, rfl, rfl, rfl⟩
    · rw [← List.append_assoc] at hfields
      obtain ⟨-, post, rfl⟩ := (timeFields_here rfl).1 hfields
      have hpost : post = [] := by
        have hthirteen : (13 : Nat) = _ := Except.ok.inj hbyte
        simp [hlen] at hthirteen
        exact List.length_eq_zero_iff.1 (by omega)
      subst hpost
      refine .inl ⟨?_, ?_, ?_⟩
      · dsimp only
        split <;> omega
      · dsimp only
        split <;> omega
      · have hmod : (((y0 + (if y0 < 50 then 2000 else 1900) : Nat) : Int) % 100).toNat = y0 := by
          split <;> omega
        simp only [Instant.utcTlv, Instant.fields, hmod, List.append_nil, List.append_assoc]
    · rw [← List.append_assoc, ← List.append_assoc] at hfields
      obtain ⟨-, post, rfl⟩ := (timeFields_here rfl).1 hfields
      have hpost : post = [] := by
        have hfifteen : (15 : Nat) = _ := Except.ok.inj hbyte
        simp [hlen] at hfifteen
        exact List.length_eq_zero_iff.1 (by omega)
      subst hpost
      refine .inr ⟨hgen, ?_, ?_, ?_⟩
      · dsimp only
        omega
      · dsimp only
        omega
      · have hmod : (((y0 + c * 100 : Nat) : Int) % 100).toNat = y0 := by omega
        have hdiv : (((y0 + c * 100 : Nat) : Int) / 100).toNat = c := by omega
        simp only [Instant.genTlv, Instant.fields, hmod, hdiv, List.append_nil, List.append_assoc]
  · rintro ⟨⟨⟨y, mo, d⟩, h, mi, s⟩, ⟨hvalid, hformat⟩, hepoch⟩
    have hlt : mo < 100 ∧ d < 100 ∧ h < 100 ∧ mi < 100 ∧ s < 100 := by
      obtain ⟨⟨-, hmo, -, hd⟩, hh, hmi, hs⟩ := hvalid
      have hlong : monthLength y mo ≤ 31 := by
        unfold monthLength
        split_ifs <;> omega
      dsimp only at hmo hd hh hmi hs
      omega
    dsimp only at hformat
    rcases hformat with ⟨hlow, hhigh, rfl⟩ | ⟨hgen, hlow, hhigh, rfl⟩
    · obtain ⟨y0, hy0, rfl⟩ : ∃ y0 : Nat, y0 < 100 ∧
          y = ((y0 + (if y0 < 50 then 2000 else 1900) : Nat) : Int) := by
        refine ⟨(y % 100).toNat, by omega, ?_⟩
        split <;> omega
      have hmod : (((y0 + (if y0 < 50 then 2000 else 1900) : Nat) : Int) % 100).toNat = y0 := by
        split <;> omega
      simp only [Instant.utcTlv, Instant.fields, hmod, List.append_assoc]
      refine ⟨by simp, _, 4, mo, d, h, mi, s, rfl, timeYear_utc hy0, ?_, hvalid, hepoch⟩
      rw [← List.append_assoc]
      exact (timeFields_here rfl).2 ⟨hlt, [], by simp only [List.append_assoc, List.append_nil]⟩
    · obtain ⟨n, rfl⟩ := Int.eq_ofNat_of_zero_le hlow
      obtain ⟨c, y0, hc, hy0, rfl⟩ : ∃ c y0, c < 100 ∧ y0 < 100 ∧ n = y0 + c * 100 :=
        ⟨n / 100, n % 100, by omega, by omega, by omega⟩
      have hmod : (((y0 + c * 100 : Nat) : Int) % 100).toNat = y0 := by omega
      have hdiv : (((y0 + c * 100 : Nat) : Int) / 100).toNat = c := by omega
      simp only [Instant.genTlv, Instant.fields, hmod, hdiv, List.append_assoc]
      refine ⟨by simp, _, 6, mo, d, h, mi, s, rfl, timeYear_gen hgen hc hy0, ?_, hvalid, hepoch⟩
      rw [← List.append_assoc, ← List.append_assoc]
      exact (timeFields_here rfl).2 ⟨hlt, [], by simp only [List.append_assoc, List.append_nil]⟩

end Decoder

/-- The day count of the source starts at 1970-01-01, takes every date to the one after it by
one, and so never orders two dates wrongly. -/
structure CountsDays : Prop where
  epoch : daysFromCivil 1970 1 1 = 0
  next : ∀ d : Date, d.Valid →
    daysFromCivil d.next.year d.next.month d.next.day = daysFromCivil d.year d.month d.day + 1
  before : ∀ d e : Date, d.Valid → e.Valid → d.Before e →
    daysFromCivil d.year d.month d.day < daysFromCivil e.year e.month e.day

theorem countsDays : CountsDays where
  epoch := by decide
  next d h := by
    rw [daysFromCivil_eq h, daysFromCivil_eq h.next, Date.number_next h]
  before d e hd he h := by
    rw [daysFromCivil_eq hd, daysFromCivil_eq he]
    exact Date.number_lt hd he h

/-- A certificate is valid at a time exactly between the two instants its Time TLVs are, and
the day count under them is that of the calendar. -/
theorem times_by_calendar (B : X509Build) :
    (∀ (cert : X509Cert) (now : Int), x509TimeValid B cert now = .ok () ↔
      ∃ notBefore notAfter : Instant,
        notBefore.IsTlv B (cert.notBefore.bytes cert.der) ∧
          notAfter.IsTlv B (cert.notAfter.bytes cert.der) ∧
            notBefore.epoch ≤ now ∧ now ≤ notAfter.epoch) ∧
    CountsDays := by
  refine ⟨?_, countsDays⟩
  intro cert now
  unfold x509TimeValid
  simp only [except_bind_eq_ok, certTimeEpoch_iff]
  constructor
  · rintro ⟨nb, ⟨notBefore, hbefore, rfl⟩, na, ⟨notAfter, hafter, rfl⟩, h⟩
    split at h
    · cases h
    · exact ⟨notBefore, notAfter, hbefore, hafter, by omega, by omega⟩
  · rintro ⟨notBefore, notAfter, hbefore, hafter, hle, hge⟩
    refine ⟨_, ⟨notBefore, hbefore, rfl⟩, _, ⟨notAfter, hafter, rfl⟩, ?_⟩
    rw [if_neg (by omega)]
    rfl

end WolfNano
