/-
The list of extensions of an accepted certificate, and the flags that report it.
-/
import WolfNano.ExtWalk

namespace WolfNano

open Duplex

/-- The OID of an extension the parser knows. -/
def KnownExt.oid : KnownExt → Bytes
  | bc => oidExtBc
  | ku => oidExtKu
  | eku => oidExtEku
  | san => oidExtSan

theorem KnownExt.oid_inj {k k' : KnownExt} (h : k.oid = k'.oid) : k = k' := by
  cases k <;> cases k' <;> first | rfl | exact absurd h (by decide)

/-- The first extension of this kind. -/
def extNamed (exts : List CertExt) (k : KnownExt) : Option CertExt :=
  exts.find? fun e => e.oid = k.oid

section Named

variable {exts : List CertExt} {e : CertExt} {k : KnownExt}

theorem extNamed_snoc_self (hnone : extNamed exts k = none) (he : e.oid = k.oid) :
    extNamed (exts ++ [e]) k = some e := by
  have hfound : [e].find? (fun e => decide (e.oid = k.oid)) = some e := by
    rw [List.find?_cons_of_pos (by simpa using he)]
  rw [extNamed, List.find?_append, hfound, ← extNamed, hnone]
  rfl

theorem extNamed_snoc_other (he : e.oid ≠ k.oid) : extNamed (exts ++ [e]) k = extNamed exts k := by
  have hfound : [e].find? (fun e => decide (e.oid = k.oid)) = none := by
    rw [List.find?_cons_of_neg (by simpa using he), List.find?_nil]
  rw [extNamed, List.find?_append, hfound, Option.or_none, ← extNamed]

theorem extNamed_eq_none : extNamed exts k = none ↔ ∀ e ∈ exts, e.oid ≠ k.oid := by
  simp [extNamed]

end Named

/-! ### What is reported -/

section Reports

variable (B : X509Build) (der : Bytes) (x : X509Exts)

def ReportsBc : Option CertExt → Prop
  | none => x.flags.bcSet = false ∧ x.flags.bcCrit = false ∧ x.flags.ca = false
  | some e => x.flags.bcSet = true ∧ x.flags.bcCrit = e.crit ∧
      BasicConstraints B e.value x.flags.ca

def ReportsKu : Option CertExt → Prop
  | none => x.flags.kuSet = false ∧ x.flags.kuCrit = false ∧ x.keyUsage = 0
  | some e => x.flags.kuSet = true ∧ x.flags.kuCrit = e.crit ∧
      KeyUsage e.value x.keyUsage ∧ x.keyUsage ≠ 0

def ReportsEku : Option CertExt → Prop
  | none => x.flags.ekuSet = false ∧ x.flags.ekuCrit = false ∧ x.extKeyUsage = 0
  | some e => x.flags.ekuSet = true ∧ x.flags.ekuCrit = e.crit ∧
      ∃ purposes, ExtKeyUsage e.value purposes ∧
        (x.serverAuth = true ↔ oidEkuSrvauth ∈ purposes) ∧
        (x.extKeyUsage.testBit 0 = true ↔ oidEkuAny ∈ purposes)

def ReportsSan : Option CertExt → Prop
  | none => x.flags.sanSet = false ∧ x.flags.sanCrit = false ∧ x.san = []
  | some e => x.flags.sanSet = true ∧ x.flags.sanCrit = e.crit ∧
      ∃ names, AltName e.value names ∧ poolNames der x.san = (dnsNames names).take x509MaxSan

/-- The extensions are reported faithfully: each known one by its flags and its contents,
those that are not there by nothing, and the others not at all. -/
structure ExtsReported (exts : List CertExt) : Prop where
  bc : ReportsBc B x (extNamed exts .bc)
  ku : ReportsKu x (extNamed exts .ku)
  eku : ReportsEku x (extNamed exts .eku)
  san : ReportsSan der x (extNamed exts .san)
  /-- None of the four occurs twice. -/
  once : ∀ k : KnownExt, (exts.filter fun e => e.oid = k.oid).length ≤ 1
  /-- A critical extension is one of the four. -/
  critical : ∀ e ∈ exts, e.crit = true → ∃ k : KnownExt, e.oid = k.oid

end Reports

/-! ### One extension -/

theorem oidLookup_ok {α : Type} {der : Bytes} {idx len : Nat} {unknown a : α}
    {table : List (Bool × Bytes × α)} (hlen : idx + len ≤ der.length)
    (h : oidLookup der idx len unknown table = .ok a) :
    (∃ row ∈ table, row.1 = true ∧ slice der idx len = row.2.1 ∧ a = row.2.2) ∨
      a = unknown ∧ ∀ row ∈ table, row.1 = true → slice der idx len ≠ row.2.1 := by
  induction table with
  | nil =>
      cases h
      exact .inr ⟨rfl, fun row hrow => absurd hrow List.not_mem_nil⟩
  | cons row table ih =>
      obtain ⟨have_, oid, result⟩ := row
      have hskip : (have_ = true → slice der idx len ≠ oid) →
          oidLookup der idx len unknown table = .ok a →
          (∃ row ∈ (have_, oid, result) :: table, row.1 = true ∧ slice der idx len = row.2.1 ∧
            a = row.2.2) ∨ a = unknown ∧ ∀ row ∈ (have_, oid, result) :: table, row.1 = true →
              slice der idx len ≠ row.2.1 := by
        intro hnot hrest
        rcases ih hrest with ⟨row, hrow, hfound⟩ | ⟨hunknown, hnone⟩
        · exact .inl ⟨row, List.mem_cons_of_mem _ hrow, hfound⟩
        · exact .inr ⟨hunknown, List.forall_mem_cons.2 ⟨hnot, hnone⟩⟩
      unfold oidLookup at h
      by_cases hhave : have_ = true
      · rw [if_pos hhave] at h
        obtain ⟨same, hsame, h⟩ := except_bind_eq_ok.1 h
        have hsame := oidEq_ok hlen hsame
        cases same with
        | true =>
            cases h
            exact .inl ⟨_, List.mem_cons_self .., hhave, hsame.1 rfl, rfl⟩
        | false => exact hskip (fun _ heq => absurd (hsame.2 heq) Bool.false_ne_true) h
      · rw [if_neg hhave] at h
        exact hskip (fun htrue => absurd htrue hhave) h

theorem knownExt_ok {der : Bytes} {idx len : Nat} {r : Option KnownExt}
    (hlen : idx + len ≤ der.length) (h : knownExt der idx len = .ok r) :
    (∃ k : KnownExt, r = some k ∧ slice der idx len = k.oid) ∨
      r = none ∧ ∀ k : KnownExt, slice der idx len ≠ k.oid := by
  rcases oidLookup_ok hlen h with ⟨row, hrow, -, hoid, rfl⟩ | ⟨rfl, hnone⟩
  · simp only [List.mem_cons, List.not_mem_nil, or_false] at hrow
    rcases hrow with rfl | rfl | rfl | rfl
    · exact .inl ⟨.bc, rfl, hoid⟩
    · exact .inl ⟨.ku, rfl, hoid⟩
    · exact .inl ⟨.eku, rfl, hoid⟩
    · exact .inl ⟨.san, rfl, hoid⟩
  · refine .inr ⟨rfl, fun k => ?_⟩
    cases k with
    | bc => exact hnone (true, oidExtBc, some .bc) (by simp) rfl
    | ku => exact hnone (true, oidExtKu, some .ku) (by simp) rfl
    | eku => exact hnone (true, oidExtEku, some .eku) (by simp) rfl
    | san => exact hnone (true, oidExtSan, some .san) (by simp) rfl

/-- What one extension does to the record. -/
inductive ExtStep (B : X509Build) (der : Bytes) (e : CertExt) :
    X509Exts → List KnownExt → X509Exts → List KnownExt → Prop
  | known {x x' : X509Exts} {seen : List KnownExt} (k : KnownExt) (at_ : Nat)
      (oid : e.oid = k.oid) (fresh : k ∉ seen) (fits : at_ + e.value.length ≤ der.length)
      (value : slice der at_ e.value.length = e.value)
      (parse : k.parse B der at_ (at_ + e.value.length) x e.crit = .ok x') :
      ExtStep B der e x seen x' (k :: seen)
  | other {x : X509Exts} {seen : List KnownExt} (oid : ∀ k : KnownExt, e.oid ≠ k.oid)
      (crit : e.crit = false) : ExtStep B der e x seen x seen

/-- What follows the optional BOOLEAN of an extension: its value, and what the name says. -/
theorem parseExtension_rest {B : X509Build} {der : Bytes} {idx exEnd : Nat} {x x' : X509Exts}
    {seen seen' : List KnownExt} {oidLen oidAt i : Nat} {crit : Bool} (hend : exEnd ≤ der.length)
    (hoid : asnGetHeader der asnObjectId idx exEnd = .ok (oidLen, oidAt))
    (hcrit : At der (oidAt + oidLen) (derTrue crit))
    (hcritEnd : oidAt + oidLen + (derTrue crit).length = i)
    (h : (do
      let (valLen, j) ← asnGetHeader der asnOctetString i exEnd
      decodeIf (j + valLen ≠ exEnd)
      match ← knownExt der oidAt oidLen with
      | some k => do
          decodeIf (k ∈ seen)
          let exts ← k.parse B der j (j + valLen) x crit
          pure (exts, k :: seen)
      | none => if crit then .error .x509CritExt else pure (x, seen)) = Except.ok (x', seen')) :
    ∃ e : CertExt, slice der idx (exEnd - idx) =
        tlv asnObjectId e.oid ++ derTrue e.crit ++ tlv asnOctetString e.value ∧
      ExtStep B der e x seen x' seen' := by
  have hoidElem := asnGetHeader_element (by decide) hend hoid
  have hoidLe := hoidElem.le
  obtain ⟨⟨valLen, j⟩, hval, h⟩ := except_bind_eq_ok.1 h
  obtain ⟨_, hfill, h⟩ := except_bind_eq_ok.1 h
  obtain ⟨known, hknown, h⟩ := except_bind_eq_ok.1 h
  have hfill : j + valLen = exEnd := not_not.1 (decodeIf_ok.1 hfill)
  have hvalElem := asnGetHeader_element (by decide) hend hval
  have hvalLen := hvalElem.contents
  let e : CertExt := ⟨slice der oidAt oidLen, crit, slice der j valLen⟩
  have hcontents : slice der idx (exEnd - idx) =
      tlv asnObjectId e.oid ++ derTrue e.crit ++ tlv asnOctetString e.value := by
    refine ((hoidElem.inDer.append_at hcrit hoidElem.next).append_at hvalElem.inDer ?_).slice_eq ?_
    · rw [List.length_append, ← Nat.add_assoc, hoidElem.next]
      exact hcritEnd
    · rw [List.length_append, List.length_append, ← Nat.add_assoc, ← Nat.add_assoc,
        hoidElem.next, hcritEnd, hvalElem.next]
      exact hfill
  refine ⟨e, hcontents, ?_⟩
  rcases knownExt_ok (by omega) hknown with ⟨k, rfl, hk⟩ | ⟨rfl, hnone⟩
  · obtain ⟨_, hfresh, h⟩ := except_bind_eq_ok.1 h
    obtain ⟨x₁, hparse, h⟩ := except_bind_eq_ok.1 h
    cases h
    have hvalue : e.value.length = valLen := hvalLen
    exact .known k j hk (decodeIf_ok.1 hfresh) (by omega) (by rw [hvalue])
      (by rw [hvalue]; exact hparse)
  · cases crit with
    | true => cases h
    | false =>
        cases h
        exact .other hnone rfl

theorem parseExtension_ok {B : X509Build} {der : Bytes} {idx exEnd : Nat} {x x' : X509Exts}
    {seen seen' : List KnownExt} (hend : exEnd ≤ der.length)
    (h : parseExtension B der idx exEnd x seen = .ok (x', seen')) :
    ∃ e : CertExt, slice der idx (exEnd - idx) =
        tlv asnObjectId e.oid ++ derTrue e.crit ++ tlv asnOctetString e.value ∧
      ExtStep B der e x seen x' seen' := by
  unfold parseExtension at h
  obtain ⟨⟨oidLen, oidAt⟩, hoid, h⟩ := except_bind_eq_ok.1 h
  have hoidLe := (asnGetHeader_element (by decide) hend hoid).le
  obtain ⟨bool, -, h⟩ := ite_bind_eq_ok.1 h
  cases bool with
  | false =>
      exact @parseExtension_rest B der idx exEnd x x' seen seen' oidLen oidAt _ false hend hoid
        (At.nil (by omega)) rfl h
  | true =>
      obtain ⟨⟨len, k⟩, hheader, h⟩ := except_bind_eq_ok.1 h
      obtain ⟨_, hone, h⟩ := except_bind_eq_ok.1 h
      obtain ⟨v, hv, h⟩ := except_bind_eq_ok.1 h
      obtain ⟨_, htrue, h⟩ := except_bind_eq_ok.1 h
      obtain ⟨hat, hatEnd, hlast⟩ := derTrue_at hend hheader hone hv htrue
      exact @parseExtension_rest B der idx exEnd x x' seen seen' oidLen oidAt (k + len)
        true hend hoid hat hatEnd h

/-! ### The list -/

/-- The extensions read so far, with the kinds that were seen. -/
structure ExtsSoFar (B : X509Build) (der : Bytes) (exts : List CertExt) (x : X509Exts)
    (seen : List KnownExt) : Prop where
  reported : ExtsReported B der x exts
  seen_iff : ∀ k : KnownExt, k ∈ seen ↔ ∃ e ∈ exts, e.oid = k.oid

theorem ExtsSoFar.nil {B : X509Build} {der : Bytes} : ExtsSoFar B der [] .zero [] where
  reported := {
    bc := ⟨rfl, rfl, rfl⟩
    ku := ⟨rfl, rfl, rfl⟩
    eku := ⟨rfl, rfl, rfl⟩
    san := ⟨rfl, rfl, rfl⟩
    once := fun _ => Nat.zero_le 1
    critical := fun _ he => nomatch he }
  seen_iff := fun k => by simp

section Step

variable {B : X509Build} {der : Bytes} {exts : List CertExt} {e : CertExt} {x x' : X509Exts}
  {seen seen' : List KnownExt} (hB : B.hostname = true)

/-- A known extension changes what is reported of its kind only. -/
theorem known_reported (hB : B.hostname = true) {k : KnownExt} {p : Nat}
    (h : ExtsReported B der x exts) (hnew : extNamed exts k = none) (hoid : e.oid = k.oid)
    (hfits : p + e.value.length ≤ der.length) (hvalue : slice der p e.value.length = e.value)
    (hparse : k.parse B der p (p + e.value.length) x e.crit = .ok x') :
    ReportsBc B x' (extNamed (exts ++ [e]) .bc) ∧ ReportsKu x' (extNamed (exts ++ [e]) .ku) ∧
      ReportsEku x' (extNamed (exts ++ [e]) .eku) ∧
      ReportsSan der x' (extNamed (exts ++ [e]) .san) := by
  have hother : ∀ k' : KnownExt, k' ≠ k → extNamed (exts ++ [e]) k' = extNamed exts k' := by
    intro k' hne
    refine extNamed_snoc_other fun heq => hne ?_
    exact KnownExt.oid_inj (heq.symm.trans hoid)
  have hself : extNamed (exts ++ [e]) k = some e := extNamed_snoc_self hnew hoid
  have hrange : slice der p (p + e.value.length - p) = e.value := by
    rw [Nat.add_sub_cancel_left]
    exact hvalue
  cases k with
  | bc =>
      obtain ⟨ca, hbody, rfl⟩ := extBasicConstraints_ok hfits hparse
      have hbefore := h.bc
      rw [hnew] at hbefore
      rw [hrange] at hbody
      rw [hself, hother .ku (by decide), hother .eku (by decide),
        hother .san (by decide)]
      refine ⟨⟨rfl, ?_, ?_⟩, h.ku, h.eku, h.san⟩
      · show (x.flags.bcCrit || e.crit) = e.crit
        rw [hbefore.2.1, Bool.false_or]
      · show BasicConstraints B e.value (x.flags.ca || ca)
        rw [hbefore.2.2, Bool.false_or]
        exact hbody
  | ku =>
      have hbefore := h.ku
      rw [hnew] at hbefore
      obtain ⟨usage, hbody, hne, rfl⟩ := extKeyUsage_ok hfits hbefore.2.2 hparse
      rw [hrange] at hbody
      rw [hself, hother .bc (by decide), hother .eku (by decide),
        hother .san (by decide)]
      refine ⟨h.bc, ⟨rfl, ?_, hbody, hne⟩, h.eku, h.san⟩
      show (x.flags.kuCrit || e.crit) = e.crit
      rw [hbefore.2.1, Bool.false_or]
  | eku =>
      have hbefore := h.eku
      rw [hnew] at hbefore
      obtain ⟨purposes, hbody, rfl⟩ := extExtKeyUsage_ok hfits hparse
      rw [hrange] at hbody
      obtain ⟨hserver, hany⟩ := usageOf_testBit purposes x.extKeyUsage
      rw [hself, hother .bc (by decide), hother .ku (by decide),
        hother .san (by decide)]
      refine ⟨h.bc, h.ku, ⟨rfl, ?_, purposes, hbody, ?_, ?_⟩, h.san⟩
      · show (x.flags.ekuCrit || e.crit) = e.crit
        rw [hbefore.2.1, Bool.false_or]
      · show (usageOf purposes x.extKeyUsage).testBit 1 = true ↔ _
        rw [hserver, hbefore.2.2]
        simp
      · show (usageOf purposes x.extKeyUsage).testBit 0 = true ↔ _
        rw [hany, hbefore.2.2]
        simp
  | san =>
      have hbefore := h.san
      rw [hnew] at hbefore
      have hread : extAltName der p (p + e.value.length) x e.crit = .ok x' := by
        rw [← hparse, KnownExt.parse, if_pos hB]
      obtain ⟨names, san, hbody, hpool, rfl⟩ := extAltName_ok hfits hbefore.2.2 hread
      rw [hrange] at hbody
      rw [hself, hother .bc (by decide), hother .ku (by decide),
        hother .eku (by decide)]
      refine ⟨h.bc, h.ku, h.eku, ⟨rfl, ?_, names, hbody, hpool⟩⟩
      show (x.flags.sanCrit || e.crit) = e.crit
      rw [hbefore.2.1, Bool.false_or]

include hB

theorem ExtsSoFar.step (h : ExtsSoFar B der exts x seen) (hstep : ExtStep B der e x seen x' seen') :
    ExtsSoFar B der (exts ++ [e]) x' seen' := by
  cases hstep with
  | known k p hoid hfresh hfits hvalue hparse =>
      have hnone : ∀ e' ∈ exts, e'.oid ≠ k.oid := fun e' he' heq =>
        hfresh ((h.seen_iff k).2 ⟨e', he', heq⟩)
      obtain ⟨hbc, hku, heku, hsan⟩ :=
        known_reported hB h.reported (extNamed_eq_none.2 hnone) hoid hfits hvalue hparse
      refine ⟨⟨hbc, hku, heku, hsan, ?_, ?_⟩, ?_⟩
      · intro k'
        rw [List.filter_append, List.length_append]
        by_cases hk : k' = k
        · have hbefore : exts.filter (fun e' => e'.oid = k'.oid) = [] := by
            rw [List.filter_eq_nil_iff]
            intro e' he'
            rw [hk]
            simpa using hnone e' he'
          rw [hbefore]
          exact Nat.le_trans (Nat.le_of_eq (Nat.zero_add _)) (List.length_filter_le ..)
        · have hafter : [e].filter (fun e' => e'.oid = k'.oid) = [] := by
            rw [List.filter_eq_nil_iff]
            intro e' he'
            rw [List.mem_singleton.1 he', hoid]
            simpa using fun heq => hk (KnownExt.oid_inj heq).symm
          rw [hafter]
          exact h.reported.once k'
      · intro e' he' hcrit
        rcases List.mem_append.1 he' with hold | hnew
        · exact h.reported.critical e' hold hcrit
        · rw [List.mem_singleton.1 hnew]
          exact ⟨k, hoid⟩
      · intro k'
        rw [List.mem_cons, h.seen_iff k']
        constructor
        · rintro (rfl | ⟨e', he', heq⟩)
          · exact ⟨e, by simp, hoid⟩
          · exact ⟨e', by simp [he'], heq⟩
        · rintro ⟨e', he', heq⟩
          rcases List.mem_append.1 he' with hold | hnew
          · exact .inr ⟨e', hold, heq⟩
          · rw [List.mem_singleton.1 hnew, hoid] at heq
            exact .inl (KnownExt.oid_inj heq).symm
  | other hoid hcrit =>
      have hsame : ∀ k : KnownExt, extNamed (exts ++ [e]) k = extNamed exts k :=
        fun k => extNamed_snoc_other (hoid k)
      refine ⟨⟨?_, ?_, ?_, ?_, ?_, ?_⟩, ?_⟩
      · rw [hsame]
        exact h.reported.bc
      · rw [hsame]
        exact h.reported.ku
      · rw [hsame]
        exact h.reported.eku
      · rw [hsame]
        exact h.reported.san
      · intro k
        have hafter : [e].filter (fun e' => e'.oid = k.oid) = [] := by
          rw [List.filter_eq_nil_iff]
          intro e' he'
          rw [List.mem_singleton.1 he']
          simpa using hoid k
        rw [List.filter_append, hafter, List.append_nil]
        exact h.reported.once k
      · intro e' he' hcrit'
        rcases List.mem_append.1 he' with hold | hnew
        · exact h.reported.critical e' hold hcrit'
        · rw [List.mem_singleton.1 hnew, hcrit] at hcrit'
          cases hcrit'
      · intro k
        rw [h.seen_iff k]
        constructor
        · rintro ⟨e', he', heq⟩
          exact ⟨e', by simp [he'], heq⟩
        · rintro ⟨e', he', heq⟩
          rcases List.mem_append.1 he' with hold | hnew
          · exact ⟨e', hold, heq⟩
          · rw [List.mem_singleton.1 hnew] at heq
            exact absurd heq (hoid k)

/-- The list read from `idx` to its end is reported with what was read before. -/
theorem extLoop_ok {n idx extEnd : Nat} (hend : extEnd ≤ der.length) (hidx : idx ≤ extEnd)
    (hsofar : ExtsSoFar B der exts x seen) (h : extLoop B der n idx extEnd x seen = .ok x') :
    ∃ more : List CertExt, At der idx (more.flatMap CertExt.encode) ∧
      idx + (more.flatMap CertExt.encode).length = extEnd ∧
      ExtsReported B der x' (exts ++ more) := by
  induction n generalizing idx exts x seen with
  | zero => cases h
  | succ n ih =>
      unfold extLoop at h
      by_cases hmore : idx < extEnd
      · rw [if_pos hmore] at h
        obtain ⟨⟨len, j⟩, hheader, h⟩ := except_bind_eq_ok.1 h
        obtain ⟨⟨x₁, seen₁⟩, hone, h⟩ := except_bind_eq_ok.1 h
        have helem := asnGetHeader_element (by decide) hend hheader
        have hle : j + len ≤ extEnd := helem.le
        obtain ⟨e, hcontents, hstep⟩ := parseExtension_ok (by omega) hone
        rw [Nat.add_sub_cancel_left] at hcontents
        have helemAt : At der idx e.encode := by
          rw [CertExt.encode, ← hcontents]
          exact helem.inDer
        have hnext : idx + e.encode.length = j + len := by
          rw [CertExt.encode, ← hcontents]
          exact helem.next
        obtain ⟨more, hat, hlast, hreported⟩ := ih hle (hsofar.step hB hstep) h
        refine ⟨e :: more, ?_, ?_, ?_⟩
        · rw [List.flatMap_cons]
          exact helemAt.append_at hat hnext
        · rw [List.flatMap_cons, List.length_append, ← Nat.add_assoc, hnext]
          exact hlast
        · rw [List.append_cons]
          exact hreported
      · rw [if_neg hmore] at h
        cases h
        refine ⟨[], At.nil (by omega), by simp; omega, ?_⟩
        rw [List.append_nil]
        exact hsofar.reported

end Step

/-! ### The extensions field -/

/-- The unique identifiers are skipped up to the extensions or the end. -/
theorem skipUids_ok {der : Bytes} {version n idx tbsEnd i : Nat} (hend : tbsEnd ≤ der.length)
    (hidx : idx ≤ tbsEnd) (h : skipUids der version n idx tbsEnd = .ok i) :
    ∃ uids : List (Nat × Bytes), (∀ u ∈ uids, u.1 = asnUid1 ∨ u.1 = asnUid2) ∧
      At der idx (uids.flatMap fun u => tlv u.1 u.2) ∧
      idx + (uids.flatMap fun u => tlv u.1 u.2).length = i ∧ i ≤ tbsEnd := by
  induction n generalizing idx with
  | zero => cases h
  | succ n ih =>
      unfold skipUids at h
      by_cases hmore : idx < tbsEnd
      · rw [if_pos hmore] at h
        obtain ⟨tag, htag, h⟩ := except_bind_eq_ok.1 h
        by_cases hctx3 : tag = asnCtx3
        · rw [if_pos hctx3] at h
          cases h
          exact ⟨[], fun u hu => (List.not_mem_nil hu).elim, At.nil (by omega), rfl, hidx⟩
        · rw [if_neg hctx3] at h
          obtain ⟨_, huid, h⟩ := except_bind_eq_ok.1 h
          obtain ⟨⟨len, j⟩, hheader, h⟩ := except_bind_eq_ok.1 h
          have helem := asnGetHeader_element (byteAt_at.1 htag).1 hend hheader
          obtain ⟨uids, htags, hat, hlast, hle⟩ := ih helem.le h
          have htagUid : tag = asnUid1 ∨ tag = asnUid2 := by
            have huid := decodeIf_ok.1 huid
            omega
          refine ⟨(tag, slice der j len) :: uids, List.forall_mem_cons.2 ⟨htagUid, htags⟩, ?_,
            ?_, hle⟩
          · rw [List.flatMap_cons]
            exact helem.inDer.append_at hat helem.next
          · rw [List.flatMap_cons, List.length_append, ← Nat.add_assoc, helem.next]
            exact hlast
      · rw [if_neg hmore] at h
        cases h
        exact ⟨[], fun u hu => (List.not_mem_nil hu).elim, At.nil (by omega), rfl, hidx⟩

/-- The extensions of a v3 certificate, or none. -/
def extsField : Option (List CertExt) → Bytes
  | none => []
  | some exts => tlv asnCtx3 (tlv asnSeq (exts.flatMap CertExt.encode))

/-- The record says what the field says. -/
def ExtsFieldReported (B : X509Build) (der : Bytes) (version : Nat) (x : X509Exts) :
    Option (List CertExt) → Prop
  | none => x = .zero
  | some exts => version = 2 ∧ exts ≠ [] ∧ ExtsReported B der x exts

theorem parseExtensions_ok {B : X509Build} {der : Bytes} {idx tbsEnd version : Nat}
    {x : X509Exts} (hB : B.hostname = true) (hend : tbsEnd ≤ der.length) (hidx : idx ≤ tbsEnd)
    (h : parseExtensions B der idx tbsEnd version = .ok x) :
    ∃ (uids : List (Nat × Bytes)) (exts : Option (List CertExt)),
      (∀ u ∈ uids, u.1 = asnUid1 ∨ u.1 = asnUid2) ∧
      At der idx ((uids.flatMap fun u => tlv u.1 u.2) ++ extsField exts) ∧
      idx + ((uids.flatMap fun u => tlv u.1 u.2) ++ extsField exts).length = tbsEnd ∧
      ExtsFieldReported B der version x exts := by
  unfold parseExtensions at h
  obtain ⟨i, huids, h⟩ := except_bind_eq_ok.1 h
  obtain ⟨uids, htags, hat, hnext, hle⟩ := skipUids_ok hend hidx huids
  by_cases hmore : i < tbsEnd
  · rw [if_pos hmore] at h
    obtain ⟨_, hversion, h⟩ := except_bind_eq_ok.1 h
    obtain ⟨⟨len, j⟩, hctx3, h⟩ := except_bind_eq_ok.1 h
    obtain ⟨_, hlast, h⟩ := except_bind_eq_ok.1 h
    obtain ⟨⟨len', k⟩, hseq, h⟩ := except_bind_eq_ok.1 h
    obtain ⟨_, hfill, h⟩ := except_bind_eq_ok.1 h
    obtain ⟨_, hne, h⟩ := except_bind_eq_ok.1 h
    have hlast : j + len = tbsEnd := not_not.1 (decodeIf_ok.1 hlast)
    have hfill : k + len' = j + len := not_not.1 (decodeIf_ok.1 hfill)
    have hne := decodeIf_ok.1 hne
    have hctx := asnGetHeader_element (by decide) hend hctx3
    have hin : j + len ≤ der.length := by omega
    have hlist := asnGetHeader_element (by decide) hin hseq
    have hkle : k ≤ j + len := by omega
    obtain ⟨exts, hextsAt, hextsEnd, hreported⟩ := extLoop_ok hB hin hkle .nil h
    rw [List.nil_append] at hreported
    have hcontents := hextsAt.slice_eq hextsEnd
    rw [← hfill, Nat.add_sub_cancel_left] at hcontents
    have hinner : slice der j len = tlv asnSeq (exts.flatMap CertExt.encode) := by
      have hslice := hlist.inDer.slice_eq (hlist.next.trans hfill)
      rwa [Nat.add_sub_cancel_left, hcontents] at hslice
    have hfield : At der i (extsField (some exts)) := by
      rw [extsField, ← hinner]
      exact hctx.inDer
    have hfieldEnd : i + (extsField (some exts)).length = tbsEnd := by
      rw [extsField, ← hinner]
      exact hctx.next.trans hlast
    refine ⟨uids, some exts, htags, hat.append_at hfield hnext, ?_,
      not_not.1 (decodeIf_ok.1 hversion), ?_, hreported⟩
    · rw [List.length_append, ← Nat.add_assoc, hnext]
      exact hfieldEnd
    · rintro rfl
      exact hne (by simp at hextsEnd; omega)
  · rw [if_neg hmore] at h
    cases h
    refine ⟨uids, none, htags, ?_, ?_, rfl⟩
    · rw [extsField, List.append_nil]
      exact hat
    · rw [extsField, List.append_nil, hnext]
      omega

/-! ### The tbsCertificate -/

/-- The fields of a tbsCertificate. -/
structure TbsParts where
  version : Nat
  serial : Bytes
  alg : Bytes
  issuer : Bytes
  validity : Bytes
  subject : Bytes
  key : Bytes
  uids : List (Nat × Bytes)
  exts : Option (List CertExt)

/-- The version field, left out of v1. -/
def versionField (version : Nat) : Bytes :=
  if version = 0 then [] else tlv asnCtx0 (tlv asnInteger [UInt8.ofNat version])

def TbsParts.fields (t : TbsParts) : Bytes :=
  versionField t.version ++ tlv asnInteger t.serial ++ tlv asnSeq t.alg ++ tlv asnSeq t.issuer ++
    tlv asnSeq t.validity ++ tlv asnSeq t.subject ++ tlv asnSeq t.key ++
    ((t.uids.flatMap fun u => tlv u.1 u.2) ++ extsField t.exts)

def TbsParts.encode (t : TbsParts) : Bytes := tlv asnSeq t.fields

theorem parseVersion_field {der : Bytes} {idx tbsEnd version i : Nat} (hend : tbsEnd ≤ der.length)
    (hidx : idx ≤ tbsEnd) (h : parseVersion der idx tbsEnd = .ok (version, i)) :
    At der idx (versionField version) ∧ idx + (versionField version).length = i ∧ i ≤ tbsEnd := by
  unfold parseVersion at h
  obtain ⟨explicit, hexplicit, h⟩ := ite_bind_eq_ok.1 h
  cases explicit with
  | false =>
      cases h
      exact ⟨At.nil (by omega), rfl, hidx⟩
  | true =>
      obtain ⟨⟨len, j⟩, hheader, h⟩ := except_bind_eq_ok.1 h
      obtain ⟨⟨len', k⟩, hinteger, h⟩ := except_bind_eq_ok.1 h
      obtain ⟨_, hone, h⟩ := except_bind_eq_ok.1 h
      obtain ⟨v, hv, h⟩ := except_bind_eq_ok.1 h
      obtain ⟨_, hbounds, h⟩ := except_bind_eq_ok.1 h
      cases h
      obtain rfl : len' = 1 := not_not.1 (decodeIf_ok.1 hone)
      have hbounds := decodeIf_ok.1 hbounds
      have helem := asnGetHeader_element (by decide) hend hheader
      have hle := helem.le
      have hin : j + len ≤ der.length := by omega
      have hint := asnGetHeader_element (by decide) hin hinteger
      have hvalue : slice der k 1 = [UInt8.ofNat version] := (byteAt_at.1 hv).2.2
      have hinner : slice der j len = tlv asnInteger [UInt8.ofNat version] := by
        have hslice := hint.inDer.slice_eq (q := j + len) (hint.next.trans (by omega))
        rwa [Nat.add_sub_cancel_left, hvalue] at hslice
      have hfield : versionField version = tlv asnCtx0 (slice der j len) := by
        rw [versionField, if_neg (by omega), hinner]
      rw [hfield]
      exact ⟨helem.inDer, helem.next, hle⟩

namespace X509Read

variable {B : X509Build} {der : Bytes} {c : X509Cert} (R : X509Read B der c)

include R

/-- The fields of the tbsCertificate of an accepted certificate. -/
theorem tbs_fields (hB : B.hostname = true) :
    ∃ t : TbsParts, c.tbs.bytes der = t.encode ∧ c.spkiBytes = tlv asnSeq t.key ∧
      t.subject = slice der R.subjectBody R.subjectLen ∧
      (∀ u ∈ t.uids, u.1 = asnUid1 ∨ u.1 = asnUid2) ∧
      ExtsFieldReported B der t.version c.exts t.exts := by
  have htbs := R.tbs_le
  have htbsElem := asnGetHeader_element (by decide) (Nat.le_refl _) R.tbsHeader
  have hlen : c.tbs.len = R.certLen + (R.tbsBody - R.certBegin) := by rw [R.tbs]
  have hlt := htbsElem.lt
  have hbody : R.tbsBody ≤ R.certBegin + c.tbs.len := by omega
  obtain ⟨hversion, hversionEnd, -⟩ := parseVersion_field htbs hbody R.versionRead
  have hserial := asnGetHeader_element (by decide) htbs R.serial
  have halg := asnGetHeader_element (by decide) htbs R.inner
  have hissuer := asnGetHeader_element (by decide) htbs R.issuer
  have hvalidity := asnGetHeader_element (by decide) htbs R.validity
  have hsubject := asnGetHeader_element (by decide) htbs R.subject
  have hkey := asnGetHeader_element (by decide) htbs R.key
  obtain ⟨uids, exts, htags, htail, htailEnd, hreported⟩ :=
    parseExtensions_ok hB htbs hkey.le R.exts
  let t : TbsParts := ⟨R.version, slice der R.serialBody R.serialLen,
    slice der R.innerBody R.innerLen, slice der R.issuerBody R.issuerLen,
    slice der R.validityBody R.validityLen, slice der R.subjectBody R.subjectLen,
    slice der R.keyBody R.keyLen, uids, exts⟩
  have hfields : At der R.tbsBody t.fields := by
    refine ((((((hversion.append_at hserial.inDer hversionEnd).append_at halg.inDer ?_).append_at
      hissuer.inDer ?_).append_at hvalidity.inDer ?_).append_at hsubject.inDer ?_).append_at
      hkey.inDer ?_).append_at htail ?_
    · rw [List.length_append, ← Nat.add_assoc, hversionEnd, hserial.next]
    · rw [List.length_append, List.length_append, ← Nat.add_assoc, ← Nat.add_assoc, hversionEnd,
        hserial.next, halg.next]
    · simp only [List.length_append, ← Nat.add_assoc]
      rw [hversionEnd, hserial.next, halg.next, hissuer.next]
    · simp only [List.length_append, ← Nat.add_assoc]
      rw [hversionEnd, hserial.next, halg.next, hissuer.next, hvalidity.next]
    · simp only [List.length_append, ← Nat.add_assoc]
      rw [hversionEnd, hserial.next, halg.next, hissuer.next, hvalidity.next, hsubject.next]
    · simp only [List.length_append, ← Nat.add_assoc]
      rw [hversionEnd, hserial.next, halg.next, hissuer.next, hvalidity.next, hsubject.next,
        hkey.next]
  have hfieldsEnd : R.tbsBody + t.fields.length = R.tbsBody + R.certLen := by
    rw [TbsParts.fields, List.length_append]
    simp only [List.length_append, ← Nat.add_assoc] at htailEnd ⊢
    rw [hversionEnd, hserial.next, halg.next, hissuer.next, hvalidity.next, hsubject.next,
      hkey.next, htailEnd]
    omega
  have hsame := hfields.slice_eq hfieldsEnd
  rw [Nat.add_sub_cancel_left] at hsame
  refine ⟨t, ?_, ?_, rfl, htags, hreported⟩
  · rw [TbsParts.encode, ← hsame, Slice.bytes, R.tbs]
    have hslice := htbsElem.inDer.slice_eq (q := R.certBegin + c.tbs.len)
      (htbsElem.next.trans (by omega))
    rw [Nat.add_sub_cancel_left, R.tbs] at hslice
    exact hslice
  · rw [R.spkiBytes_eq]
    have hend := R.spki_end
    have hslice := hkey.inDer.slice_eq (q := R.subjectBody + R.subjectLen + c.spki.len)
      (hkey.next.trans (by omega))
    rw [Nat.add_sub_cancel_left] at hslice
    exact hslice

end X509Read

/-- The extensions of an accepted certificate are the last field of a v3 tbsCertificate, each of
the form the parser knows, and the record reports them. -/
theorem extensions_reported {B : X509Build} {der : Bytes} {c : X509Cert} (hB : B.hostname = true)
    (h : x509Parse B der = .ok c) :
    ∃ t : TbsParts, c.tbs.bytes der = t.encode ∧
      (∀ u ∈ t.uids, u.1 = asnUid1 ∨ u.1 = asnUid2) ∧
      ExtsFieldReported B der t.version c.exts t.exts := by
  obtain ⟨R⟩ := x509Parse_read h
  obtain ⟨t, hencode, -, -, huids, hreported⟩ := R.tbs_fields hB
  exact ⟨t, hencode, huids, hreported⟩

namespace Sample

/-- A v3 certificate with these extensions. -/
def extParts (subject : Bytes) (exts : List CertExt) : TbsParts where
  version := 2
  serial := [1]
  alg := Duplex.tlv 0x06 oidEd25519
  issuer := []
  validity := Duplex.tlv 0x17 (ascii "200101000000Z") ++ Duplex.tlv 0x17 (ascii "210101000000Z")
  subject
  key := Duplex.tlv 0x30 (Duplex.tlv 0x06 oidEd25519) ++ Duplex.tlv 0x03 [0, 9]
  uids := []
  exts := some exts

def extCert (subject : Bytes) (exts : List CertExt) : Bytes :=
  let t := extParts subject exts
  Duplex.tlv 0x30 (t.encode ++ Duplex.tlv 0x30 t.alg ++ Duplex.tlv 0x03 [0, 7])

/-- All four extensions, and one that the parser does not know. -/
def fourExts : List CertExt :=
  [⟨oidExtSan, false, Duplex.tlv 0x30
    (Duplex.tlv 0x82 (ascii "*.b.c") ++ Duplex.tlv 0x87 [127, 0, 0, 1])⟩,
    ⟨[0x55, 0x1D, 0x0E], false, []⟩, ⟨oidExtBc, true, Duplex.tlv 0x30 (derTrue true)⟩,
    ⟨oidExtKu, true, Duplex.tlv 0x03 [2, 4]⟩,
    ⟨oidExtEku, false, Duplex.tlv 0x30 (Duplex.tlv 0x06 oidEkuSrvauth)⟩]

theorem extCert_parses : ∃ c, x509Parse x509Build (extCert [] fourExts) = .ok c := by
  have hsome : (parsed (extCert [] fourExts)).isSome = true := by
    decide +kernel
  obtain ⟨c, hc⟩ := Option.isSome_iff_exists.1 hsome
  exact ⟨c, parsed_eq hc⟩

end Sample

theorem extensions_reported_sample : ∃ c,
    x509Parse Sample.x509Build (Sample.extCert [] Sample.fourExts) = .ok c ∧
      ∃ t : TbsParts, c.tbs.bytes (Sample.extCert [] Sample.fourExts) = t.encode ∧
        ExtsFieldReported Sample.x509Build (Sample.extCert [] Sample.fourExts) t.version c.exts
          t.exts := by
  obtain ⟨c, hc⟩ := Sample.extCert_parses
  obtain ⟨t, hencode, -, hreported⟩ := extensions_reported rfl hc
  exact ⟨c, hc, t, hencode, hreported⟩

end WolfNano
