/-
Host names: what a pattern matches, and which names of an accepted certificate decide.
-/
import WolfNano.CertExts

namespace WolfNano

open Duplex

/-! ### Patterns -/

/-- Equal but for the case of ASCII letters. -/
def SameName (a b : Bytes) : Prop := a.map asciiLower = b.map asciiLower

/-- `*.` and at least one byte against one label, a dot and the remainder. -/
def WildcardMatches (pat host : Bytes) : Prop :=
  ∃ rest label tail, rest ≠ [] ∧ pat = 42 :: 46 :: rest ∧ label ≠ [] ∧ 46 ∉ label ∧
    host = label ++ 46 :: tail ∧ SameName rest tail

def NameMatches (pat host : Bytes) : Prop := SameName pat host ∨ WildcardMatches pat host

theorem SameName.length {a b : Bytes} (h : SameName a b) : a.length = b.length := by
  have hlen := congrArg List.length h
  rwa [List.length_map, List.length_map] at hlen

theorem dnsCaseEq_iff {a b : Bytes} : dnsCaseEq a b = true ↔ SameName a b := beq_iff_eq

/-- A mark is no letter, so that it is equal to itself only. -/
theorem asciiLower_eq_mark {c d : UInt8} (hd : d = 42 ∨ d = 46)
    (h : asciiLower d = asciiLower c) : c = d := by
  have hmark : asciiLower d = d := by
    rcases hd with rfl | rfl <;> decide
  rw [hmark] at h
  unfold asciiLower at h
  by_cases hupper : 65 ≤ c ∧ c ≤ 90
  · rw [if_pos hupper] at h
    have hvalue := congrArg UInt8.toNat h
    have hlow : 65 ≤ c.toNat := hupper.1
    have hhigh : c.toNat ≤ 90 := hupper.2
    have hd : d.toNat = 42 ∨ d.toNat = 46 := by
      rcases hd with rfl | rfl
      · exact .inl rfl
      · exact .inr rfl
    rw [UInt8.toNat_add, UInt8.toNat_sub_of_le _ _ hupper.1] at hvalue
    have h65 : (65 : UInt8).toNat = 65 := rfl
    have h97 : (97 : UInt8).toNat = 97 := rfl
    omega
  · rw [if_neg hupper] at h
    exact h.symm

theorem SameName.cons {c d : UInt8} {a b : Bytes} (hd : d = 42 ∨ d = 46) :
    SameName (d :: a) (c :: b) ↔ c = d ∧ SameName a b := by
  unfold SameName
  rw [List.map_cons, List.map_cons, List.cons.injEq]
  constructor
  · rintro ⟨hhead, htail⟩
    exact ⟨asciiLower_eq_mark hd hhead, htail⟩
  · rintro ⟨rfl, htail⟩
    exact ⟨rfl, htail⟩

/-- A label and what follows its dot. -/
theorem takeWhile_label {host : Bytes} {k : Nat} (hk : (host.takeWhile (· ≠ 46)).length = k)
    (hpos : 0 < k) (hlt : k < host.length) :
    ∃ label tail, label ≠ [] ∧ 46 ∉ label ∧ host = label ++ 46 :: tail ∧
      host.drop k = 46 :: tail := by
  have hsplit := List.takeWhile_append_dropWhile (p := fun c : UInt8 => decide (c ≠ 46)) (l := host)
  have hdrop : host.drop k = host.dropWhile (fun c => decide (c ≠ 46)) := by
    conv_lhs => rw [← hsplit]
    rw [List.drop_left' hk]
  cases hrest : host.dropWhile (fun c : UInt8 => decide (c ≠ 46)) with
  | nil =>
      have hlen := congrArg List.length hdrop
      rw [hrest, List.length_drop, List.length_nil] at hlen
      omega
  | cons d tail =>
      have hne : host.dropWhile (fun c : UInt8 => decide (c ≠ 46)) ≠ [] := by
        rw [hrest]
        simp
      have hdot := List.head_dropWhile_not (fun c : UInt8 => decide (c ≠ 46)) hne
      simp only [hrest, List.head_cons, decide_eq_false_iff_not, not_not] at hdot
      subst hdot
      refine ⟨host.takeWhile (fun c => decide (c ≠ 46)), tail, ?_, ?_, ?_, ?_⟩
      · exact List.length_pos_iff.1 (hk.symm ▸ hpos)
      · intro hmem
        have hne := List.mem_takeWhile_imp hmem
        simp at hne
      · rw [← hrest]
        exact hsplit.symm
      · rw [hdrop, hrest]

theorem takeWhile_of_label {label tail : Bytes} (hdot : 46 ∉ label) :
    ((label ++ 46 :: tail).takeWhile (· ≠ 46)).length = label.length := by
  rw [List.takeWhile_append_of_pos]
  · simp
  · intro c hc
    simp only [ne_eq, decide_eq_true_eq]
    rintro rfl
    exact hdot hc

theorem dnsNameMatch_wildcard {rest host : Bytes} (hrest : rest ≠ []) :
    dnsNameMatch (42 :: 46 :: rest) host = true ↔ WildcardMatches (42 :: 46 :: rest) host := by
  have hpos := List.length_pos_iff.2 hrest
  constructor
  · intro h
    unfold dnsNameMatch at h
    split at h
    · cases h
    rw [if_pos ⟨by simp; omega, rfl, rfl⟩, decide_eq_true_iff] at h
    obtain ⟨hk, hlt, -, hsame⟩ := h
    obtain ⟨label, tail, hne, hdot, hhost, hdrop⟩ := takeWhile_label rfl hk hlt
    rw [hdrop, dnsCaseEq_iff] at hsame
    exact ⟨rest, label, tail, hrest, rfl, hne, hdot, hhost, ((SameName.cons (.inr rfl)).1 hsame).2⟩
  · rintro ⟨rest', label, tail, -, heq, hne, hdot, rfl, hsame⟩
    obtain rfl : rest = rest' := (List.cons.inj (List.cons.inj heq).2).2
    have hlabel := List.length_pos_iff.2 hne
    have hlen := hsame.length
    unfold dnsNameMatch
    rw [if_neg (by simp), if_pos ⟨by simp; omega, rfl, rfl⟩, decide_eq_true_iff,
      takeWhile_of_label hdot]
    refine ⟨hlabel, ?_, ?_, ?_⟩
    · rw [List.length_append, List.length_cons]
      omega
    · rw [List.length_append, List.length_cons, List.length_cons, List.length_cons]
      omega
    · rw [List.drop_left, dnsCaseEq_iff]
      exact (SameName.cons (.inr rfl)).2 ⟨rfl, hsame⟩

/-- The matcher decides the rule. -/
theorem dnsNameMatch_iff {pat : Bytes} (host : Bytes) (hpat : pat ≠ []) :
    dnsNameMatch pat host = true ↔ NameMatches pat host := by
  by_cases hwild : ∃ rest, rest ≠ [] ∧ pat = 42 :: 46 :: rest
  · obtain ⟨rest, hrest, rfl⟩ := hwild
    rw [dnsNameMatch_wildcard hrest]
    refine ⟨.inr, fun h => h.elim (fun hsame => ?_) id⟩
    -- a host that spells the pattern has the star as its label
    match host, hsame.length, hsame with
    | c :: d :: tail, _, hsame =>
        obtain ⟨hstar, hafter⟩ := (SameName.cons (.inl rfl)).1 hsame
        obtain ⟨hdot, htail⟩ := (SameName.cons (.inr rfl)).1 hafter
        rw [hstar, hdot]
        exact ⟨rest, [42], tail, hrest, rfl, by simp, by decide, rfl, htail⟩
  · have hplain : NameMatches pat host ↔ SameName pat host := by
      refine ⟨fun h => h.elim id ?_, .inl⟩
      rintro ⟨rest, -, -, hrest, hpat, -⟩
      exact absurd ⟨rest, hrest, hpat⟩ hwild
    have hnot : ¬ (pat.length > 2 ∧ pat.getD 0 0 = 42 ∧ pat.getD 1 0 = 46) := by
      rintro ⟨hlen, hstar, hdot⟩
      match pat, hlen, hstar, hdot with
      | a :: b :: c :: rest, _, hstar, hdot =>
          obtain rfl : a = 42 := hstar
          obtain rfl : b = 46 := hdot
          exact hwild ⟨c :: rest, by simp, rfl⟩
    rw [hplain]
    unfold dnsNameMatch
    have hpos := List.length_pos_iff.2 hpat
    by_cases hhost : host.length = 0
    · rw [if_pos (.inr hhost)]
      refine iff_of_false Bool.false_ne_true fun hsame => ?_
      have hlen := hsame.length
      omega
    · rw [if_neg (by omega), if_neg hnot, decide_eq_true_iff, dnsCaseEq_iff]
      exact ⟨And.right, fun hsame => ⟨hsame.length, hsame⟩⟩

/-! ### The commonNames of a subject -/

/-- The elements of this tag at the front of `b`, up to the first place where none stands. -/
inductive Elements (tag : Nat) : Bytes → List Bytes → Prop
  | stop {b : Bytes} (none : ∀ v r : Bytes, v.length < 2 ^ 24 → b ≠ tlv tag v ++ r) :
      Elements tag b []
  | more {v r : Bytes} {vs : List Bytes} (sized : v.length < 2 ^ 24) (rest : Elements tag r vs) :
      Elements tag (tlv tag v ++ r) (v :: vs)

/-- The attributes of an RDN, each an OID and what follows it, up to the first place where
none stands. -/
inductive Attributes : Bytes → List (Bytes × Bytes) → Prop
  | stop {b : Bytes} (none : ∀ oid v r : Bytes, (tlv asnObjectId oid ++ v).length < 2 ^ 24 →
      b ≠ tlv asnSeq (tlv asnObjectId oid ++ v) ++ r) : Attributes b []
  | more {oid v r : Bytes} {attrs : List (Bytes × Bytes)}
      (sized : (tlv asnObjectId oid ++ v).length < 2 ^ 24) (rest : Attributes r attrs) :
      Attributes (tlv asnSeq (tlv asnObjectId oid ++ v) ++ r) ((oid, v) :: attrs)

/-- The attributes of a subject, RDN by RDN. -/
def SubjectAttributes (subject : Bytes) (attrs : List (Bytes × Bytes)) : Prop :=
  ∃ (rdns : List Bytes) (attrss : List (List (Bytes × Bytes))),
    Elements asnSetOf subject rdns ∧ List.Forall₂ Attributes rdns attrss ∧ attrs = attrss.flatten

def stringTags : List Nat := [asnUtf8String, asnPrintableString, asnT61String, asnIa5String]

theorem stringTags_lt : ∀ tag ∈ stringTags, tag < 256 := by decide

/-- A commonName that can be a host name: a string of one of four kinds. -/
def CnName (attr : Bytes × Bytes) (name : Bytes) : Prop :=
  attr.1 = oidCN ∧ DnsName name ∧ ∃ tag ∈ stringTags, ∃ r, attr.2 = tlv tag name ++ r

/-- The first of the attributes that can be a host name. -/
def FirstCn (attrs : List (Bytes × Bytes)) : Option Bytes → Prop
  | none => ∀ a ∈ attrs, ∀ name, ¬ CnName a name
  | some name => ∃ before a after, attrs = before ++ a :: after ∧
      (∀ b ∈ before, ∀ name', ¬ CnName b name') ∧ CnName a name

theorem tlv_append_length_lt (tag : Nat) (v r : Bytes) : r.length < (tlv tag v ++ r).length := by
  rw [List.length_append, tlv_length]
  omega

theorem exists_elements (tag : Nat) (b : Bytes) : ∃ vs, Elements tag b vs := by
  induction hn : b.length using Nat.strong_induction_on generalizing b with
  | _ n ih =>
      by_cases hfront : ∃ v r : Bytes, v.length < 2 ^ 24 ∧ b = tlv tag v ++ r
      · obtain ⟨v, r, hsized, rfl⟩ := hfront
        obtain ⟨vs, hvs⟩ := ih r.length (hn ▸ tlv_append_length_lt tag v r) r rfl
        exact ⟨v :: vs, .more hsized hvs⟩
      · exact ⟨[], .stop fun v r hsized heq => hfront ⟨v, r, hsized, heq⟩⟩

theorem exists_attributes (b : Bytes) : ∃ attrs, Attributes b attrs := by
  induction hn : b.length using Nat.strong_induction_on generalizing b with
  | _ n ih =>
      by_cases hfront : ∃ oid v r : Bytes, (tlv asnObjectId oid ++ v).length < 2 ^ 24 ∧
          b = tlv asnSeq (tlv asnObjectId oid ++ v) ++ r
      · obtain ⟨oid, v, r, hsized, rfl⟩ := hfront
        obtain ⟨attrs, hattrs⟩ := ih r.length (hn ▸ tlv_append_length_lt _ _ r) r rfl
        exact ⟨(oid, v) :: attrs, .more hsized hattrs⟩
      · exact ⟨[], .stop fun oid v r hsized heq => hfront ⟨oid, v, r, hsized, heq⟩⟩

theorem exists_subjectAttributes (b : Bytes) : ∃ attrs, SubjectAttributes b attrs := by
  obtain ⟨rdns, hrdns⟩ := exists_elements asnSetOf b
  have hall : ∀ rdns : List Bytes, ∃ attrss, List.Forall₂ Attributes rdns attrss := by
    intro rdns
    induction rdns with
    | nil => exact ⟨[], .nil⟩
    | cons rdn rdns ih =>
        obtain ⟨attrs, hattrs⟩ := exists_attributes rdn
        obtain ⟨attrss, hattrss⟩ := ih
        exact ⟨attrs :: attrss, .cons hattrs hattrss⟩
  obtain ⟨attrss, hattrss⟩ := hall rdns
  exact ⟨_, rdns, attrss, hrdns, hattrss, rfl⟩

/-! ### The walk over the subject -/

section Walk

variable {der : Bytes} {idx e : Nat}

/-- A header that is read stands at the front of what is left. -/
theorem header_front {tag len i : Nat} (htag : tag < 256) (he : e ≤ der.length)
    (h : asnGetHeader der tag idx e = .ok (len, i)) :
    slice der idx (e - idx) = tlv tag (slice der i len) ++ slice der (i + len) (e - (i + len)) := by
  have helem := asnGetHeader_element htag he h
  have hle := helem.le
  have hrest : At der (i + len) (slice der (i + len) (e - (i + len))) := At.of_slice (by omega)
  refine (helem.inDer.append_at hrest helem.next).slice_eq ?_
  rw [List.length_append, ← Nat.add_assoc, helem.next, slice_length (by omega)]
  omega

/-- What stands at the front of what is left is read. -/
theorem header_of_front {tag : Nat} {v r : Bytes} (htag : tag < 256) (he : e ≤ der.length)
    (hidx : idx ≤ e) (hv : v.length < 2 ^ 24) (h : slice der idx (e - idx) = tlv tag v ++ r) :
    ∃ i, asnGetHeader der tag idx e = .ok (v.length, i) ∧ slice der i v.length = v ∧
      slice der (i + v.length) (e - (i + v.length)) = r := by
  have hat : At der idx (derHeader tag v.length ++ v ++ r) := by
    have hslice : At der idx (slice der idx (e - idx)) := At.of_slice (by omega)
    rw [h] at hslice
    exact hslice
  have hlen := congrArg List.length h
  rw [slice_length (by omega), tlv, List.length_append, List.length_append] at hlen
  refine ⟨_, (asnGetHeader_ok htag).2 ⟨hv, hat.left.left, rfl, by omega⟩, hat.left.right.2, ?_⟩
  have hrest := hat.right
  rw [List.length_append, ← Nat.add_assoc] at hrest
  refine hrest.slice_eq ?_
  omega

theorem attempt_none {α : Type} {x : Asn α} (h : attempt x = .ok none) : ∀ a, x ≠ .ok a := by
  rintro a rfl
  cases h

theorem attempt_some {α : Type} {x : Asn α} {a : α} (h : attempt x = .ok (some a)) : x = .ok a := by
  unfold attempt at h
  split at h
  · cases h
    rfl
  · cases h
  · cases h

/-- No element where the header was refused. -/
theorem front_of_none {tag : Nat} (htag : tag < 256) (he : e ≤ der.length) (hidx : idx ≤ e)
    (h : attempt (asnGetHeader der tag idx e) = .ok none) (v r : Bytes) (hv : v.length < 2 ^ 24) :
    slice der idx (e - idx) ≠ tlv tag v ++ r := by
  intro hfront
  obtain ⟨i, hread, -⟩ := header_of_front htag he hidx hv hfront
  exact attempt_none h _ hread

theorem front_head {tag : Nat} {v r : Bytes} {t : Nat} (ht : byteAt der idx = .ok t)
    (hidx : idx < e) (htag : tag < 256) (h : slice der idx (e - idx) = tlv tag v ++ r) :
    t = tag := by
  obtain ⟨b, hget, rfl⟩ := byteAt_ok.1 ht
  have hhead := congrArg (·[0]?) h
  rw [slice, List.getElem?_take_of_lt (by omega), List.getElem?_drop, Nat.add_zero, hget] at hhead
  obtain rfl : b = UInt8.ofNat tag := Option.some.inj hhead
  rw [UInt8.toNat_ofNat', Nat.mod_eq_of_lt htag]

/-- The value of a commonName gives its string, when it is one. -/
theorem cnValue_ok {r : Option Slice} (he : e ≤ der.length) (hidx : idx ≤ e)
    (h : cnValue der idx e = .ok r) :
    (∀ s, r = some s → CnName (oidCN, slice der idx (e - idx)) (s.bytes der)) ∧
      (r = none → ∀ name, ¬ CnName (oidCN, slice der idx (e - idx)) name) := by
  unfold cnValue at h
  by_cases hmore : idx < e
  · rw [if_pos hmore] at h
    obtain ⟨tag, htag, h⟩ := except_bind_eq_ok.1 h
    have htagLt := (byteAt_at.1 htag).1
    by_cases hkind : tag = asnUtf8String ∨ tag = asnPrintableString ∨ tag = asnT61String ∨
        tag = asnIa5String
    · rw [if_pos hkind] at h
      obtain ⟨header, hheader, h⟩ := except_bind_eq_ok.1 h
      -- a string at the front has this tag
      have hfront : ∀ name, CnName (oidCN, slice der idx (e - idx)) name →
          ∃ r, slice der idx (e - idx) = tlv tag name ++ r ∧ DnsName name := by
        rintro name ⟨-, hname, tag', htag', r, hvalue⟩
        obtain rfl := front_head htag hmore (stringTags_lt _ htag') hvalue
        exact ⟨r, hvalue, hname⟩
      have hsized : ∀ name, DnsName name → name.length < 2 ^ 24 := fun name hname =>
        Nat.lt_of_le_of_lt hname.2.1 (by decide)
      cases header with
      | none =>
          cases h
          refine ⟨fun s hs => (nomatch hs), fun _ name hcn => ?_⟩
          obtain ⟨r, hvalue, hname⟩ := hfront name hcn
          exact front_of_none htagLt he hidx hheader name r (hsized name hname) hvalue
      | some header =>
          obtain ⟨len, i⟩ := header
          have hread := attempt_some hheader
          have helem := asnGetHeader_element htagLt he hread
          have hle := helem.le
          have hlen := helem.contents
          have hvalue := header_front htagLt he hread
          have honly : ∀ name, CnName (oidCN, slice der idx (e - idx)) name →
              slice der i len = name ∧ DnsName name := by
            intro name hcn
            obtain ⟨r, hvalue', hname⟩ := hfront name hcn
            rw [hvalue] at hvalue'
            have hltLen : (slice der i len).length < 2 ^ 24 := by
              rw [hlen]
              exact helem.len_lt
            exact ⟨(tlv_append_inj htagLt htagLt hltLen (hsized name hname) hvalue').2.1, hname⟩
          dsimp only at h
          by_cases hsize : 1 ≤ len ∧ len ≤ x509MaxDnsName
          · rw [if_pos hsize] at h
            obtain ⟨nul, hnul, h⟩ := except_bind_eq_ok.1 h
            have hnul := hasNul_ok (by omega) hnul
            cases nul with
            | true =>
                cases h
                refine ⟨fun s hs => (nomatch hs), fun _ name hcn => ?_⟩
                obtain ⟨rfl, hname⟩ := honly name hcn
                exact hname.2.2 (hnul.1 rfl)
            | false =>
                cases h
                refine ⟨?_, fun hnone => (nomatch hnone)⟩
                intro s hs
                obtain rfl := Option.some.inj hs
                have hclean : 0 ∉ slice der i len := fun hmem => nomatch hnul.2 hmem
                have hname : DnsName (slice der i len) := by
                  refine ⟨?_, ?_, hclean⟩
                  · rw [hlen]
                    exact hsize.1
                  · rw [hlen]
                    exact hsize.2
                refine ⟨rfl, hname, tag, ?_, _, hvalue⟩
                simpa [stringTags] using hkind
          · rw [if_neg hsize] at h
            cases h
            refine ⟨fun s hs => (nomatch hs), fun _ name hcn => ?_⟩
            obtain ⟨rfl, hname⟩ := honly name hcn
            refine hsize ⟨?_, ?_⟩
            · rw [← hlen]
              exact hname.1
            · rw [← hlen]
              exact hname.2.1
    · rw [if_neg hkind] at h
      cases h
      refine ⟨fun s hs => (nomatch hs), fun _ name hcn => ?_⟩
      obtain ⟨-, -, tag', htag', r, hvalue⟩ := hcn
      obtain rfl := front_head htag hmore (stringTags_lt _ htag') hvalue
      exact hkind (by simpa [stringTags] using htag')
  · rw [if_neg hmore] at h
    cases h
    refine ⟨fun s hs => (nomatch hs), fun _ name hcn => ?_⟩
    obtain ⟨-, -, tag', -, r, hvalue⟩ := hcn
    have hlen := congrArg List.length hvalue
    dsimp only at hlen
    rw [slice_length (by omega), List.length_append, tlv_length] at hlen
    omega

theorem FirstCn.head {a : Bytes × Bytes} {attrs : List (Bytes × Bytes)} {name : Bytes}
    (h : CnName a name) : FirstCn (a :: attrs) (some name) :=
  ⟨[], a, attrs, rfl, fun _ hb => (List.not_mem_nil hb).elim, h⟩

theorem FirstCn.append_none {attrs more : List (Bytes × Bytes)} {r : Option Bytes}
    (hnone : FirstCn attrs none) (h : FirstCn more r) : FirstCn (attrs ++ more) r := by
  cases r with
  | none => exact fun a ha => (List.mem_append.1 ha).elim (hnone a) (h a)
  | some name =>
      obtain ⟨before, a, after, rfl, hbefore, ha⟩ := h
      refine ⟨attrs ++ before, a, after, (List.append_assoc ..).symm, fun b hb => ?_, ha⟩
      exact (List.mem_append.1 hb).elim (hnone b) (hbefore b)

theorem FirstCn.append_some {attrs more : List (Bytes × Bytes)} {name : Bytes}
    (h : FirstCn attrs (some name)) : FirstCn (attrs ++ more) (some name) := by
  obtain ⟨before, a, after, rfl, hbefore, ha⟩ := h
  exact ⟨before, a, after ++ more, by simp, hbefore, ha⟩

theorem findCnAttr_ok {n : Nat} {r : Option Slice} (he : e ≤ der.length) (hidx : idx ≤ e)
    (h : findCnAttr der n idx e = .ok r) :
    ∃ attrs, Attributes (slice der idx (e - idx)) attrs ∧ FirstCn attrs (r.map (·.bytes der)) := by
  induction n generalizing idx with
  | zero => cases h
  | succ n ih =>
      have hstop : (∀ oid v r : Bytes, (tlv asnObjectId oid ++ v).length < 2 ^ 24 →
          slice der idx (e - idx) ≠ tlv asnSeq (tlv asnObjectId oid ++ v) ++ r) → r = none →
          ∃ attrs, Attributes (slice der idx (e - idx)) attrs ∧
            FirstCn attrs (r.map (·.bytes der)) := by
        rintro hnone rfl
        exact ⟨[], .stop hnone, fun a ha => nomatch ha⟩
      unfold findCnAttr at h
      by_cases hmore : idx < e
      · rw [if_pos hmore] at h
        obtain ⟨header, hheader, h⟩ := except_bind_eq_ok.1 h
        cases header with
        | none =>
            refine hstop (fun oid v r hsized => ?_) (except_pure_eq_ok.1 h).symm
            exact front_of_none (by decide) he hidx hheader _ r hsized
        | some header =>
            obtain ⟨len, i⟩ := header
            have hread := attempt_some hheader
            have helem := asnGetHeader_element (by decide) he hread
            have hle := helem.le
            have hfront := header_front (by decide) he hread
            have hsized : (slice der i len).length < 2 ^ 24 := by
              rw [helem.contents]
              exact helem.len_lt
            have hin : i + len ≤ der.length := by omega
            have hbody : slice der i (i + len - i) = slice der i len := by
              rw [Nat.add_sub_cancel_left]
            obtain ⟨oidHeader, hoid, h⟩ := except_bind_eq_ok.1 h
            cases oidHeader with
            | none =>
                refine hstop (fun oid v r hvsized heq => ?_) (except_pure_eq_ok.1 h).symm
                rw [hfront] at heq
                have hsame := (tlv_append_inj (by decide) (by decide) hsized hvsized heq).2.1
                rw [List.length_append, tlv_length] at hvsized
                refine front_of_none (by decide) hin (by omega) hoid oid v (by omega) ?_
                rw [hbody, hsame]
            | some oidHeader =>
                obtain ⟨oidLen, j⟩ := oidHeader
                have hoidRead := attempt_some hoid
                have hoidElem := asnGetHeader_element (by decide) hin hoidRead
                have hoidLe := hoidElem.le
                have hoidFront := header_front (by decide) hin hoidRead
                rw [hbody] at hoidFront
                let attr : Bytes × Bytes :=
                  (slice der j oidLen, slice der (j + oidLen) (i + len - (j + oidLen)))
                have hcons : ∀ attrs, Attributes (slice der (i + len) (e - (i + len))) attrs →
                    Attributes (slice der idx (e - idx)) (attr :: attrs) := by
                  intro attrs hattrs
                  rw [hfront, hoidFront]
                  rw [hoidFront] at hsized
                  exact .more hsized hattrs
                obtain ⟨same, hsame, h⟩ := except_bind_eq_ok.1 h
                obtain ⟨cn, hcn, h⟩ := ite_bind_eq_ok.1 h
                have hsame := oidEq_ok (by omega) hsame
                -- what this attribute gives
                have hthis : (∀ s, cn = some s → CnName attr (s.bytes der)) ∧
                    (cn = none → ∀ name, ¬ CnName attr name) := by
                  cases same with
                  | true =>
                      have hattr :
                        attr = (oidCN, slice der (j + oidLen) (i + len - (j + oidLen))) :=
                        congrArg (·, _) (hsame.1 rfl)
                      rw [hattr]
                      exact cnValue_ok hin hoidLe hcn
                  | false =>
                      obtain rfl := except_pure_eq_ok.1 hcn
                      refine ⟨fun s hs => (nomatch hs), fun _ name hname => ?_⟩
                      exact absurd (hsame.2 hname.1) Bool.false_ne_true
                cases cn with
                | some name =>
                    obtain rfl := except_pure_eq_ok.1 h
                    obtain ⟨attrs, hattrs⟩ :=
                      exists_attributes (slice der (i + len) (e - (i + len)))
                    exact ⟨attr :: attrs, hcons attrs hattrs, .head (hthis.1 name rfl)⟩
                | none =>
                    obtain ⟨attrs, hattrs, hfirst⟩ := ih hle h
                    have hskip : FirstCn [attr] none := by
                      intro a ha
                      obtain rfl := List.mem_singleton.1 ha
                      exact hthis.2 rfl
                    exact ⟨attr :: attrs, hcons attrs hattrs, hskip.append_none hfirst⟩
      · rw [if_neg hmore] at h
        refine hstop (fun oid v r hsized heq => ?_) (except_pure_eq_ok.1 h).symm
        have hlen := congrArg List.length heq
        rw [slice_length (by omega), List.length_append, tlv_length] at hlen
        omega

theorem findCn_ok {n : Nat} {r : Option Slice} (he : e ≤ der.length) (hidx : idx ≤ e)
    (h : findCn der n idx e = .ok r) :
    ∃ attrs, SubjectAttributes (slice der idx (e - idx)) attrs ∧
      FirstCn attrs (r.map (·.bytes der)) := by
  induction n generalizing idx with
  | zero => cases h
  | succ n ih =>
      have hstop : (∀ v r : Bytes, v.length < 2 ^ 24 →
          slice der idx (e - idx) ≠ tlv asnSetOf v ++ r) → r = none →
          ∃ attrs, SubjectAttributes (slice der idx (e - idx)) attrs ∧
            FirstCn attrs (r.map (·.bytes der)) := by
        rintro hnone rfl
        exact ⟨[], ⟨[], [], .stop hnone, .nil, rfl⟩, fun a ha => (List.not_mem_nil ha).elim⟩
      unfold findCn at h
      by_cases hmore : idx < e
      · rw [if_pos hmore] at h
        obtain ⟨header, hheader, h⟩ := except_bind_eq_ok.1 h
        cases header with
        | none =>
            refine hstop (fun v r hsized => ?_) (except_pure_eq_ok.1 h).symm
            exact front_of_none (by decide) he hidx hheader v r hsized
        | some header =>
            obtain ⟨len, i⟩ := header
            have hread := attempt_some hheader
            have helem := asnGetHeader_element (by decide) he hread
            have hle := helem.le
            have hfront := header_front (by decide) he hread
            have hsized : (slice der i len).length < 2 ^ 24 := by
              rw [helem.contents]
              exact helem.len_lt
            obtain ⟨cn, hcn, h⟩ := except_bind_eq_ok.1 h
            obtain ⟨attrs, hattrs, hfirst⟩ := findCnAttr_ok (by omega) (by omega) hcn
            rw [Nat.add_sub_cancel_left] at hattrs
            have hcons : ∀ more, SubjectAttributes (slice der (i + len) (e - (i + len))) more →
                SubjectAttributes (slice der idx (e - idx)) (attrs ++ more) := by
              rintro more ⟨rdns, attrss, hrdns, hall, rfl⟩
              rw [hfront]
              exact ⟨_, attrs :: attrss, .more hsized hrdns, .cons hattrs hall, rfl⟩
            cases cn with
            | some name =>
                obtain rfl := except_pure_eq_ok.1 h
                obtain ⟨more, hmore⟩ :=
                  exists_subjectAttributes (slice der (i + len) (e - (i + len)))
                exact ⟨attrs ++ more, hcons more hmore, hfirst.append_some⟩
            | none =>
                obtain ⟨more, hmore, hrest⟩ := ih hle h
                exact ⟨attrs ++ more, hcons more hmore, hfirst.append_none hrest⟩
      · rw [if_neg hmore] at h
        refine hstop (fun v r hsized heq => ?_) (except_pure_eq_ok.1 h).symm
        have hlen := congrArg List.length heq
        rw [slice_length (by omega), List.length_append, tlv_length] at hlen
        omega

end Walk

/-! ### The names of a certificate -/

/-- The dNSNames of the subjectAltName, when there is one. -/
def CertDnsNames (exts : Option (List CertExt)) (names : List Bytes) : Prop :=
  match exts.bind (extNamed · .san) with
  | none => names = []
  | some san => ∃ alt, AltName san.value alt ∧ names = dnsNames alt

/-- The names that decide: the dNSNames that fit the pool, and the commonName when there is
no dNSName at all. -/
def HostMatches (names : List Bytes) (cn : Option Bytes) (host : Bytes) : Prop :=
  (∃ name ∈ names.take x509MaxSan, NameMatches name host) ∨
    names = [] ∧ ∃ name, cn = some name ∧ NameMatches name host

/-- The pool holds the first of the dNSNames. -/
theorem certDnsNames_pool {B : X509Build} {der : Bytes} {version : Nat} {x : X509Exts}
    {exts : Option (List CertExt)} (h : ExtsFieldReported B der version x exts) :
    ∃ names, CertDnsNames exts names ∧ (∀ name ∈ names, DnsName name) ∧
      poolNames der x.san = names.take x509MaxSan := by
  cases exts with
  | none =>
      obtain rfl : x = .zero := h
      exact ⟨[], rfl, fun _ hname => (List.not_mem_nil hname).elim, rfl⟩
  | some exts =>
      have hsan := h.2.2.san
      unfold CertDnsNames
      rw [Option.bind_some]
      cases hext : extNamed exts .san with
      | none =>
          rw [hext] at hsan
          refine ⟨[], rfl, fun _ hname => (List.not_mem_nil hname).elim, ?_⟩
          rw [hsan.2.2]
          rfl
      | some san =>
          rw [hext] at hsan
          obtain ⟨-, -, alt, halt, hpool⟩ := hsan
          exact ⟨dnsNames alt, ⟨alt, halt, rfl⟩, halt.2.2.1, hpool⟩

/-- A host is accepted by the names of the certificate and by nothing else. -/
theorem server_name_decided {B : X509Build} {der : Bytes} {c : X509Cert} (hB : B.hostname = true)
    (hcommon : B.commonName = true) (h : x509Parse B der = .ok c) :
    ∃ (t : TbsParts) (names : List Bytes) (attrs : List (Bytes × Bytes)) (cn : Option Bytes),
      c.tbs.bytes der = t.encode ∧ (∀ u ∈ t.uids, u.1 = asnUid1 ∨ u.1 = asnUid2) ∧
      CertDnsNames t.exts names ∧ SubjectAttributes t.subject attrs ∧ FirstCn attrs cn ∧
      ∀ host, checkServerName B c host = true ↔ HostMatches names cn host := by
  obtain ⟨R⟩ := x509Parse_read h
  obtain ⟨t, hencode, -, hsubject, huids, hreported⟩ := R.tbs_fields hB
  obtain ⟨names, hnames, hgood, hpool⟩ := certDnsNames_pool hreported
  have hsubjectElem := asnGetHeader_element (by decide) R.tbs_le R.subject
  have hsubjectLe := hsubjectElem.le
  have htbs := R.tbs_le
  have hcn := R.subjectCN
  rw [if_pos (by rw [hB, hcommon]; rfl)] at hcn
  obtain ⟨attrs, hattrs, hfirst⟩ := findCn_ok (by omega) (by omega) hcn
  rw [Nat.add_sub_cancel_left, ← hsubject] at hattrs
  refine ⟨t, names, attrs, _, hencode, huids, hnames, hattrs, hfirst, fun host => ?_⟩
  have hpoolAny : (∃ s ∈ c.exts.san, dnsNameMatch (s.bytes c.der) host = true) ↔
      ∃ name ∈ names.take x509MaxSan, NameMatches name host := by
    rw [R.der_eq, ← hpool, poolNames]
    constructor
    · rintro ⟨s, hs, hmatch⟩
      have hmem : s.bytes der ∈ names.take x509MaxSan := by
        rw [← hpool]
        exact List.mem_map_of_mem hs
      have hne := (hgood _ (List.mem_of_mem_take hmem)).1
      exact ⟨_, List.mem_map_of_mem hs, (dnsNameMatch_iff _ (List.length_pos_iff.1 hne)).1 hmatch⟩
    · rintro ⟨name, hname, hmatch⟩
      obtain ⟨s, hs, rfl⟩ := List.mem_map.1 hname
      have hmem : s.bytes der ∈ names.take x509MaxSan := by
        rw [← hpool]
        exact hname
      have hne := (hgood _ (List.mem_of_mem_take hmem)).1
      exact ⟨s, hs, (dnsNameMatch_iff _ (List.length_pos_iff.1 hne)).2 hmatch⟩
  have hempty : c.exts.san.isEmpty = true ↔ names = [] := by
    have hlen := congrArg List.length hpool
    rw [poolNames, List.length_map, List.length_take] at hlen
    rw [List.isEmpty_iff, ← List.length_eq_zero_iff, ← List.length_eq_zero_iff, hlen]
    unfold x509MaxSan
    omega
  unfold checkServerName HostMatches
  rw [Bool.or_eq_true, List.any_eq_true, hpoolAny, Bool.and_eq_true, Bool.and_eq_true, hempty,
    Option.any_eq_true]
  refine or_congr Iff.rfl ?_
  rw [and_assoc, and_iff_right hcommon]
  refine and_congr Iff.rfl ?_
  rw [R.der_eq]
  cases hfound : c.subjectCN with
  | none => simp
  | some s =>
      rw [hfound] at hfirst
      obtain ⟨-, a, -, -, -, ha⟩ := hfirst
      have hne := List.length_pos_iff.1 ha.2.1.1
      have hmatch := dnsNameMatch_iff host hne
      constructor
      · rintro ⟨s', hs', hs'match⟩
        cases hs'
        exact ⟨_, rfl, hmatch.1 hs'match⟩
      · rintro ⟨name, hname, hnamematch⟩
        obtain rfl := Option.some.inj hname
        exact ⟨s, rfl, hmatch.2 hnamematch⟩

theorem server_name_decided_sample : ∃ c,
    x509Parse Sample.x509Build (Sample.extCert [] Sample.fourExts) = .ok c ∧
      ∃ (t : TbsParts) (names : List Bytes) (cn : Option Bytes),
        c.tbs.bytes (Sample.extCert [] Sample.fourExts) = t.encode ∧ CertDnsNames t.exts names ∧
          ∀ host, checkServerName Sample.x509Build c host = true ↔ HostMatches names cn host := by
  obtain ⟨c, hc⟩ := Sample.extCert_parses
  obtain ⟨t, names, attrs, cn, hencode, -, hnames, -, -, hall⟩ := server_name_decided rfl rfl hc
  exact ⟨c, hc, t, names, cn, hencode, hnames, hall⟩

end WolfNano
