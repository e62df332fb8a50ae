/-
EncryptedExtensions, `wn_CheckEncExt`: the bodies it accepts are lists of allowed
extensions; that a type occurs once is not looked at.
-/
import WolfNano.HelloRead
import Mathlib.Data.List.Duplicate

namespace WolfNano

open Duplex

/-! ### What is accepted -/

/-- An extension whose two numbers fit their fields. -/
def HelloExt.InRange (e : HelloExt) : Prop := e.type < 2 ^ 16 ∧ e.body.length < 2 ^ 16

/-- supported_groups, or an empty server_name when one was offered. -/
def Allowed (sniOffered : Bool) (e : HelloExt) : Prop :=
  e.type = extSupportedGrp ∨ (e.type = extServerName ∧ sniOffered = true ∧ e.body = [])

/-- A body that is these extensions. -/
def EncExtForm (body : Bytes) (exts : List HelloExt) : Prop :=
  (exts.flatMap HelloExt.encode).length < 2 ^ 16 ∧ body = vec16 (exts.flatMap HelloExt.encode)

theorem Allowed.type_lt {sniOffered : Bool} {e : HelloExt} (h : Allowed sniOffered e) :
    e.type < 2 ^ 16 := by
  rcases h with h | ⟨h, -⟩
  · rw [h]
    decide
  · rw [h]
    decide

theorem EncExtForm.inRange {body : Bytes} {exts : List HelloExt} {sniOffered : Bool}
    (h : EncExtForm body exts) (hallowed : ∀ e ∈ exts, Allowed sniOffered e) :
    ∀ e ∈ exts, e.InRange := by
  intro e he
  refine ⟨(hallowed e he).type_lt, ?_⟩
  have hle := @length_le_flatMap _ HelloExt.encode _ _ he
  rw [e.encode_length] at hle
  exact Nat.lt_of_le_of_lt (Nat.le_of_add_left_le hle) h.1

section Loop

variable {msg : Bytes} {sniOffered : Bool} (hmsg : msg.length < 2 ^ 31)

include hmsg

/-- A round takes an allowed extension. -/
theorem checkEncExts_round {fuel p : Nat} {e : HelloExt} (hat : At msg p e.encode)
    (he : e.InRange) (hallowed : Allowed sniOffered e) :
    checkEncExts (fuel + 1) (.upTo msg p) msg.length sniOffered =
      checkEncExts fuel (.upTo msg (p + e.encode.length)) msg.length sniOffered := by
  have hroom := hat.1
  have hlen := e.encode_length
  have htype := Reader.u16_at hmsg he.1 hat.left
  have hcount : (Reader.upTo msg (p + 2)).u16 = (e.body.length, .upTo msg (p + 2 + 2)) :=
    Reader.u16_at hmsg he.2 hat.right.left
  have hbody : (Reader.upTo msg (p + 2 + 2)).bytes e.body.length =
      (some (p + 2 + 2), .upTo msg (p + 2 + 2 + e.body.length)) :=
    Reader.bytes_at hmsg rfl hat.right.right
  have hpass : e.type = extSupportedGrp ∨
      (e.type = extServerName ∧ sniOffered ∧ e.body.length = 0) :=
    hallowed.imp id fun h => ⟨h.1, h.2.1, by rw [h.2.2]; rfl⟩
  have hpos : p + 2 + 2 + e.body.length = p + e.encode.length := by omega
  rw [checkEncExts, if_pos ⟨show p < msg.length by omega, rfl⟩, htype]
  simp only [hcount, hbody]
  rw [if_neg (by exact Bool.false_ne_true), if_pos hpass, hpos]

/-- A round that goes on has read an allowed extension. -/
theorem checkEncExts_read {fuel p : Nat} (hp : p < msg.length)
    (h : checkEncExts (fuel + 1) (.upTo msg p) msg.length sniOffered = .ok ()) :
    ∃ e : HelloExt, At msg p e.encode ∧ e.InRange ∧ Allowed sniOffered e := by
  rw [checkEncExts, if_pos ⟨hp, rfl⟩] at h
  by_cases herr :
    (((Reader.upTo msg p).u16.2.u16.2).bytes (Reader.upTo msg p).u16.2.u16.1).2.err = true
  · simp only [herr, ↓reduceIte] at h
    cases h
  · rw [Bool.not_eq_true] at herr
    have hread₂ := (Reader.bytes_noErr herr).1
    have hread₁ := (Reader.uint_noErr hread₂).1
    obtain ⟨type, htype, hat₁, hone⟩ := Reader.u16_read hmsg (Nat.le_of_lt hp) hread₁
    rw [hone] at h herr hread₂
    have hroom₁ := hat₁.1
    rw [u16_length] at hroom₁
    obtain ⟨len, hlen, hat₂, htwo⟩ := Reader.u16_read hmsg hroom₁ hread₂
    simp only [htwo] at h herr
    have hroom₂ := hat₂.1
    rw [u16_length] at hroom₂
    obtain ⟨body, rfl, hat₃, hthree⟩ := Reader.bytes_read hmsg hroom₂ (by omega) herr
    simp only [hthree] at h
    rw [if_neg (by exact Bool.false_ne_true)] at h
    by_cases hpass : type = extSupportedGrp ∨
        (type = extServerName ∧ sniOffered ∧ body.length = 0)
    · refine ⟨⟨type, body⟩, hat₁.append (hat₂.append hat₃), ⟨htype, hlen⟩, ?_⟩
      exact hpass.imp id fun hname => ⟨hname.1, hname.2.1, List.length_eq_zero_iff.1 hname.2.2⟩
    · rw [if_neg hpass] at h
      cases h

/-- The loop succeeds on allowed extensions up to the end. -/
theorem checkEncExts_ok {fuel p : Nat} (hp : p ≤ msg.length) (hfuel : msg.length - p ≤ fuel) :
    checkEncExts fuel (.upTo msg p) msg.length sniOffered = .ok () ↔
      ∃ exts : List HelloExt, At msg p (exts.flatMap HelloExt.encode) ∧
        p + (exts.flatMap HelloExt.encode).length = msg.length ∧
          (∀ e ∈ exts, e.InRange) ∧ ∀ e ∈ exts, Allowed sniOffered e := by
  induction fuel generalizing p with
  | zero =>
      have hend : p = msg.length := by omega
      refine iff_of_true rfl ⟨[], At.nil hp, hend, ?_, ?_⟩
      · exact fun e he => nomatch he
      · exact fun e he => nomatch he
  | succ fuel ih =>
      by_cases hmore : p < msg.length
      · constructor
        · intro h
          obtain ⟨e, hat, hrange, hallowed⟩ := checkEncExts_read hmsg hmore h
          have hroom := hat.1
          have hlen := e.encode_length
          rw [checkEncExts_round hmsg hat hrange hallowed] at h
          obtain ⟨exts, hats, hend, hranges, halloweds⟩ := (ih hroom (by omega)).1 h
          refine ⟨e :: exts, hat.append hats, ?_, ?_, ?_⟩
          · rw [List.flatMap_cons, List.length_append, ← Nat.add_assoc]
            exact hend
          · exact List.forall_mem_cons.2 ⟨hrange, hranges⟩
          · exact List.forall_mem_cons.2 ⟨hallowed, halloweds⟩
        · rintro ⟨exts, hats, hend, hranges, halloweds⟩
          cases exts with
          | nil =>
              rw [List.flatMap_nil, List.length_nil] at hend
              omega
          | cons e exts =>
              rw [List.flatMap_cons] at hats hend
              obtain ⟨hrange, hranges⟩ := List.forall_mem_cons.1 hranges
              obtain ⟨hallowed, halloweds⟩ := List.forall_mem_cons.1 halloweds
              have hlen := e.encode_length
              have hroom := hats.left.1
              rw [List.length_append, ← Nat.add_assoc] at hend
              rw [checkEncExts_round hmsg hats.left hrange hallowed]
              exact (ih hroom (by omega)).2 ⟨exts, hats.right, hend, hranges, halloweds⟩
      · have hend : p = msg.length := by omega
        rw [checkEncExts, if_neg fun h => hmore h.1]
        refine iff_of_true rfl ⟨[], At.nil hp, hend, ?_, ?_⟩
        · exact fun e he => nomatch he
        · exact fun e he => nomatch he

end Loop

/-- The extensions of a body are told by its bytes. -/
theorem EncExtForm.unique {body : Bytes} {exts exts' : List HelloExt} (h : EncExtForm body exts)
    (h' : EncExtForm body exts') (hr : ∀ e ∈ exts, e.InRange) (hr' : ∀ e ∈ exts', e.InRange) :
    exts = exts' := by
  have heq : vec16 (exts.flatMap HelloExt.encode) ++ [] =
      vec16 (exts'.flatMap HelloExt.encode) ++ [] := by
    rw [← h.2, ← h'.2]
  exact exts_encode_inj hr hr' (vec16_append_inj h.1 h'.1 heq).1

theorem checkEncExt_ok {body : Bytes} {sniOffered : Bool} :
    checkEncExt body sniOffered = .ok () ↔
      ∃ exts, EncExtForm body exts ∧ ∀ e ∈ exts, Allowed sniOffered e := by
  have hdef : checkEncExt body sniOffered =
      if (Reader.upTo body 0).u16.2.err = true ∨
          add32 (Reader.upTo body 0).u16.2.pos (Reader.upTo body 0).u16.1 ≠ body.length then
        .error .decode
      else checkEncExts body.length (Reader.upTo body 0).u16.2
        (add32 (Reader.upTo body 0).u16.2.pos (Reader.upTo body 0).u16.1) sniOffered := rfl
  rw [hdef]
  constructor
  · intro h
    by_cases hbad : (Reader.upTo body 0).u16.2.err = true ∨
        add32 (Reader.upTo body 0).u16.2.pos (Reader.upTo body 0).u16.1 ≠ body.length
    · rw [if_pos hbad] at h
      cases h
    · rw [if_neg hbad] at h
      obtain ⟨herr, hend⟩ := not_or.1 hbad
      rw [Bool.not_eq_true] at herr
      rw [not_not] at hend
      obtain ⟨-, hroom, hread⟩ := Reader.uint_noErr herr
      have hroom : 2 ≤ body.length := hroom
      have hlen : (slice body 0 2).length = 2 := slice_length (by omega)
      have hlt := ofBE_lt_u16 hlen
      have hu16 : (Reader.upTo body 0).u16 = (ofBE (slice body 0 2), .upTo body 2) := hread
      rw [hu16] at h hend
      have htotal : 2 + ofBE (slice body 0 2) = body.length := by
        rw [← hend]
        exact (add32_eq (show 2 + ofBE (slice body 0 2) < 2 ^ 32 by omega)).symm
      rw [hend] at h
      obtain ⟨exts, hat, hexts, -, hallowed⟩ :=
        (checkEncExts_ok (by omega) (by omega) (by omega)).1 h
      have hcount : (exts.flatMap HelloExt.encode).length = ofBE (slice body 0 2) := by omega
      refine ⟨exts, ⟨by omega, ?_⟩, hallowed⟩
      have hhead : At body 0 (u16 (exts.flatMap HelloExt.encode).length) := by
        rw [hcount]
        exact At.u16 (by omega)
      exact ((hhead.append hat).eq_self (by rw [List.length_append, u16_length]; omega)).symm
  · rintro ⟨exts, hform, hallowed⟩
    have hranges := hform.inRange hallowed
    obtain ⟨hlt, hbody⟩ := hform
    have htotal : body.length = 2 + (exts.flatMap HelloExt.encode).length := by
      rw [hbody, vec16_length]
    have hmsg : body.length < 2 ^ 31 := by omega
    have hall : At body 0 (vec16 (exts.flatMap HelloExt.encode)) :=
      At.of_eq_append [] [] (by simpa using hbody) rfl
    have hu16 : (Reader.upTo body 0).u16 =
        ((exts.flatMap HelloExt.encode).length, .upTo body 2) := Reader.u16_at hmsg hlt hall.left
    have hend : add32 2 (exts.flatMap HelloExt.encode).length = body.length := by
      rw [add32_eq (by omega), htotal]
    rw [hu16]
    simp only [Reader.upTo_pos, hend]
    rw [if_neg (by rintro (herr | hne); exacts [Bool.false_ne_true herr, hne rfl])]
    exact (checkEncExts_ok hmsg (by omega) (by omega)).2
      ⟨exts, hall.right, htotal.symm, hranges, hallowed⟩

/-! ### What is legal -/

/-- A legal body: allowed extensions, none of them twice. -/
def LegalEncExt (body : Bytes) (sniOffered : Bool) : Prop :=
  ∃ exts, EncExtForm body exts ∧ (∀ e ∈ exts, Allowed sniOffered e) ∧
    (exts.map HelloExt.type).Nodup

/-- Exactly the legal bodies are accepted, unless the body is a list of allowed extensions
in which a type comes again. -/
theorem encExt_exact_iff (body : Bytes) (sniOffered : Bool) :
    (checkEncExt body sniOffered = .ok () ↔ LegalEncExt body sniOffered) ↔
      ¬ ∃ exts, EncExtForm body exts ∧ (∀ e ∈ exts, Allowed sniOffered e) ∧
        ∃ t, List.Duplicate t (exts.map HelloExt.type) := by
  rw [checkEncExt_ok]
  constructor
  · rintro hexact ⟨exts, hform, hallowed, htwice⟩
    obtain ⟨exts', hform', hallowed', hnodup⟩ := hexact.1 ⟨exts, hform, hallowed⟩
    obtain rfl := hform.unique hform' (hform.inRange hallowed) (hform'.inRange hallowed')
    exact List.exists_duplicate_iff_not_nodup.1 htwice hnodup
  · intro honce
    constructor
    · rintro ⟨exts, hform, hallowed⟩
      refine ⟨exts, hform, hallowed, ?_⟩
      by_contra hdup
      exact honce ⟨exts, hform, hallowed, List.exists_duplicate_iff_not_nodup.2 hdup⟩
    · rintro ⟨exts, hform, hallowed, -⟩
      exact ⟨exts, hform, hallowed⟩

/-- Two supported_groups extensions are accepted. -/
theorem encExt_twice_accepted :
    checkEncExt [0, 8, 0, 10, 0, 0, 0, 10, 0, 0] false = .ok () ∧
      ¬ LegalEncExt [0, 8, 0, 10, 0, 0, 0, 10, 0, 0] false := by
  have hform : EncExtForm [0, 8, 0, 10, 0, 0, 0, 10, 0, 0] [⟨10, []⟩, ⟨10, []⟩] :=
    ⟨by decide, rfl⟩
  refine ⟨rfl, ?_⟩
  rintro ⟨exts, hform', hallowed, hnodup⟩
  have hranges : ∀ e ∈ [(⟨10, []⟩ : HelloExt), ⟨10, []⟩], e.InRange := by
    intro e he
    rcases List.mem_cons.1 he with rfl | he
    · exact ⟨by decide, by decide⟩
    · rw [List.mem_singleton.1 he]
      exact ⟨by decide, by decide⟩
  obtain rfl := hform.unique hform' hranges (hform'.inRange hallowed)
  exact absurd hnodup (by decide)

end WolfNano
