/-
What stands inside a protected record: contents, their type and padding.  The
receiver recovers the two for any padding, and refuses padding alone.
-/
import WolfNano.Sample
import WolfNano.Streams

namespace WolfNano

open Duplex

/-! ### The inner plaintext -/

theorem rdropWhile_zeros (k : Nat) : (zeros k).rdropWhile (· == 0) = [] := by
  induction k with
  | zero => rfl
  | succ k ih =>
      rw [zeros, List.replicate_succ', List.rdropWhile_concat_pos _ _ _ rfl]
      exact ih

theorem splitInner_zeros (k : Nat) : splitInner (zeros k) = .error .decode := by
  rw [splitInner, rdropWhile_zeros]
  rfl

/-- A byte string is zeros, or ends in zeros after its last other byte. -/
theorem zeros_or_typed (inner : Bytes) :
    inner = zeros inner.length ∨
      ∃ content contentType k, contentType ≠ 0 ∧
        inner = content ++ [contentType] ++ zeros k := by
  induction inner using List.reverseRecOn with
  | nil => exact .inl rfl
  | append_singleton inner b ih =>
      by_cases hb : b = 0
      · subst hb
        rcases ih with hzeros | ⟨content, contentType, k, htype, hinner⟩
        · apply Or.inl
          rw [List.length_append, List.length_singleton, zeros, List.replicate_succ']
          exact congrArg (· ++ [0]) hzeros
        · refine .inr ⟨content, contentType, k + 1, htype, ?_⟩
          rw [zeros, List.replicate_succ', ← List.append_assoc]
          exact congrArg (· ++ [0]) hinner
      · exact .inr ⟨inner, b, 0, hb, (List.append_nil _).symm⟩

/-- Contents and type are found exactly where they stand. -/
theorem splitInner_ok_iff {inner content : Bytes} {contentType : UInt8} :
    splitInner inner = .ok (contentType, content) ↔
      contentType ≠ 0 ∧ ∃ k, inner = content ++ [contentType] ++ zeros k := by
  constructor
  · intro h
    rcases zeros_or_typed inner with hzeros | ⟨content', contentType', k, htype, hinner⟩
    · rw [hzeros, splitInner_zeros] at h
      cases h
    · rw [hinner, splitInner_append k htype] at h
      cases h
      exact ⟨htype, k, hinner⟩
  · rintro ⟨htype, k, rfl⟩
    exact splitInner_append k htype

/-! ### Records around it -/

/-- The record authenticates, and this is its inner plaintext. -/
structure Encloses (P : Platform) (key iv : Bytes) (seq : UInt64) (rec inner : Bytes) : Prop where
  aesInit : P.aesInit = true
  aesKey : P.aesKey key = true
  length_eq : rec.length = inner.length + 21
  opens : P.gcmDecrypt key (buildNonce iv seq) (rec.take 5) (slice rec 5 inner.length)
    (slice rec (5 + inner.length) 16) = some inner

section Encloses

variable {P : Platform} {key iv rec inner : Bytes} {seq : UInt64}

theorem Encloses.openRecord_eq (h : Encloses P key iv seq rec inner) :
    openRecord P key iv seq rec = splitInner inner := by
  have hlen : rec.length - recordHeaderSz - recordTagSz = inner.length := by
    rw [h.length_eq]
    rfl
  have hdec : P.gcmDecrypt key (buildNonce iv seq) (rec.take recordHeaderSz)
      (slice rec recordHeaderSz inner.length)
      (slice rec (recordHeaderSz + inner.length) recordTagSz) = some inner := h.opens
  simp only [openRecord, openRecordBy, hlen, h.aesInit, h.aesKey, hdec, Bool.and_self, ↓reduceIte]

/-- A record that opens has an inner plaintext. -/
theorem encloses_of_openRecord {x : UInt8 × Bytes} (hlen : 21 ≤ rec.length)
    (h : openRecord P key iv seq rec = .ok x) :
    ∃ inner, Encloses P key iv seq rec inner ∧ splitInner inner = .ok x := by
  have haes := openRecord_aes h
  rw [Bool.and_eq_true] at haes
  have hopen := h
  rw [openRecord, openRecordBy, if_pos (by rw [haes.1, haes.2]; rfl)] at hopen
  split at hopen
  · cases hopen
  · rename_i inner hdec
    have hinner : rec.length - recordHeaderSz - recordTagSz = inner.length := by
      rw [P.gcmDecrypt_length hdec, slice_length]
      simp only [recordHeaderSz, recordTagSz]
      omega
    rw [hinner] at hdec
    simp only [recordHeaderSz, recordTagSz] at hinner
    exact ⟨inner, ⟨haes.1, haes.2, by omega, hdec⟩, hopen⟩

/-- What `wn_Record_Unprotect` returns for a record with an inner plaintext. -/
theorem Encloses.unprotect (h : Encloses P key iv seq rec inner) (hne : inner ≠ []) {cap : Nat}
    {tr : List (Act Ev)} {x : Except Err (UInt8 × Bytes)} :
    (recordUnprotect P cap key iv seq rec).run.Runs tr x ↔
      tr = [.note (.unprotect cap key iv seq rec)] ∧ x = splitInner inner := by
  have hpos := List.length_pos_of_ne_nil hne
  have hlong : 22 ≤ rec.length := by
    rw [h.length_eq]
    omega
  rw [← h.openRecord_eq]
  cases x with
  | ok a =>
      rw [Prog.runs_run_ok, recordUnprotect_ok]
      exact ⟨fun hx => ⟨hx.2.2, hx.2.1.symm⟩, fun hx => ⟨hlong, hx.2.symm, hx.1⟩⟩
  | error e =>
      rw [Prog.runs_run_error, recordUnprotect_fails]
      constructor
      · rintro (⟨-, hshort, -⟩ | ⟨-, hopen, htr⟩)
        · omega
        · exact ⟨htr, hopen.symm⟩
      · rintro ⟨htr, hopen⟩
        exact .inr ⟨hlong, hopen.symm, htr⟩

/-- A sealed record encloses its contents and type, and its header holds its length. -/
theorem encloses_sealRecord (hopens : P.OpensSealed) {contentType : UInt8} {content : Bytes}
    (h : sealRecord P key iv seq contentType content = some rec) :
    Encloses P key iv seq rec (content ++ [contentType]) := by
  have hlen := sealRecord_length h
  obtain ⟨hinit, hkey, ct, tag, henc, rfl⟩ := sealRecord_eq_some.1 h
  have hparts := P.gcmEncrypt_length henc
  have hct : slice (recordHeader (content.length + 1 + recordTagSz) ++ ct ++ tag) 5
      (content ++ [contentType]).length = ct := by
    rw [← hparts.1]
    exact slice_eq_of_eq_append _ tag rfl rfl rfl
  have htag : slice (recordHeader (content.length + 1 + recordTagSz) ++ ct ++ tag)
      (5 + (content ++ [contentType]).length) 16 = tag := by
    apply slice_eq_of_eq_append (recordHeader (content.length + 1 + recordTagSz) ++ ct) []
    · exact (List.append_nil _).symm
    · rw [← hparts.1, @List.length_append _ (recordHeader _), recordHeader_length]
    · exact hparts.2.symm
  refine ⟨hinit, hkey, ?_, ?_⟩
  · rw [hlen, List.length_append, List.length_singleton]
  · rw [hct, htag]
    exact hopens _ _ _ _ _ _ henc

theorem sealRecord_header {contentType : UInt8} {content : Bytes}
    (h : sealRecord P key iv seq contentType content = some rec)
    (hmax : content.length ≤ maxPlaintext) : ofBE (slice rec 3 2) = rec.length - 5 := by
  have hfits := sealRecord_fits h hmax (Nat.le_refl _)
  have hlen : rec.length = 5 + ofBE (slice rec 3 2) := hfits.length_eq
  omega

end Encloses

/-! ### Protecting and opening again -/

/-- What was protected is recovered, and so is everything with a type before its padding. -/
theorem record_round_trip (P : Platform) (hopens : P.OpensSealed) (key iv : Bytes) (seq : UInt64) :
    (∀ outCap cap contentType content tr rec, contentType ≠ 0 →
      Prog.Ok (recordProtect P outCap key iv seq contentType content) tr rec →
        ofBE (slice rec 3 2) = rec.length - 5 ∧
          ∀ tr' x, (recordUnprotect P cap key iv seq rec).run.Runs tr' x ↔
            tr' = [.note (.unprotect cap key iv seq rec)] ∧ x = .ok (contentType, content)) ∧
      (∀ outCap contentType content, content.length ≤ maxPlaintext →
        P.aesInit = true → P.aesKey key = true →
        (∀ nonce aad plain, (P.gcmEncrypt key nonce aad plain).isSome = true) →
          ∃ tr rec, Prog.Ok (recordProtect P outCap key iv seq contentType content) tr rec) ∧
      ∀ cap rec inner tr x, Encloses P key iv seq rec inner →
        (recordUnprotect P cap key iv seq rec).run.Runs tr x →
          (∀ content contentType, x = .ok (contentType, content) ↔
            contentType ≠ 0 ∧ ∃ k, inner = content ++ [contentType] ++ zeros k) ∧
          ∀ k, inner = zeros (k + 1) → x = .error .decode := by
  refine ⟨?_, ?_, ?_⟩
  · intro outCap cap contentType content tr rec htype hprotect
    obtain ⟨hmax, hseal, -⟩ := recordProtect_ok.1 hprotect
    have hsplit := @splitInner_append content contentType 0 htype
    rw [zeros, List.replicate_zero, List.append_nil] at hsplit
    refine ⟨sealRecord_header hseal hmax, fun tr' x => ?_⟩
    rw [(encloses_sealRecord hopens hseal).unprotect (by simp), hsplit]
  · intro outCap contentType content hmax hinit hkey henc
    obtain ⟨⟨ct, tag⟩, hct⟩ := Option.isSome_iff_exists.1 (henc (buildNonce iv seq)
      (recordHeader (content.length + 1 + recordTagSz)) (content ++ [contentType]))
    exact ⟨_, _, recordProtect_ok.2
      ⟨hmax, sealRecord_eq_some.2 ⟨hinit, hkey, ct, tag, hct, rfl⟩, rfl⟩⟩
  · intro cap rec inner tr x hrec hrun
    rcases eq_or_ne inner [] with rfl | hne
    · have hlen : rec.length = 21 := hrec.length_eq
      have hx : ∃ e, x = .error e := by
        cases x with
        | error e => exact ⟨e, rfl⟩
        | ok a =>
            have hlong := (recordUnprotect_ok.1 (Prog.runs_run_ok.1 hrun)).1
            omega
      obtain ⟨e, rfl⟩ := hx
      refine ⟨fun content contentType => iff_of_false (fun heq => by cases heq) ?_,
        fun k hzeros => ?_⟩
      · rintro ⟨-, k, hnil⟩
        simp at hnil
      · cases hzeros
    · obtain ⟨-, rfl⟩ := (hrec.unprotect hne).1 hrun
      refine ⟨fun content contentType => splitInner_ok_iff, fun k hzeros => ?_⟩
      rw [hzeros]
      exact splitInner_zeros _

namespace Sample

/-- Contents that end in zeros come back whole. -/
theorem record_round_trip_sample :
    ∃ tr rec, Prog.Ok (recordProtect platform 64 (be 16 5) (be 12 6) 3 recAppdata [7, 0, 0])
      tr rec ∧
      ofBE (slice rec 3 2) = rec.length - 5 ∧
        ∀ tr' x, (recordUnprotect platform 64 (be 16 5) (be 12 6) 3 rec).run.Runs tr' x →
          x = .ok (recAppdata, [7, 0, 0]) := by
  obtain ⟨htrip, hsealed, -⟩ := record_round_trip platform opensSealed (be 16 5) (be 12 6) 3
  obtain ⟨tr, rec, hprotect⟩ :=
    hsealed 64 recAppdata [7, 0, 0] (by decide) rfl rfl fun _ _ _ => rfl
  obtain ⟨hheader, hopen⟩ := htrip 64 64 recAppdata [7, 0, 0] tr rec (by decide) hprotect
  exact ⟨tr, rec, hprotect, hheader, fun tr' x hrun => ((hopen tr' x).1 hrun).2⟩

end Sample

end WolfNano
