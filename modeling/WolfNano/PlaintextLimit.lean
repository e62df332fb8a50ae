/-
The size of what is received.  The reader bounds the ciphertext, with the
expansion a cipher may have, so the plaintext may exceed the limit the sender
keeps by what AES-GCM leaves of that allowance.
-/
import WolfNano.RecordInner
import WolfNano.SessionRuns

namespace WolfNano

open Duplex

/-- The length field of a record. -/
def Rec.lengthField (r : Rec) : Nat := ofBE (slice r.bytes 3 2)

/-- The contents and the inner plaintext of a record are within the limits. -/
def WithinLimits (P : Platform) (key iv : Bytes) (seq : UInt64) (rec content : Bytes) : Prop :=
  content.length ≤ maxPlaintext ∧
    ∀ inner, Encloses P key iv seq rec inner → inner.length ≤ maxPlaintext + 1

section Limit

variable {P : Platform} {key iv content : Bytes} {seq : UInt64} {contentType : UInt8} {cap : Nat}

theorem withinLimits_iff {rec : Rec} (hfits : rec.Fits cap) (hlen : 22 ≤ rec.bytes.length)
    (hopen : openRecord P key iv seq rec.bytes = .ok (contentType, content)) :
    WithinLimits P key iv seq rec.bytes content ↔ rec.lengthField ≤ maxPlaintext + 17 := by
  have hfield : rec.bytes.length = 5 + rec.lengthField := hfits.length_eq
  obtain ⟨inner, hencloses, hsplit⟩ := encloses_of_openRecord (by omega) hopen
  have hinner := hencloses.length_eq
  have hcontent : content.length < inner.length := splitInner_length hsplit
  constructor
  · intro h
    have hle := h.2 inner hencloses
    omega
  · intro hle
    refine ⟨by omega, fun inner' h' => ?_⟩
    have hinner' := h'.length_eq
    omega

/-- Of the records a call reads, the one it delivers is within the limit. -/
theorem RecvOne.le_maxPlaintext {s s' : Session} {outCap : Nat} {tr : List (Act Ev)}
    {x : Except Err (Option Bytes)} {plain : Bytes} (h : RecvOne P s outCap tr x s')
    (hx : x = .ok (some plain)) (hreads : ∀ b, .got b ∈ tr → b.length ≤ maxPlaintext + 17) :
    plain.length ≤ maxPlaintext := by
  cases h with
  | unread => cases hx
  | ccs => cases hx
  | short => cases hx
  | unopened => cases hx
  | @opened rec contentType plain' tr' _ _ hfits hccs hlen hopen hhandled =>
      have hbody : (rec.bytes.drop 5).length ≤ maxPlaintext + 17 := by
        apply hreads
        apply List.mem_append_left
        exact List.mem_cons_of_mem _ List.mem_cons_self
      have hfield : rec.bytes.length = 5 + rec.lengthField := hfits.length_eq
      have hlimits := (withinLimits_iff hfits hlen hopen).2 (by
        rw [List.length_drop] at hbody
        omega)
      cases hhandled with
      | deliver =>
          cases hx
          exact hlimits.1
      | refuse => cases hx
      | @posths _ _ ret => cases ret <;> cases hx
      | closeNotify => cases hx
      | alert => cases hx
      | other => cases hx

theorem RecvMany.le_maxPlaintext {s s' : Session} {outCap : Nat} {tr : List (Act Ev)}
    {x : Except Err Bytes} {plain : Bytes} (h : RecvMany P outCap s tr x s')
    (hx : x = .ok plain) (hreads : ∀ b, .got b ∈ tr → b.length ≤ maxPlaintext + 17) :
    plain.length ≤ maxPlaintext := by
  induction h with
  | stop => cases hx
  | data hone =>
      cases hx
      exact hone.le_maxPlaintext rfl hreads
  | skip hone hmany ih =>
      apply ih hx
      intro b hb
      exact hreads b (List.mem_append_right _ hb)

end Limit

/-- Contents of up to 239 bytes above the limit are read and opened. -/
theorem oversized_opens {P : Platform} {key iv content rec : Bytes} {seq : UInt64}
    {contentType : UInt8} {cap outCap : Nat} (hopens : P.OpensSealed)
    (haes : (P.aesInit && P.aesKey key) = true) (htype : contentType ≠ 0)
    (hlen : content.length ≤ maxPlaintext + 239) (hcap : content.length + 22 ≤ cap)
    (hseal : sealInner P key iv seq (content ++ [contentType]) = some rec) :
    (∃ tr, Prog.Ok (recvRecord cap) tr ⟨recAppdata, rec⟩) ∧
      ∃ tr, Prog.Ok (recordUnprotect P outCap key iv seq rec) tr (contentType, content) := by
  have hinner : (content ++ [contentType]).length = content.length + 1 := by
    rw [List.length_append, List.length_singleton]
  have hrec := sealInner_length hseal
  have hfits := sealInner_fits hseal (by omega) (by omega : rec.length ≤ cap)
  have hopen := sealInner_open hopens haes hseal
  have hsplit := @splitInner_append content contentType 0 htype
  rw [zeros, List.replicate_zero, List.append_nil] at hsplit
  constructor
  · exact ⟨_, recvRecord_ok.2 ⟨hfits, rfl⟩⟩
  · exact ⟨_, recordUnprotect_ok.2 ⟨by omega, hopen.trans hsplit, rfl⟩⟩

/-- A record that is read and opened is within the limits exactly when its length field
allows for no more, and a call that reads only such records returns no more. -/
theorem plaintext_limit (P : Platform) :
    (∀ cap outCap key iv seq tr tr' rec contentType content,
      Prog.Ok (recvRecord cap) tr rec →
        Prog.Ok (recordUnprotect P outCap key iv seq rec.bytes) tr' (contentType, content) →
          (WithinLimits P key iv seq rec.bytes content ↔
            rec.lengthField ≤ maxPlaintext + 17)) ∧
      ∀ fuel s out outCap outLen tr res, (wnRecv P fuel s out outCap outLen).Runs tr res →
        (∀ b, .got b ∈ tr → b.length ≤ maxPlaintext + 17) → res.ret = .ok () →
          ∃ n, res.outLen = some n ∧ n ≤ maxPlaintext := by
  constructor
  · intro cap outCap key iv seq tr tr' rec contentType content hread hopen
    obtain ⟨hlen, hopen, -⟩ := recordUnprotect_ok.1 hopen
    exact withinLimits_iff (recvRecord_ok.1 hread).1 hlen hopen
  · intro fuel s out outCap outLen tr res hrun hreads hret
    rcases wnRecv_runs hrun with ⟨-, e, rfl, -⟩ | ⟨buf, n, x, s', -, -, -, hmany, hx⟩
    · cases hret
    · rcases hx with ⟨e, -, rfl⟩ | ⟨plain, hx, rfl⟩
      · cases hret
      · exact ⟨plain.length, rfl, hmany.le_maxPlaintext hx hreads⟩

namespace Sample

/-- A record with 16,385 bytes of contents is read and opened. -/
theorem plaintext_limit_exceeded :
    ∃ tr tr' rec,
      Prog.Ok (recvRecord 16700) tr rec ∧
        Prog.Ok (recordUnprotect platform 16700 (be 16 5) (be 12 6) 0 rec.bytes) tr'
          (recAppdata, List.replicate 16385 7) ∧
        maxPlaintext < (List.replicate 16385 (7 : UInt8)).length := by
  have hlen : (List.replicate 16385 (7 : UInt8)).length = 16385 := List.length_replicate
  generalize List.replicate 16385 (7 : UInt8) = content at hlen
  have hmax : maxPlaintext = 16384 := rfl
  obtain ⟨⟨tr, hread⟩, tr', hopen⟩ :=
    @oversized_opens platform (be 16 5) (be 12 6) content _ 0 recAppdata 16700 16700 opensSealed
      rfl (by decide) (by omega) (by omega) rfl
  exact ⟨tr, tr', _, hread, hopen, by omega⟩

end Sample

end WolfNano
