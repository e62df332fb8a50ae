/-
Records on a tape: a record that fits the reader's buffer is read whole, and one
that was sealed opens.
-/
import WolfNano.Provider
import WolfNano.Duplex.Tape

namespace WolfNano

open Duplex

/-- A protected record around any inner plaintext. -/
def sealInner (P : Platform) (key iv : Bytes) (seq : UInt64) (inner : Bytes) :
    Option Bytes :=
  let hdr := recordHeader (inner.length + recordTagSz)
  (P.gcmEncrypt key (buildNonce iv seq) hdr inner).map fun (ct, tag) => hdr ++ ct ++ tag

/-- A handshake TLSInnerPlaintext with padding. -/
def hsInner (content : Bytes) (pad : Nat) : Bytes := content ++ [recHandshake] ++ zeros pad

section Seal

variable {P : Platform} {key iv inner rec : Bytes} {seq : UInt64}

theorem hsInner_length (content : Bytes) (pad : Nat) :
    (hsInner content pad).length = content.length + 1 + pad := by
  rw [hsInner, List.length_append, List.length_append, List.length_singleton, zeros_length]

theorem sealInner_eq_some (h : sealInner P key iv seq inner = some rec) :
    ∃ ct tag, P.gcmEncrypt key (buildNonce iv seq)
        (recordHeader (inner.length + recordTagSz)) inner = some (ct, tag) ∧
      rec = recordHeader (inner.length + recordTagSz) ++ ct ++ tag ∧
        ct.length = inner.length ∧ tag.length = 16 := by
  obtain ⟨⟨ct, tag⟩, henc, rfl⟩ := Option.map_eq_some_iff.1 h
  have hlen := P.gcmEncrypt_length henc
  exact ⟨ct, tag, henc, rfl, hlen.1, hlen.2⟩

theorem sealInner_length (h : sealInner P key iv seq inner = some rec) :
    rec.length = inner.length + 21 := by
  obtain ⟨ct, tag, -, rfl, hct, htag⟩ := sealInner_eq_some h
  rw [List.length_append, List.length_append, recordHeader_length, hct, htag]
  omega

/-- What was sealed opens at the same point. -/
theorem sealInner_open (hopens : P.OpensSealed) (haes : (P.aesInit && P.aesKey key) = true)
    (h : sealInner P key iv seq inner = some rec) :
    openRecord P key iv seq rec = splitInner inner := by
  obtain ⟨ct, tag, henc, rfl, -, htag⟩ := sealInner_eq_some h
  have hdec := hopens _ _ _ _ _ _ henc
  rw [openRecord_parts (recordHeader_length _) htag, haes, hdec]
  rfl

theorem splitInner_hsInner (content : Bytes) (pad : Nat) :
    splitInner (hsInner content pad) = .ok (recHandshake, content) :=
  splitInner_append pad (by decide)

/-- A sealed record is accepted wherever it fits. -/
theorem sealInner_fits {cap : Nat} (h : sealInner P key iv seq inner = some rec)
    (hmax : inner.length ≤ maxPlaintext + 240) (hcap : rec.length ≤ cap) :
    (⟨recAppdata, rec⟩ : Rec).Fits cap := by
  have htotal := sealInner_length h
  obtain ⟨ct, tag, -, rfl, -, -⟩ := sealInner_eq_some h
  have hplain : maxPlaintext = 16384 := rfl
  have hslice : slice (recordHeader (inner.length + recordTagSz) ++ ct ++ tag) 3 2
      = u16 (inner.length + recordTagSz) := rfl
  refine ⟨rfl, ?_, ?_, hcap, ?_, fun hccs => absurd (a := recAppdata = _) hccs (by decide)⟩
  · have hfield : inner.length + recordTagSz < 65536 := by
      simp only [recordTagSz]
      omega
    change (_ ++ ct ++ tag).length = 5 + ofBE (slice _ 3 2)
    rw [hslice, htotal, ofBE_u16 hfield]
    simp only [recordTagSz]
    omega
  · simp only [htotal]
    omega
  · simp only [htotal]
    omega

end Seal

section Reads

variable {σ : Type} {answer : σ → Bytes → Int × σ} {st : σ}

theorem ioRecvExact_eval {b rest : Bytes} :
    (ioRecvExact b.length).eval (Tape.handler answer) ⟨b ++ rest, st⟩
      = some (.ok b, ⟨rest, st⟩) := by
  have hle : b.length ≤ (b ++ rest).length := by
    rw [List.length_append]
    omega
  have hrecv := @Tape.recv_of_le σ answer ⟨b ++ rest, st⟩ _ hle
  unfold ioRecvExact
  rw [@Prog.eval_bind_of_ok _ _ _ _ _ _ _ _ _ ⟨rest, st⟩ (some b)]
  · rfl
  · rw [Prog.eval_recv, hrecv.1, hrecv.2]
    simp

theorem ioRecvExact_eval_short {b : Bytes} {n : Nat} (hn : b.length < n) :
    (ioRecvExact n).eval (Tape.handler answer) ⟨b, st⟩ = some (.error .crypto, ⟨[], st⟩) := by
  have hrecv := @Tape.recv_of_lt σ answer ⟨b, st⟩ _ hn
  unfold ioRecvExact
  rw [@Prog.eval_bind_of_ok _ _ _ _ _ _ _ _ _ ⟨[], st⟩ none]
  · rfl
  · rw [Prog.eval_recv, hrecv.1, hrecv.2]

/-- A record that fits is read and nothing after it. -/
theorem recvRecord_eval {rec : Rec} {cap : Nat} {rest : Bytes} (hfits : rec.Fits cap) :
    (recvRecord cap).eval (Tape.handler answer) ⟨rec.bytes ++ rest, st⟩
      = some (.ok rec, ⟨rest, st⟩) := by
  obtain ⟨rtype, bytes⟩ := rec
  obtain ⟨htype, hlen, hne, hcap, hmax, hccs⟩ := hfits
  simp only at htype hlen hne hcap hmax hccs
  have htake : (bytes.take 5).length = 5 := by simp; omega
  have hdrop : ofBE ((bytes.take 5).drop 3) = ofBE (slice bytes 3 2) := by
    rw [List.drop_take]
    rfl
  have hbody : (bytes.drop 5).length = ofBE (slice bytes 3 2) := by
    rw [List.length_drop]
    omega
  have hhdr := @ioRecvExact_eval σ answer st (bytes.take 5) (bytes.drop 5 ++ rest)
  have hfrag := @ioRecvExact_eval σ answer st (bytes.drop 5) rest
  have hget : (bytes.take 5).getD 0 0 = rtype := by
    rw [htype]
    simp
  have hget5 : (bytes.drop 5).getD 0 0 = bytes.getD 5 0 := by simp
  rw [← List.append_assoc, List.take_append_drop, htake] at hhdr
  rw [hbody] at hfrag
  unfold recvRecord
  rw [Prog.eval_bind_of_ok hhdr]
  simp only [hdrop, hget]
  rw [Prog.eval_bind_of_ok (Prog.eval_failIf_neg ?_), Prog.eval_bind_of_ok hfrag,
    Prog.eval_bind_of_ok (Prog.eval_failIf_neg ?_), Prog.eval_pure, List.take_append_drop]
  · rintro ⟨hc, hbad⟩
    rw [hget5] at hbad
    obtain ⟨hsix, hone⟩ := hccs hc
    rcases hbad with h | h
    · omega
    · exact h hone
  · omega

/-- A record that is longer than the buffer is refused by its header. -/
theorem recvRecord_eval_long {bytes rest : Bytes} {cap : Nat} (hhdr : 5 ≤ bytes.length)
    (hlen : bytes.length = 5 + ofBE (slice bytes 3 2)) (hcap : cap < bytes.length) :
    (recvRecord cap).eval (Tape.handler answer) ⟨bytes ++ rest, st⟩
      = some (.error .crypto, ⟨bytes.drop 5 ++ rest, st⟩) := by
  have hread := @ioRecvExact_eval σ answer st (bytes.take 5) (bytes.drop 5 ++ rest)
  have htake : (bytes.take 5).length = 5 := List.length_take_of_le hhdr
  have hdrop : ofBE ((bytes.take 5).drop 3) = ofBE (slice bytes 3 2) := by
    rw [List.drop_take]
    rfl
  rw [← List.append_assoc, List.take_append_drop, htake] at hread
  unfold recvRecord
  rw [Prog.eval_bind_of_ok hread]
  simp only [hdrop]
  exact Prog.eval_bind_of_error (Prog.eval_failIf_pos (.inr (.inl (by omega))))

/-- At the end of the stream there is no record. -/
theorem recvRecord_eval_end {cap : Nat} :
    (recvRecord cap).eval (Tape.handler answer) ⟨[], st⟩
      = some (.error .crypto, ⟨[], st⟩) := by
  unfold recvRecord
  exact Prog.eval_bind_of_error (ioRecvExact_eval_short (by decide))

theorem recordUnprotect_eval {P : Platform} {cap : Nat} {key iv rec : Bytes} {seq : UInt64}
    {t : Tape σ} (hlen : 22 ≤ rec.length) :
    (recordUnprotect P cap key iv seq rec).eval (Tape.handler answer) t
      = some (openRecord P key iv seq rec, t) := by
  unfold recordUnprotect
  rw [Prog.eval_bind_of_ok (Prog.eval_failIf_neg _), Prog.eval_bind_of_ok Prog.eval_note,
    Prog.eval_lift]
  simp only [recordHeaderSz, recordTagSz]
  omega

end Reads

end WolfNano
