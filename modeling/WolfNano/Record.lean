/-
The record layer, `wn_record.c`: reading one record from the transport, the
per-record nonce, and AES-GCM protection.  A record is its five-byte header
followed by its fragment; `recLen` is the length of that string.
-/
import WolfNano.Seam
import Mathlib.Data.List.DropRight
import Mathlib.Data.List.GetD

namespace WolfNano

open Duplex

/-- `WN_RECORD_HEADER_SZ`. -/
def recordHeaderSz : Nat := 5

/-- `WN_RECORD_TAG_SZ`. -/
def recordTagSz : Nat := 16

/-- `WN_MAX_PLAINTEXT`. -/
def maxPlaintext : Nat := 16384

def recChangeCipher : UInt8 := 20
def recAlert : UInt8 := 21
def recHandshake : UInt8 := 22
def recAppdata : UInt8 := 23

/-- The content type and the bytes of a record. -/
structure Rec where
  rtype : UInt8
  bytes : Bytes
  deriving DecidableEq

namespace Rec

def fragment (r : Rec) : Bytes := r.bytes.drop recordHeaderSz

/-- A ChangeCipherSpec that was accepted. -/
def isCcs (r : Rec) : Bool := r.rtype == recChangeCipher

end Rec

/-- `io_recv_exact`: exactly `n` bytes, or an error when the transport stops. -/
def ioRecvExact (n : Nat) : Shell Bytes := do
  let b ← Prog.recv n
  Prog.orFail b .crypto

/-- `wn_RecvRecord` into a buffer of `cap` bytes. -/
def recvRecord (cap : Nat) : Shell Rec := do
  let hdr ← ioRecvExact 5
  let rtype := hdr.getD 0 0
  let frag := ofBE (hdr.drop 3)
  Prog.failIf (frag = 0 ∨ frag + 5 > cap ∨ frag > maxPlaintext + 256) .crypto
  let body ← ioRecvExact frag
  -- a ChangeCipherSpec is exactly one byte with the value 0x01
  Prog.failIf (rtype = recChangeCipher ∧ (frag ≠ 1 ∨ body.getD 0 0 ≠ 1)) .decode
  pure ⟨rtype, hdr ++ body⟩

/-- `wn_BuildNonce`: the IV, its last eight bytes XOR the sequence number. -/
def buildNonce (iv : Bytes) (seq : UInt64) : Bytes :=
  List.zipWith (· ^^^ ·) (iv.take 12) (zeros 4 ++ be 8 seq.toNat)

/-- The header of a protected record, also its additional data. -/
def recordHeader (ctLen : Nat) : Bytes := [23, 0x03, 0x03] ++ u16 ctLen

/-- The record `wn_Record_Protect` writes, past its argument checks. -/
def sealRecord (P : Platform) (key iv : Bytes) (seq : UInt64) (contentType : UInt8)
    (content : Bytes) : Option Bytes :=
  let innerLen := content.length + 1
  let hdr := recordHeader (innerLen + recordTagSz)
  if P.aesInit && P.aesKey key then
    (P.gcmEncrypt key (buildNonce iv seq) hdr (content ++ [contentType])).map
      fun (ct, tag) => hdr ++ ct ++ tag
  else
    none

/-- `wn_Record_Protect` into a buffer of `outCap` bytes. -/
def recordProtect (P : Platform) (outCap : Nat) (key iv : Bytes) (seq : UInt64)
    (contentType : UInt8) (content : Bytes) : Shell Bytes := do
  Prog.failIf (content.length > maxPlaintext) .invalidArg
  Prog.note (.protect outCap key iv seq contentType content)
  Prog.orFail (sealRecord P key iv seq contentType content) .crypto

/-- Drop the padding; the last byte left is the content type. -/
def splitInner (inner : Bytes) : Except Err (UInt8 × Bytes) :=
  let unpadded := inner.rdropWhile (· == 0)
  match unpadded.getLast? with
  | none => .error .decode
  | some contentType => .ok (contentType, unpadded.dropLast)

/-- What `wn_Record_Unprotect` recovers from a record of at least 22 bytes when
the AEAD call is `decrypt`. -/
def openRecordBy (P : Platform)
    (decrypt : (key nonce aad ct tag : Bytes) → Option Bytes) (key iv : Bytes)
    (seq : UInt64) (rec : Bytes) : Except Err (UInt8 × Bytes) :=
  let innerLen := rec.length - recordHeaderSz - recordTagSz
  if P.aesInit && P.aesKey key then
    match decrypt key (buildNonce iv seq) (rec.take recordHeaderSz)
        (slice rec recordHeaderSz innerLen)
        (slice rec (recordHeaderSz + innerLen) recordTagSz) with
    | none => .error .badMac
    | some inner => splitInner inner
  else
    .error .crypto

/-- What it recovers into another buffer, or in place. -/
def openRecord (P : Platform) (key iv : Bytes) (seq : UInt64) (rec : Bytes) :
    Except Err (UInt8 × Bytes) :=
  openRecordBy P P.gcmDecrypt key iv seq rec

/-- What it recovers when the output starts inside the record, `gap` bytes
behind its header. -/
def openRecordOver (P : Platform) (gap : Nat) (key iv : Bytes) (seq : UInt64)
    (rec : Bytes) : Except Err (UInt8 × Bytes) :=
  openRecordBy P (P.gcmDecryptOver gap) key iv seq rec

/-- `wn_Record_Unprotect` into a buffer of `outCap` bytes. -/
def recordUnprotect (P : Platform) (outCap : Nat) (key iv : Bytes) (seq : UInt64)
    (rec : Bytes) : Shell (UInt8 × Bytes) := do
  Prog.failIf (rec.length < recordHeaderSz + recordTagSz + 1) .invalidArg
  Prog.note (.unprotect outCap key iv seq rec)
  Prog.lift (openRecord P key iv seq rec)

/-- `wn_Record_Unprotect` into a region of `outCap` bytes that starts inside the
record. -/
def recordUnprotectOver (P : Platform) (gap outCap : Nat) (key iv : Bytes)
    (seq : UInt64) (rec : Bytes) : Shell (UInt8 × Bytes) := do
  Prog.failIf (rec.length < recordHeaderSz + recordTagSz + 1) .invalidArg
  Prog.note (.unprotectOver gap outCap key iv seq rec)
  Prog.lift (openRecordOver P gap key iv seq rec)

/-- Where `wn_Record_Unprotect` writes: a region of `cap` bytes, at offset `off`
of the buffer that starts with the record, or in another buffer. -/
structure OutRegion where
  cap : Nat
  off : Option Nat

/-- How far behind the header of the record the region starts when it starts
inside the record. -/
def OutRegion.gap (out : OutRegion) (rec : Bytes) : Option Nat :=
  out.off.bind fun off =>
    if off < rec.length then some (off - recordHeaderSz) else none

/-- `wn_Record_Unprotect` into such a region. -/
def recordUnprotectInto (P : Platform) (out : OutRegion) (key iv : Bytes)
    (seq : UInt64) (rec : Bytes) : Shell (UInt8 × Bytes) :=
  match out.gap rec with
  | none => recordUnprotect P out.cap key iv seq rec
  | some gap => recordUnprotectOver P gap out.cap key iv seq rec

/-! ### The nonce -/

theorem zipWith_xor_cancel {l a b : Bytes} (ha : a.length = l.length)
    (hb : b.length = l.length)
    (h : List.zipWith (· ^^^ ·) l a = List.zipWith (· ^^^ ·) l b) : a = b := by
  induction l generalizing a b with
  | nil => simp_all
  | cons x l ih =>
      obtain ⟨y, a, rfl⟩ := List.exists_cons_of_length_eq_add_one ha
      obtain ⟨z, b, rfl⟩ := List.exists_cons_of_length_eq_add_one hb
      simp only [List.zipWith_cons_cons, List.cons.injEq, UInt8.xor_right_inj] at h
      rw [h.1, ih (by simpa using ha) (by simpa using hb) h.2]

/-- For a fixed IV, different sequence numbers give different nonces. -/
theorem buildNonce_injective {iv : Bytes} (hiv : iv.length = 12) :
    Function.Injective (buildNonce iv) := by
  intro seq seq' h
  have hpad := zipWith_xor_cancel (by simp [hiv]) (by simp [hiv]) h
  have hbe := congrArg ofBE (List.append_cancel_left hpad)
  have hlt : ∀ n : UInt64, n.toNat < 256 ^ 8 := fun n => n.toNat_lt
  rw [ofBE_be, ofBE_be, Nat.mod_eq_of_lt (hlt _), Nat.mod_eq_of_lt (hlt _)] at hbe
  exact UInt64.toNat_inj.1 hbe

/-! ### What the record operations do -/

/-- A record `wn_RecvRecord` accepts into a buffer of `cap` bytes. -/
structure Rec.Fits (r : Rec) (cap : Nat) : Prop where
  type_eq : r.rtype = r.bytes.getD 0 0
  length_eq : r.bytes.length = 5 + ofBE (slice r.bytes 3 2)
  nonempty : 5 < r.bytes.length
  le_cap : r.bytes.length ≤ cap
  le_max : r.bytes.length ≤ 5 + (maxPlaintext + 256)
  ccs : r.rtype = recChangeCipher → r.bytes.length = 6 ∧ r.bytes.getD 5 0 = 1

/-- The two reads of a record. -/
def Rec.reads (r : Rec) : List (Act Ev) :=
  [.got (r.bytes.take 5), .got (r.bytes.drop 5)]

@[simp] theorem Rec.bytesIn_reads (r : Rec) : bytesIn r.reads = r.bytes := by
  simp [reads]

@[simp] theorem Rec.sends_reads (r : Rec) : sends r.reads = [] := rfl

@[simp] theorem Rec.notes_reads (r : Rec) : notes r.reads = [] := rfl

theorem ioRecvExact_ok {n : Nat} {tr : List (Act Ev)} {b : Bytes} :
    Prog.Ok (ioRecvExact n) tr b ↔ b.length = n ∧ tr = [.got b] := by
  simp only [ioRecvExact, Prog.ok_bind, Prog.ok_recv, Prog.ok_orFail]
  constructor
  · rintro ⟨_, s, _, rfl, ⟨b', hb, rfl, rfl⟩ | ⟨rfl, rfl⟩, rfl, heq⟩
    · cases heq
      exact ⟨hb, rfl⟩
    · cases heq
  · rintro ⟨hb, rfl⟩
    exact ⟨some b, [.got b], [], rfl, .inl ⟨b, hb, rfl, rfl⟩, rfl, rfl⟩

theorem ioRecvExact_fails {n : Nat} {tr : List (Act Ev)} {e : Err} :
    Prog.Fails (ioRecvExact n) tr e ↔ tr = [.short n] ∧ e = .crypto := by
  simp only [ioRecvExact, Prog.fails_bind, Prog.fails_recv, Prog.ok_recv,
    Prog.fails_orFail, false_or]
  constructor
  · rintro ⟨_, s, _, rfl, ⟨b', -, -, rfl⟩ | ⟨rfl, rfl⟩, rfl, heq, rfl⟩
    · cases heq
    · exact ⟨rfl, rfl⟩
  · rintro ⟨rfl, rfl⟩
    exact ⟨none, [.short n], [], rfl, .inr ⟨rfl, rfl⟩, rfl, rfl, rfl⟩

/-- `wn_RecvRecord` succeeds exactly with the records that fit. -/
theorem recvRecord_ok {cap : Nat} {tr : List (Act Ev)} {r : Rec} :
    Prog.Ok (recvRecord cap) tr r ↔ r.Fits cap ∧ tr = r.reads := by
  simp only [recvRecord, Prog.ok_bind, ioRecvExact_ok, Prog.ok_failIf,
    Prog.ok_pure]
  constructor
  · rintro ⟨hdr, _, _, rfl, ⟨hhdr, rfl⟩, _, _, _, rfl, ⟨rfl, hfrag⟩, body, _, _,
      rfl, ⟨hbody, rfl⟩, _, _, _, rfl, ⟨rfl, hccs⟩, rfl, rfl⟩
    have hslice : slice (hdr ++ body) 3 2 = hdr.drop 3 := by
      refine slice_eq_of_eq_append (hdr.take 3) body ?_ ?_ ?_ <;>
        simp [hhdr]
    have hget : (hdr ++ body).getD 0 0 = hdr.getD 0 0 :=
      List.getD_append _ _ _ _ (by omega)
    have hget5 : (hdr ++ body).getD 5 0 = body.getD 0 0 := by
      rw [List.getD_append_right _ _ _ _ (by omega)]
      simp [hhdr]
    refine ⟨⟨hget.symm, ?_, ?_, ?_, ?_, fun h => ?_⟩, ?_⟩
    · simp [hslice, hhdr, hbody]
    · simp only [List.length_append]; omega
    · simp only [List.length_append]; omega
    · simp only [List.length_append]; omega
    · have hone := not_and.1 hccs h
      rw [not_or, not_not, not_not] at hone
      exact ⟨by simp only [List.length_append]; omega, hget5.trans hone.2⟩
    · simp [Rec.reads, ← hhdr]
  · rintro ⟨⟨htype, hlen, hne, hcap, hmax, hccs⟩, rfl⟩
    obtain ⟨rtype, bytes⟩ := r
    simp only at htype hlen hne hcap hmax hccs
    have htake : (bytes.take 5).length = 5 := by simp; omega
    have hdrop : ofBE ((bytes.take 5).drop 3) = ofBE (slice bytes 3 2) := by
      rw [List.drop_take]
      rfl
    have hget : (bytes.take 5).getD 0 0 = bytes.getD 0 0 := by
      simp
    have hget5 : (bytes.drop 5).getD 0 0 = bytes.getD 5 0 := by
      simp
    refine ⟨bytes.take 5, [.got _], _, rfl, ⟨htake, rfl⟩, (), [], [.got _], rfl,
      ⟨rfl, ?_⟩, bytes.drop 5, [.got _], [], rfl, ⟨?_, rfl⟩, (), [], [], rfl,
      ⟨rfl, ?_⟩, rfl, ?_⟩
    · rw [hdrop]; omega
    · rw [hdrop, List.length_drop]; omega
    · rintro ⟨hc, hbad⟩
      rw [hget] at hc
      rw [hdrop, hget5] at hbad
      obtain ⟨hsix, hone⟩ := hccs (htype.trans hc)
      rcases hbad with h | h
      · omega
      · exact h hone
    · rw [hget, htype, List.take_append_drop]

/-- A failing read stopped at the header or found a bad ChangeCipherSpec. -/
theorem recvRecord_fails {cap : Nat} {tr : List (Act Ev)} {e : Err}
    (h : Prog.Fails (recvRecord cap) tr e) :
    notes tr = [] ∧ sends tr = [] ∧
      (e = .crypto ∧ (bytesIn tr).length ≤ 5 ∨ e = .decode ∧
        ∃ hdr body, tr = [.got hdr, .got body] ∧ hdr.getD 0 0 = recChangeCipher) := by
  simp only [recvRecord, Prog.fails_bind, ioRecvExact_ok, ioRecvExact_fails,
    Prog.ok_failIf, Prog.fails_failIf, Prog.fails_pure] at h
  rcases h with ⟨rfl, rfl⟩ | ⟨hdr, _, _, rfl, ⟨hhdr, rfl⟩, ⟨rfl, -, rfl⟩ |
    ⟨_, _, _, rfl, ⟨rfl, -⟩, ⟨rfl, rfl⟩ |
      ⟨body, _, _, rfl, ⟨-, rfl⟩, ⟨rfl, hccs, rfl⟩ | ⟨_, _, _, _, _, h⟩⟩⟩⟩
  · simp
  · simp [hhdr]
  · simp [hhdr]
  · exact ⟨rfl, rfl, .inr ⟨rfl, hdr, body, rfl, hccs.1⟩⟩
  · exact h.elim

section Protection

variable {P : Platform} {cap : Nat} {key iv : Bytes} {seq : UInt64}
  {contentType : UInt8} {content rec : Bytes} {tr : List (Act Ev)} {e : Err}

theorem recordProtect_ok :
    Prog.Ok (recordProtect P cap key iv seq contentType content) tr rec ↔
      content.length ≤ maxPlaintext ∧
        sealRecord P key iv seq contentType content = some rec ∧
        tr = [.note (.protect cap key iv seq contentType content)] := by
  simp only [recordProtect, Prog.ok_bind, Prog.ok_failIf, Prog.ok_note,
    Prog.ok_orFail, Nat.not_lt]
  constructor
  · rintro ⟨_, _, _, rfl, ⟨rfl, hlen⟩, _, _, _, rfl, rfl, rfl, hseal⟩
    exact ⟨hlen, hseal, rfl⟩
  · rintro ⟨hlen, hseal, rfl⟩
    exact ⟨(), [], _, rfl, ⟨rfl, hlen⟩, (), _, [], by simp, rfl, rfl, hseal⟩

theorem recordProtect_fails :
    Prog.Fails (recordProtect P cap key iv seq contentType content) tr e ↔
      (tr = [] ∧ maxPlaintext < content.length ∧ e = .invalidArg) ∨
        (content.length ≤ maxPlaintext ∧
          sealRecord P key iv seq contentType content = none ∧ e = .crypto ∧
          tr = [.note (.protect cap key iv seq contentType content)]) := by
  simp only [recordProtect, Prog.fails_bind, Prog.ok_failIf, Prog.ok_note,
    Prog.fails_failIf, Prog.fails_note, Prog.fails_orFail, Nat.not_lt, false_or]
  constructor
  · rintro (⟨rfl, hlen, rfl⟩ |
      ⟨_, _, _, rfl, ⟨rfl, hlen⟩, _, _, _, rfl, rfl, rfl, hseal, rfl⟩)
    · exact .inl ⟨rfl, hlen, rfl⟩
    · exact .inr ⟨hlen, hseal, rfl, rfl⟩
  · rintro (⟨rfl, hlen, rfl⟩ | ⟨hlen, hseal, rfl, rfl⟩)
    · exact .inl ⟨rfl, hlen, rfl⟩
    · exact .inr ⟨(), [], _, rfl, ⟨rfl, hlen⟩, (), _, [], by simp, rfl, rfl,
        hseal, rfl⟩

theorem recordUnprotect_ok {x : UInt8 × Bytes} :
    Prog.Ok (recordUnprotect P cap key iv seq rec) tr x ↔
      22 ≤ rec.length ∧ openRecord P key iv seq rec = .ok x ∧
        tr = [.note (.unprotect cap key iv seq rec)] := by
  simp only [recordUnprotect, Prog.ok_bind, Prog.ok_failIf, Prog.ok_note,
    Prog.ok_lift, Nat.not_lt]
  constructor
  · rintro ⟨_, _, _, rfl, ⟨rfl, hlen⟩, _, _, _, rfl, rfl, rfl, hopen⟩
    exact ⟨hlen, hopen, rfl⟩
  · rintro ⟨hlen, hopen, rfl⟩
    exact ⟨(), [], _, rfl, ⟨rfl, hlen⟩, (), _, [], by simp, rfl, rfl, hopen⟩

theorem recordUnprotect_fails :
    Prog.Fails (recordUnprotect P cap key iv seq rec) tr e ↔
      (tr = [] ∧ rec.length < 22 ∧ e = .invalidArg) ∨
        (22 ≤ rec.length ∧ openRecord P key iv seq rec = .error e ∧
          tr = [.note (.unprotect cap key iv seq rec)]) := by
  simp only [recordUnprotect, Prog.fails_bind, Prog.ok_failIf, Prog.ok_note,
    Prog.fails_failIf, Prog.fails_note, Prog.fails_lift, Nat.not_lt, false_or]
  constructor
  · rintro (⟨rfl, hlen, rfl⟩ |
      ⟨_, _, _, rfl, ⟨rfl, hlen⟩, _, _, _, rfl, rfl, rfl, hopen⟩)
    · exact .inl ⟨rfl, hlen, rfl⟩
    · exact .inr ⟨hlen, hopen, rfl⟩
  · rintro (⟨rfl, hlen, rfl⟩ | ⟨hlen, hopen, rfl⟩)
    · exact .inl ⟨rfl, hlen, rfl⟩
    · exact .inr ⟨(), [], _, rfl, ⟨rfl, hlen⟩, (), _, [], by simp, rfl, rfl, hopen⟩

theorem recordUnprotectOver_ok {gap : Nat} {x : UInt8 × Bytes} :
    Prog.Ok (recordUnprotectOver P gap cap key iv seq rec) tr x ↔
      22 ≤ rec.length ∧ openRecordOver P gap key iv seq rec = .ok x ∧
        tr = [.note (.unprotectOver gap cap key iv seq rec)] := by
  simp only [recordUnprotectOver, Prog.ok_bind, Prog.ok_failIf, Prog.ok_note,
    Prog.ok_lift, Nat.not_lt]
  constructor
  · rintro ⟨_, _, _, rfl, ⟨rfl, hlen⟩, _, _, _, rfl, rfl, rfl, hopen⟩
    exact ⟨hlen, hopen, rfl⟩
  · rintro ⟨hlen, hopen, rfl⟩
    exact ⟨(), [], _, rfl, ⟨rfl, hlen⟩, (), _, [], by simp, rfl, rfl, hopen⟩

/-- A region that does not start inside the record is as good as another buffer. -/
theorem recordUnprotectInto_eq {out : OutRegion} (h : out.gap rec = none) :
    recordUnprotectInto P out key iv seq rec
      = recordUnprotect P out.cap key iv seq rec := by
  unfold recordUnprotectInto
  rw [h]

/-- What holds of the call into another buffer and into the record. -/
theorem recordUnprotectInto_both {Q : Shell (UInt8 × Bytes) → Prop} {out : OutRegion}
    (h : Q (recordUnprotect P out.cap key iv seq rec))
    (hover : ∀ gap, Q (recordUnprotectOver P gap out.cap key iv seq rec)) :
    Q (recordUnprotectInto P out key iv seq rec) := by
  unfold recordUnprotectInto
  split
  · exact h
  · exact hover _

theorem OutRegion.gap_eq_none {out : OutRegion}
    (h : ∀ off, out.off = some off → rec.length ≤ off) : out.gap rec = none := by
  unfold OutRegion.gap
  cases hoff : out.off with
  | none => rfl
  | some off => exact if_neg (Nat.not_lt.2 (h off hoff))

theorem openRecord_aes {x : UInt8 × Bytes} (h : openRecord P key iv seq rec = .ok x) :
    (P.aesInit && P.aesKey key) = true := by
  unfold openRecord openRecordBy at h
  dsimp only at h
  split at h
  · assumption
  · cases h

/-- What can go wrong with a record that is long enough. -/
theorem openRecord_error (h : openRecord P key iv seq rec = .error e) :
    e = .crypto ∨ e = .badMac ∨ e = .decode := by
  unfold openRecord openRecordBy at h
  dsimp only at h
  split at h
  · split at h
    · cases h
      exact .inr (.inl rfl)
    · unfold splitInner at h
      dsimp only at h
      split at h
      · cases h
        exact .inr (.inr rfl)
      · cases h
  · cases h
    exact .inl rfl

theorem splitInner_length {inner : Bytes} {x : UInt8 × Bytes}
    (h : splitInner inner = .ok x) : x.2.length < inner.length := by
  unfold splitInner at h
  dsimp only at h
  split at h
  · cases h
  · rename_i b hlast
    cases h
    have hne : inner.rdropWhile (· == 0) ≠ [] := by
      intro hnil
      rw [hnil] at hlast
      cases hlast
    have hpos := List.length_pos_of_ne_nil hne
    have hle := (List.rdropWhile_prefix (· == 0) (l := inner)).length_le
    rw [List.length_dropLast]
    omega

/-- The contents of an opened record are shorter than its inner plaintext. -/
theorem openRecord_length {x : UInt8 × Bytes}
    (h : openRecord P key iv seq rec = .ok x) : x.2.length + 21 < rec.length := by
  unfold openRecord openRecordBy at h
  dsimp only at h
  split at h
  · split at h
    · cases h
    · rename_i inner hdec
      have hinner := P.gcmDecrypt_length hdec
      have hlt := splitInner_length h
      have hheader : recordHeaderSz = 5 := rfl
      have htag : recordTagSz = 16 := rfl
      rw [hinner, slice, List.length_take, List.length_drop] at hlt
      omega
  · cases h

/-- The parts of a sealed record. -/
theorem sealRecord_eq_some :
    sealRecord P key iv seq contentType content = some rec ↔
      P.aesInit = true ∧ P.aesKey key = true ∧
        ∃ ct tag,
          P.gcmEncrypt key (buildNonce iv seq)
              (recordHeader (content.length + 1 + recordTagSz))
              (content ++ [contentType]) = some (ct, tag) ∧
            rec = recordHeader (content.length + 1 + recordTagSz) ++ ct ++ tag := by
  simp only [sealRecord, Bool.and_eq_true]
  split
  · rename_i h
    simp only [Option.map_eq_some_iff, Prod.exists]
    constructor
    · rintro ⟨ct, tag, henc, rfl⟩
      exact ⟨h.1, h.2, ct, tag, henc, rfl⟩
    · rintro ⟨-, -, ct, tag, henc, rfl⟩
      exact ⟨ct, tag, henc, rfl⟩
  · rename_i h
    constructor
    · intro hnone
      cases hnone
    · rintro ⟨hinit, hkey, -⟩
      exact absurd ⟨hinit, hkey⟩ h

@[simp] theorem recordHeader_length (n : Nat) : (recordHeader n).length = 5 := rfl

theorem sealRecord_length
    (h : sealRecord P key iv seq contentType content = some rec) :
    rec.length = content.length + 22 := by
  obtain ⟨-, -, ct, tag, henc, rfl⟩ := sealRecord_eq_some.1 h
  have hlen := P.gcmEncrypt_length henc
  simp only [List.length_append, List.length_singleton, recordHeader_length] at hlen ⊢
  omega

/-- A sealed record is one `wn_RecvRecord` accepts wherever it fits. -/
theorem sealRecord_fits
    (h : sealRecord P key iv seq contentType content = some rec)
    (hlen : content.length ≤ maxPlaintext) (hcap : content.length + 22 ≤ cap) :
    (⟨recAppdata, rec⟩ : Rec).Fits cap := by
  have htotal := sealRecord_length h
  obtain ⟨-, -, ct, tag, -, rfl⟩ := sealRecord_eq_some.1 h
  have hmax : maxPlaintext = 16384 := rfl
  have hslice : slice (recordHeader (content.length + 1 + recordTagSz) ++ ct ++ tag)
      3 2 = u16 (content.length + 1 + recordTagSz) := rfl
  refine ⟨rfl, ?_, ?_, ?_, ?_, fun h => absurd (a := recAppdata = _) h (by decide)⟩
  · simp only [hslice, htotal]
    rw [ofBE_u16 (by simp only [recordTagSz]; omega)]
    simp only [recordTagSz]
    omega
  · change 5 < (_ ++ ct ++ tag).length
    omega
  · change (_ ++ ct ++ tag).length ≤ cap
    omega
  · change (_ ++ ct ++ tag).length ≤ 5 + (maxPlaintext + 256)
    omega

end Protection

/-- The abstract AEAD: what was encrypted decrypts, under the same key, nonce
and additional data. -/
def Platform.OpensSealed (P : Platform) : Prop :=
  ∀ key nonce aad plain ct tag,
    P.gcmEncrypt key nonce aad plain = some (ct, tag) →
      P.gcmDecrypt key nonce aad ct tag = some plain

theorem splitInner_append {content : Bytes} {contentType : UInt8} (n : Nat)
    (htype : contentType ≠ 0) :
    splitInner (content ++ [contentType] ++ zeros n) = .ok (contentType, content) := by
  have hdrop : (content ++ [contentType] ++ zeros n).rdropWhile (· == 0)
      = content ++ [contentType] := by
    induction n with
    | zero =>
        rw [zeros, List.replicate_zero, List.append_nil, List.rdropWhile_concat_neg]
        simpa using htype
    | succ n ih =>
        rw [zeros, List.replicate_succ', ← List.append_assoc, List.rdropWhile_concat_pos]
        · exact ih
        · rfl
  unfold splitInner
  rw [hdrop]
  simp

/-- Opening a record given by its header, ciphertext and tag. -/
theorem openRecord_parts {P : Platform} {key iv hdr ct tag : Bytes} {seq : UInt64}
    (hhdr : hdr.length = 5) (htag : tag.length = 16) :
    openRecord P key iv seq (hdr ++ ct ++ tag) =
      if P.aesInit && P.aesKey key then
        match P.gcmDecrypt key (buildNonce iv seq) hdr ct tag with
        | none => .error .badMac
        | some inner => splitInner inner
      else
        .error .crypto := by
  have hinner : (hdr ++ ct ++ tag).length - recordHeaderSz - recordTagSz = ct.length := by
    simp only [recordHeaderSz, recordTagSz, List.length_append, hhdr, htag]
    omega
  have htake : (hdr ++ ct ++ tag).take recordHeaderSz = hdr := by
    simp [recordHeaderSz, ← hhdr]
  have hctSlice : slice (hdr ++ ct ++ tag) recordHeaderSz ct.length = ct :=
    slice_eq_of_eq_append hdr tag rfl hhdr.symm rfl
  have htagSlice : slice (hdr ++ ct ++ tag) (recordHeaderSz + ct.length) recordTagSz
      = tag := by
    refine slice_eq_of_eq_append (hdr ++ ct) [] (by simp) ?_ ?_
    · simp [hhdr, recordHeaderSz]
    · rw [htag]; rfl
  simp only [openRecord, openRecordBy, hinner, htake, hctSlice, htagSlice]

/-- A record that opened, in its parts. -/
theorem openRecord_ok {P : Platform} {key iv rec : Bytes} {seq : UInt64}
    {x : UInt8 × Bytes} (hlen : 21 ≤ rec.length)
    (h : openRecord P key iv seq rec = .ok x) :
    ∃ hdr ct tag inner, rec = hdr ++ ct ++ tag ∧
      P.gcmDecrypt key (buildNonce iv seq) hdr ct tag = some inner ∧
        splitInner inner = .ok x := by
  have hparts : rec = rec.take 5 ++ slice rec 5 (rec.length - 21)
      ++ slice rec (5 + (rec.length - 21)) 16 := by
    rw [take_append_slice, take_append_slice, List.take_of_length_le (by omega)]
  have hhdr : (rec.take 5).length = 5 := by
    rw [List.length_take]
    omega
  have htag : (slice rec (5 + (rec.length - 21)) 16).length = 16 :=
    slice_length (by omega)
  rw [hparts, openRecord_parts hhdr htag] at h
  split at h
  · split at h
    · cases h
    · rename_i inner hdec
      exact ⟨_, _, _, inner, hparts, hdec, h⟩
  · cases h

/-- Opening inverts sealing. -/
theorem openRecord_sealRecord {P : Platform} (hopens : P.OpensSealed)
    {key iv : Bytes} {seq : UInt64} {contentType : UInt8} {content rec : Bytes}
    (htype : contentType ≠ 0)
    (h : sealRecord P key iv seq contentType content = some rec) :
    openRecord P key iv seq rec = .ok (contentType, content) := by
  obtain ⟨hinit, hkey, ct, tag, henc, rfl⟩ := sealRecord_eq_some.1 h
  have htag := (P.gcmEncrypt_length henc).2
  have hdec := hopens _ _ _ _ _ _ henc
  have hinner := @splitInner_append content contentType 0 htype
  rw [zeros, List.replicate_zero, List.append_nil] at hinner
  rw [openRecord_parts (recordHeader_length _) htag, hinit, hkey, hdec]
  exact hinner

end WolfNano
