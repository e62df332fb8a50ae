/-
The TLV layer of `wn_x509.c`.  The buffer is indexed as in the source: a
function takes an index and a bound and returns the index it advanced to.
Indices stay below 2^31 + 2^24, so 32-bit sums of them do not wrap.
-/
import WolfNano.Seam

namespace WolfNano

open Duplex

/-- The error codes of the parser.  `fault` is what has no code: a read outside
the buffer, or a loop that would not end. -/
inductive X509Err where
  | invalidArg
  | x509Decode
  | x509CritExt
  | badCert
  | fault
  deriving DecidableEq, Repr

abbrev Asn := Except X509Err

/-- A pointer into a buffer, with its length. -/
structure Slice where
  off : Nat
  len : Nat
  deriving DecidableEq, Repr

/-- The bytes of a slice. -/
def Slice.bytes (s : Slice) (der : Bytes) : Bytes := slice der s.off s.len

def asnBoolean : Nat := 0x01
def asnInteger : Nat := 0x02
def asnBitString : Nat := 0x03
def asnOctetString : Nat := 0x04
def asnNull : Nat := 0x05
def asnObjectId : Nat := 0x06
def asnUtf8String : Nat := 0x0C
def asnPrintableString : Nat := 0x13
def asnT61String : Nat := 0x14
def asnIa5String : Nat := 0x16
def asnUtcTime : Nat := 0x17
def asnGenTime : Nat := 0x18
def asnSeq : Nat := 0x30
def asnSetOf : Nat := 0x31
def asnCtx0 : Nat := 0xA0
def asnCtx3 : Nat := 0xA3
def asnUid1 : Nat := 0x81
def asnUid2 : Nat := 0x82
def asnSanDns : Nat := 0x82

/-- `der[i]`. -/
def byteAt (der : Bytes) (i : Nat) : Asn Nat :=
  match der[i]? with
  | some b => .ok b.toNat
  | none => .error .fault

/-- The `n` bytes at `der + i`. -/
def bytesAt (der : Bytes) (i n : Nat) : Asn Bytes :=
  if i + n ≤ der.length then .ok (slice der i n) else .error .fault

def decodeIf (c : Prop) [Decidable c] : Asn Unit :=
  if c then .error .x509Decode else .ok ()

/-- The length octets of the long form, most significant first. -/
def lengthOctets (der : Bytes) : Nat → Nat → Nat → Asn Nat
  | _, 0, length => .ok length
  | idx, n + 1, length => do
      let b ← byteAt der idx
      lengthOctets der (idx + 1) n (length * 256 + b)

/-- `wn_Asn_GetLength` with its bounds check: the length and the index after it. -/
def asnGetLength (der : Bytes) (idx maxIdx : Nat) : Asn (Nat × Nat) := do
  decodeIf (idx + 1 > maxIdx)
  let b ← byteAt der idx
  let idx := idx + 1
  if b ≥ 0x80 then do
    let bytes := b - 0x80
    decodeIf (bytes = 0 ∨ bytes > 3 ∨ idx + bytes > maxIdx)
    let first ← byteAt der idx
    -- no leading zero, and the long form only from 128 on
    decodeIf (first = 0)
    let length ← lengthOctets der idx bytes 0
    decodeIf (length < 0x80)
    decodeIf (idx + bytes + length > maxIdx)
    pure (length, idx + bytes)
  else do
    decodeIf (idx + b > maxIdx)
    pure (b, idx)

/-- `wn_Asn_GetHeader`: the length and the index of the contents. -/
def asnGetHeader (der : Bytes) (tag idx maxIdx : Nat) : Asn (Nat × Nat) := do
  decodeIf (idx + 1 > maxIdx)
  let t ← byteAt der idx
  decodeIf (t ≠ tag)
  asnGetLength der (idx + 1) maxIdx

/-- `wn_Asn_GetHeaderExact`. -/
def asnGetHeaderExact (der : Bytes) (tag idx maxIdx : Nat) : Asn (Nat × Nat) := do
  let (len, idx) ← asnGetHeader der tag idx maxIdx
  decodeIf (idx + len ≠ maxIdx)
  pure (len, idx)

/-- `wn_Asn_GetBitString`: the contents after the octet of unused bits, and the
index after them. -/
def asnGetBitString (der : Bytes) (idx maxIdx : Nat) : Asn (Slice × Nat) := do
  let (len, idx) ← asnGetHeader der asnBitString idx maxIdx
  decodeIf (len < 1)
  let unused ← byteAt der idx
  decodeIf (unused ≠ 0)
  pure (⟨idx + 1, len - 1⟩, idx + len)

/-- `wn_OidEq`. -/
def oidEq (der : Bytes) (idx len : Nat) (want : Bytes) : Asn Bool :=
  if len = want.length then do
    let p ← bytesAt der idx len
    pure (p == want)
  else
    pure false

/-- `wn_HasNul`. -/
def hasNul (der : Bytes) (idx len : Nat) : Asn Bool := do
  let p ← bytesAt der idx len
  pure (p.contains 0)

/-- A header that a caller may do without. -/
def attempt {α : Type} : Asn α → Asn (Option α)
  | .ok a => .ok (some a)
  | .error .fault => .error .fault
  | .error _ => .ok none

end WolfNano
