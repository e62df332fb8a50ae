/-
The certificate parser with its 32-bit indices: each sum and difference of indices is
checked, so that one which would wrap is a fault like a read outside the buffer.
-/
import WolfNano.X509

namespace WolfNano.Checked

open Duplex

/-- A sum of two `word32`. -/
def add32 (a b : Nat) : Asn Nat := if a + b < 2 ^ 32 then .ok (a + b) else .error .fault

/-- A difference of two `word32`. -/
def sub32 (a b : Nat) : Asn Nat := if b ≤ a then .ok (a - b) else .error .fault

/-! ### The TLV layer -/

def lengthOctets (der : Bytes) : Nat → Nat → Nat → Asn Nat
  | _, 0, length => .ok length
  | idx, n + 1, length => do
      let b ← byteAt der idx
      let idx ← add32 idx 1
      lengthOctets der idx n (length * 256 + b)

/-- `wn_Asn_GetLength`. -/
def asnGetLength (der : Bytes) (idx maxIdx : Nat) : Asn (Nat × Nat) := do
  let after ← add32 idx 1
  decodeIf (after > maxIdx)
  let b ← byteAt der idx
  if b ≥ 0x80 then do
    let bytes := b - 0x80
    let octetsEnd ← add32 after bytes
    decodeIf (bytes = 0 ∨ bytes > 3 ∨ octetsEnd > maxIdx)
    let first ← byteAt der after
    decodeIf (first = 0)
    let length ← lengthOctets der after bytes 0
    decodeIf (length < 0x80)
    let e ← add32 octetsEnd length
    decodeIf (e > maxIdx)
    pure (length, octetsEnd)
  else do
    let e ← add32 after b
    decodeIf (e > maxIdx)
    pure (b, after)

/-- `wn_Asn_GetHeader`. -/
def asnGetHeader (der : Bytes) (tag idx maxIdx : Nat) : Asn (Nat × Nat) := do
  let after ← add32 idx 1
  decodeIf (after > maxIdx)
  let t ← byteAt der idx
  decodeIf (t ≠ tag)
  asnGetLength der after maxIdx

/-- `wn_Asn_GetHeaderExact`. -/
def asnGetHeaderExact (der : Bytes) (tag idx maxIdx : Nat) : Asn (Nat × Nat) := do
  let (len, idx) ← asnGetHeader der tag idx maxIdx
  let e ← add32 idx len
  decodeIf (e ≠ maxIdx)
  pure (len, idx)

/-- `wn_Asn_GetBitString`. -/
def asnGetBitString (der : Bytes) (idx maxIdx : Nat) : Asn (Slice × Nat) := do
  let (len, idx) ← asnGetHeader der asnBitString idx maxIdx
  decodeIf (len < 1)
  let unused ← byteAt der idx
  decodeIf (unused ≠ 0)
  let idx ← add32 idx 1
  let e ← add32 idx (len - 1)
  pure (⟨idx, len - 1⟩, e)

variable (B : X509Build) (der : Bytes)

/-! ### Algorithms, times and names -/

/-- `wn_ParseAlgIdOids`. -/
def parseAlgIdOids (idx algEnd : Nat) : Asn Unit × X509Key × X509Curve :=
  let oid := do
    let (oidLen, idx) ← asnGetHeader der asnObjectId idx algEnd
    let keyAlg ← keyAlgFromOid B der idx oidLen
    let idx ← add32 idx oidLen
    pure (keyAlg, idx)
  match oid with
  | .error e => (.error e, .unknown, .none)
  | .ok (.ecdsa, idx) =>
      let params := do
        let (oidLen, idx) ← asnGetHeader der asnObjectId idx algEnd
        let curve ← curveFromOid B der idx oidLen
        let idx ← add32 idx oidLen
        pure (curve, idx)
      match params with
      | .error e => (.error e, .ecdsa, .none)
      | .ok (curve, idx) => (decodeIf (idx ≠ algEnd), .ecdsa, curve)
  | .ok (.rsa, idx) =>
      let params := do
        let (len, idx) ← asnGetHeader der asnNull idx algEnd
        decodeIf (len ≠ 0 ∨ idx ≠ algEnd)
      (params, .rsa, .none)
  | .ok (.ed25519, idx) => (decodeIf (idx ≠ algEnd), .ed25519, .none)
  | .ok (.unknown, _) => (pure (), .unknown, .none)

/-- `wn_GetTime`. -/
def getTime (idx maxIdx : Nat) : Asn (Slice × Nat) := do
  decodeIf (idx ≥ maxIdx)
  let tag ← byteAt der idx
  decodeIf (tag ≠ asnUtcTime ∧ tag ≠ asnGenTime)
  let (len, next) ← asnGetHeader der tag idx maxIdx
  let headerLen ← sub32 next idx
  let outLen ← add32 headerLen len
  let e ← add32 next len
  pure (⟨idx, outLen % 2 ^ 16⟩, e)

def cnValue (idx atvEnd : Nat) : Asn (Option Slice) := do
  if idx < atvEnd then
    let valTag ← byteAt der idx
    if valTag = asnUtf8String ∨ valTag = asnPrintableString ∨ valTag = asnT61String ∨
        valTag = asnIa5String then
      match ← attempt (asnGetHeader der valTag idx atvEnd) with
      | none => pure none
      | some (valLen, idx) =>
          if 1 ≤ valLen ∧ valLen ≤ x509MaxDnsName then
            if ← hasNul der idx valLen then pure none else pure (some ⟨idx, valLen⟩)
          else
            pure none
    else
      pure none
  else
    pure none

def findCnAttr : Nat → Nat → Nat → Asn (Option Slice)
  | 0, _, _ => .error .fault
  | fuel + 1, idx, rdnEnd => do
      if idx < rdnEnd then
        match ← attempt (asnGetHeader der asnSeq idx rdnEnd) with
        | none => pure none
        | some (atvLen, idx) => do
            let atvEnd ← add32 idx atvLen
            match ← attempt (asnGetHeader der asnObjectId idx atvEnd) with
            | none => pure none
            | some (oidLen, idx) => do
                let oidEnd ← add32 idx oidLen
                let cn ← if ← oidEq der idx oidLen oidCN then cnValue der oidEnd atvEnd
                  else pure none
                match cn with
                | some name => pure (some name)
                | none => findCnAttr fuel atvEnd rdnEnd
      else
        pure none

/-- `wn_FindCN`. -/
def findCn : Nat → Nat → Nat → Asn (Option Slice)
  | 0, _, _ => .error .fault
  | fuel + 1, idx, nameEnd => do
      if idx < nameEnd then
        match ← attempt (asnGetHeader der asnSetOf idx nameEnd) with
        | none => pure none
        | some (rdnLen, idx) => do
            let rdnEnd ← add32 idx rdnLen
            match ← findCnAttr der (rdnLen + 1) idx rdnEnd with
            | some name => pure (some name)
            | none => findCn fuel rdnEnd nameEnd
      else
        pure none

/-! ### Extensions -/

/-- `wn_ExtBasicConstraints`. -/
def extBasicConstraints (idx extEnd : Nat) (exts : X509Exts) (crit : Bool) : Asn X509Exts := do
  let flags := { exts.flags with bcSet := true, bcCrit := exts.flags.bcCrit || crit }
  let (seqLen, idx) ← asnGetHeader der asnSeq idx extEnd
  let e ← add32 idx seqLen
  decodeIf (e ≠ extEnd)
  let bool ← if idx < e then (fun tag => tag == asnBoolean) <$> byteAt der idx else pure false
  let (ca, idx) ←
    if bool then do
      let (len, idx) ← asnGetHeader der asnBoolean idx e
      decodeIf (len ≠ 1)
      let v ← byteAt der idx
      decodeIf (v ≠ 0xFF)
      let idx ← add32 idx len
      pure (true, idx)
    else
      pure (false, idx)
  let idx ←
    if B.pathLen ∧ idx < e then do
      let (len, idx) ← asnGetHeader der asnInteger idx e
      add32 idx len
    else
      pure idx
  decodeIf (idx ≠ e)
  pure { exts with flags := { flags with ca := flags.ca || ca } }

/-- `wn_ExtKeyUsage`. -/
def extKeyUsage (idx extEnd : Nat) (exts : X509Exts) (crit : Bool) : Asn X509Exts := do
  let flags := { exts.flags with kuSet := true, kuCrit := exts.flags.kuCrit || crit }
  let (kuLen, idx) ← asnGetHeaderExact der asnBitString idx extEnd
  decodeIf (kuLen < 1)
  let unused ← byteAt der idx
  decodeIf (unused > 7)
  if kuLen ≥ 2 then do
    let e ← add32 idx kuLen
    let lastAt ← sub32 e 1
    let last ← byteAt der lastAt
    decodeIf (last % 2 ^ unused ≠ 0)
    let lowAt ← add32 idx 1
    let low ← byteAt der lowAt
    let high ←
      if kuLen ≥ 3 then do
        let highAt ← add32 idx 2
        byteAt der highAt
      else
        pure 0
    let keyUsage := low + high * 256
    decodeIf (keyUsage = 0)
    pure { exts with flags, keyUsage }
  else do
    decodeIf (exts.keyUsage = 0)
    pure { exts with flags }

def ekuLoop : Nat → Nat → Nat → Nat → Asn Nat
  | 0, _, _, _ => .error .fault
  | fuel + 1, idx, e, usage => do
      if idx < e then do
        let (oidLen, idx) ← asnGetHeader der asnObjectId idx e
        let next ← add32 idx oidLen
        if ← oidEq der idx oidLen oidEkuSrvauth then
          ekuLoop fuel next e (usage ||| 0x02)
        else if ← oidEq der idx oidLen oidEkuAny then
          ekuLoop fuel next e (usage ||| 0x01)
        else
          ekuLoop fuel next e usage
      else
        pure usage

/-- `wn_ExtExtKeyUsage`. -/
def extExtKeyUsage (idx extEnd : Nat) (exts : X509Exts) (crit : Bool) : Asn X509Exts := do
  let flags := { exts.flags with ekuSet := true, ekuCrit := exts.flags.ekuCrit || crit }
  let (seqLen, idx) ← asnGetHeader der asnSeq idx extEnd
  let e ← add32 idx seqLen
  decodeIf (e ≠ extEnd)
  decodeIf (seqLen = 0)
  let usage ← ekuLoop der (seqLen + 1) idx extEnd exts.extKeyUsage
  pure { exts with flags, extKeyUsage := usage }

def sanLoop : Nat → Nat → Nat → List Slice → Asn (List Slice)
  | 0, _, _, _ => .error .fault
  | fuel + 1, idx, e, san => do
      if idx < e then do
        let tag ← byteAt der idx
        let (nameLen, idx) ← asnGetHeader der tag idx e
        let next ← add32 idx nameLen
        if tag = asnSanDns then do
          decodeIf (nameLen < 1 ∨ nameLen > x509MaxDnsName)
          let nul ← hasNul der idx nameLen
          decodeIf (nul = true)
          if san.length < x509MaxSan then
            sanLoop fuel next e (san ++ [⟨idx, nameLen⟩])
          else
            sanLoop fuel next e san
        else
          sanLoop fuel next e san
      else
        pure san

/-- `wn_ExtAltName`. -/
def extAltName (idx extEnd : Nat) (exts : X509Exts) (crit : Bool) : Asn X509Exts := do
  let flags := { exts.flags with sanSet := true, sanCrit := exts.flags.sanCrit || crit }
  let (seqLen, idx) ← asnGetHeader der asnSeq idx extEnd
  let e ← add32 idx seqLen
  decodeIf (e ≠ extEnd)
  decodeIf (seqLen = 0)
  let san ← sanLoop der (seqLen + 1) idx extEnd exts.san
  pure { exts with flags, san }

def parseKnown (k : KnownExt) (idx extEnd : Nat) (exts : X509Exts) (crit : Bool) : Asn X509Exts :=
  match k with
  | .bc => extBasicConstraints B der idx extEnd exts crit
  | .ku => extKeyUsage der idx extEnd exts crit
  | .eku => extExtKeyUsage der idx extEnd exts crit
  | .san => if B.hostname then extAltName der idx extEnd exts crit else pure exts

def parseExtension (idx exEnd : Nat) (exts : X509Exts) (seen : List KnownExt) :
    Asn (X509Exts × List KnownExt) := do
  let (oidLen, oidAt) ← asnGetHeader der asnObjectId idx exEnd
  let idx ← add32 oidAt oidLen
  let bool ← if idx < exEnd then (fun tag => tag == asnBoolean) <$> byteAt der idx
    else pure false
  let (crit, idx) ←
    if bool then do
      let (len, idx) ← asnGetHeader der asnBoolean idx exEnd
      decodeIf (len ≠ 1)
      let v ← byteAt der idx
      decodeIf (v ≠ 0xFF)
      let idx ← add32 idx len
      pure (true, idx)
    else
      pure (false, idx)
  let (valLen, idx) ← asnGetHeader der asnOctetString idx exEnd
  let valEnd ← add32 idx valLen
  decodeIf (valEnd ≠ exEnd)
  match ← knownExt der oidAt oidLen with
  | some k => do
      decodeIf (k ∈ seen)
      let exts ← parseKnown B der k idx valEnd exts crit
      pure (exts, k :: seen)
  | none => if crit then .error .x509CritExt else pure (exts, seen)

def extLoop : Nat → Nat → Nat → X509Exts → List KnownExt → Asn X509Exts
  | 0, _, _, _, _ => .error .fault
  | fuel + 1, idx, extEnd, exts, seen => do
      if idx < extEnd then do
        let (len, idx) ← asnGetHeader der asnSeq idx extEnd
        let exEnd ← add32 idx len
        let (exts, seen) ← parseExtension B der idx exEnd exts seen
        extLoop fuel exEnd extEnd exts seen
      else
        pure exts

def skipUids (version : Nat) : Nat → Nat → Nat → Asn Nat
  | 0, _, _ => .error .fault
  | fuel + 1, idx, tbsEnd => do
      if idx < tbsEnd then do
        let tag ← byteAt der idx
        if tag = asnCtx3 then
          pure idx
        else do
          decodeIf ((tag ≠ asnUid1 ∧ tag ≠ asnUid2) ∨ version < 1)
          let (len, idx) ← asnGetHeader der tag idx tbsEnd
          let next ← add32 idx len
          skipUids version fuel next tbsEnd
      else
        pure idx

/-- `wn_ParseExtensions`. -/
def parseExtensions (idx tbsEnd version : Nat) : Asn X509Exts := do
  let idx ← skipUids der version (tbsEnd - idx + 1) idx tbsEnd
  if idx < tbsEnd then do
    decodeIf (version ≠ 2)
    let (len, idx) ← asnGetHeader der asnCtx3 idx tbsEnd
    let ctx3End ← add32 idx len
    decodeIf (ctx3End ≠ tbsEnd)
    let (len, idx) ← asnGetHeader der asnSeq idx ctx3End
    let extEnd ← add32 idx len
    decodeIf (extEnd ≠ ctx3End)
    decodeIf (len = 0)
    extLoop B der (len + 1) idx ctx3End .zero []
  else
    pure .zero

/-! ### The certificate -/

def parseVersion (idx tbsEnd : Nat) : Asn (Nat × Nat) := do
  let explicit ← if idx < tbsEnd then (fun tag => tag == asnCtx0) <$> byteAt der idx
    else pure false
  if explicit then do
    let (len, idx) ← asnGetHeader der asnCtx0 idx tbsEnd
    let verEnd ← add32 idx len
    let (len, idx) ← asnGetHeader der asnInteger idx verEnd
    decodeIf (len ≠ 1)
    let v ← byteAt der idx
    let e ← add32 idx 1
    decodeIf (v < 1 ∨ v > 2 ∨ e ≠ verEnd)
    pure (v, verEnd)
  else
    pure (0, idx)

def sigAlgParams (sigAlg : X509Sig) (oidEnd algEnd : Nat) : Asn Unit := do
  if sigAlg.noParams then
    decodeIf (oidEnd ≠ algEnd)
  else if sigAlg.isRsa then do
    let e ← add32 oidEnd 2
    decodeIf (e ≠ algEnd)
    let tag ← byteAt der oidEnd
    let lenAt ← add32 oidEnd 1
    let len ← byteAt der lenAt
    decodeIf (tag ≠ asnNull ∨ len ≠ 0)
  else
    pure ()

/-- The length of an element from its start to the end of its contents. -/
def wholeLen (begin_ idx len : Nat) : Asn Nat := do
  let headerLen ← sub32 idx begin_
  add32 len headerLen

/-- `wn_X509_Parse`. -/
def x509Parse : Asn X509Cert := do
  if der.length < 2 ∨ der.length > 0x7FFFFFFF then .error .invalidArg else
  let maxIdx := der.length
  let (totLen, idx) ← asnGetHeader der asnSeq 0 maxIdx
  let certEnd ← add32 idx totLen
  decodeIf (certEnd ≠ maxIdx)
  let certBegin := idx
  let (certLen, idx) ← asnGetHeader der asnSeq idx maxIdx
  let tbsLen ← wholeLen certBegin idx certLen
  let tbsEnd ← add32 certBegin tbsLen
  let (version, idx) ← parseVersion der idx tbsEnd
  let (len, idx) ← asnGetHeader der asnInteger idx tbsEnd
  decodeIf (len < 1)
  let innerBegin ← add32 idx len
  let (len, idx) ← asnGetHeader der asnSeq innerBegin tbsEnd
  let innerLen ← wholeLen innerBegin idx len
  let idx ← add32 idx len
  let (len, idx) ← asnGetHeader der asnSeq idx tbsEnd
  let idx ← add32 idx len
  let (len, idx) ← asnGetHeader der asnSeq idx tbsEnd
  let valEnd ← add32 idx len
  let (notBefore, idx) ← getTime der idx valEnd
  let (notAfter, idx) ← getTime der idx valEnd
  decodeIf (idx ≠ valEnd)
  let (len, idx) ← asnGetHeader der asnSeq valEnd tbsEnd
  let spkiBegin ← add32 idx len
  let subjectCN ← if B.hostname && B.commonName then findCn der (len + 1) idx spkiBegin
    else pure none
  let (len, idx) ← asnGetHeader der asnSeq spkiBegin tbsEnd
  let spkiLen ← wholeLen spkiBegin idx len
  let spkiEnd ← add32 idx len
  let (algLen, idx) ← asnGetHeader der asnSeq idx spkiEnd
  let algEnd ← add32 idx algLen
  let (rc, keyAlg, curve) := parseAlgIdOids B der idx algEnd
  rc
  let (pubKey, idx) ← asnGetBitString der algEnd spkiEnd
  decodeIf (idx ≠ spkiEnd)
  let exts ← parseExtensions B der idx tbsEnd version
  let outerBegin := tbsEnd
  let (len, idx) ← asnGetHeader der asnSeq outerBegin maxIdx
  let algEnd ← add32 idx len
  let (oidLen, oidIdx) ← asnGetHeader der asnObjectId idx algEnd
  let sigAlg ← sigAlgFromOid B der oidIdx oidLen
  let outerLen ← wholeLen outerBegin idx len
  decodeIf (outerLen ≠ innerLen)
  let inner ← bytesAt der innerBegin innerLen
  let outer ← bytesAt der outerBegin innerLen
  decodeIf (inner ≠ outer)
  let oidEnd ← add32 oidIdx oidLen
  sigAlgParams der sigAlg oidEnd algEnd
  let (sig, idx) ← asnGetBitString der algEnd maxIdx
  decodeIf (idx ≠ certEnd)
  pure { der, tbs := ⟨certBegin, tbsLen⟩, sig, pubKey, spki := ⟨spkiBegin, spkiLen⟩, notBefore,
         notAfter, subjectCN, sigAlg, keyAlg, curve, exts }

end WolfNano.Checked
