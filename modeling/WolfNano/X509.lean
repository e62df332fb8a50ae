/-
The native certificate parser, `wn_x509.c`.
-/
import WolfNano.Asn

namespace WolfNano

open Duplex

/-- The toggles of the X.509 code, beside the algorithms of the build. -/
structure X509Build where
  build : Build
  /-- `WOLFNANO_X509_HOSTNAME` -/
  hostname : Bool
  /-- not `WOLFNANO_NO_X509_CN` -/
  commonName : Bool
  /-- not `WOLFNANO_NO_X509_GENTIME` -/
  genTime : Bool
  /-- not `WOLFNANO_NO_X509_PATHLEN` -/
  pathLen : Bool
  deriving DecidableEq, Repr

/-- `WN_X509_KEY_*` -/
inductive X509Key where
  | unknown
  | ecdsa
  | rsa
  | ed25519
  deriving DecidableEq, Repr

/-- `WN_X509_CURVE_*` -/
inductive X509Curve where
  | none
  | p256
  | p384
  deriving DecidableEq, Repr

/-- `WN_X509_SIG_*` -/
inductive X509Sig where
  | unknown
  | ecdsaSha256
  | ecdsaSha384
  | rsaSha256
  | rsaSha384
  | rsaSha512
  | ed25519
  deriving DecidableEq, Repr

def x509MaxSan : Nat := 16
def x509MaxDnsName : Nat := 255

/-- The flag word `WN_X509_F_*`, bit by bit. -/
structure X509Flags where
  ca : Bool
  bcSet : Bool
  bcCrit : Bool
  kuSet : Bool
  kuCrit : Bool
  ekuSet : Bool
  ekuCrit : Bool
  sanSet : Bool
  sanCrit : Bool
  deriving DecidableEq, Repr

/-- What the extensions contribute to a `wn_X509Cert`. -/
structure X509Exts where
  flags : X509Flags
  keyUsage : Nat
  extKeyUsage : Nat
  san : List Slice
  deriving DecidableEq, Repr

def X509Exts.zero : X509Exts :=
  ⟨⟨false, false, false, false, false, false, false, false, false⟩, 0, 0, []⟩

/-- `wn_X509Cert`; its pointers point into `der`. -/
structure X509Cert where
  der : Bytes
  tbs : Slice
  sig : Slice
  pubKey : Slice
  spki : Slice
  notBefore : Slice
  notAfter : Slice
  subjectCN : Option Slice
  sigAlg : X509Sig
  keyAlg : X509Key
  curve : X509Curve
  exts : X509Exts
  deriving DecidableEq, Repr

/-- The bytes of the SubjectPublicKeyInfo. -/
def X509Cert.spkiBytes (c : X509Cert) : Bytes := c.spki.bytes c.der

/-- `WN_X509_KU_DIGITAL_SIG` in the key usage. -/
def X509Exts.digitalSignature (e : X509Exts) : Bool := e.keyUsage.testBit 7

/-- `WN_X509_KU_KEY_CERT_SIGN` in the key usage. -/
def X509Exts.keyCertSign (e : X509Exts) : Bool := e.keyUsage.testBit 2

/-- `WN_X509_EKU_SERVER_AUTH` in the extended key usage. -/
def X509Exts.serverAuth (e : X509Exts) : Bool := e.extKeyUsage.testBit 1

/-! ### Algorithms -/

def oidEcPubkey : Bytes := [0x2A, 0x86, 0x48, 0xCE, 0x3D, 0x02, 0x01]
def oidRsaEnc : Bytes := [0x2A, 0x86, 0x48, 0x86, 0xF7, 0x0D, 0x01, 0x01, 0x01]
def oidEd25519 : Bytes := [0x2B, 0x65, 0x70]
def oidP256 : Bytes := [0x2A, 0x86, 0x48, 0xCE, 0x3D, 0x03, 0x01, 0x07]
def oidP384 : Bytes := [0x2B, 0x81, 0x04, 0x00, 0x22]
def oidEcdsaSha256 : Bytes := [0x2A, 0x86, 0x48, 0xCE, 0x3D, 0x04, 0x03, 0x02]
def oidEcdsaSha384 : Bytes := [0x2A, 0x86, 0x48, 0xCE, 0x3D, 0x04, 0x03, 0x03]
def oidRsaSha256 : Bytes := [0x2A, 0x86, 0x48, 0x86, 0xF7, 0x0D, 0x01, 0x01, 0x0B]
def oidRsaSha384 : Bytes := [0x2A, 0x86, 0x48, 0x86, 0xF7, 0x0D, 0x01, 0x01, 0x0C]
def oidRsaSha512 : Bytes := [0x2A, 0x86, 0x48, 0x86, 0xF7, 0x0D, 0x01, 0x01, 0x0D]
def oidExtBc : Bytes := [0x55, 0x1D, 0x13]
def oidExtKu : Bytes := [0x55, 0x1D, 0x0F]
def oidExtEku : Bytes := [0x55, 0x1D, 0x25]
def oidExtSan : Bytes := [0x55, 0x1D, 0x11]
def oidEkuSrvauth : Bytes := [0x2B, 0x06, 0x01, 0x05, 0x05, 0x07, 0x03, 0x01]
def oidEkuAny : Bytes := [0x55, 0x1D, 0x25, 0x00]
def oidCN : Bytes := [0x55, 0x04, 0x03]

/-- The first entry whose OID is at this place, if the build has it. -/
def oidLookup {α : Type} (der : Bytes) (idx len : Nat) (unknown : α) :
    List (Bool × Bytes × α) → Asn α
  | [] => pure unknown
  | (have_, oid, a) :: table => do
      if have_ then
        if ← oidEq der idx len oid then pure a else oidLookup der idx len unknown table
      else
        oidLookup der idx len unknown table

variable (B : X509Build) (der : Bytes)

/-- `wn_KeyAlgFromOid`. -/
def keyAlgFromOid (idx len : Nat) : Asn X509Key :=
  oidLookup der idx len .unknown
    [(true, oidEcPubkey, .ecdsa),
      (B.build.rsa, oidRsaEnc, .rsa),
      (B.build.ed25519, oidEd25519, .ed25519)]

/-- `wn_CurveFromOid`. -/
def curveFromOid (idx len : Nat) : Asn X509Curve :=
  oidLookup der idx len .none
    [(true, oidP256, .p256),
      (B.build.ecc384, oidP384, .p384)]

/-- `wn_SigAlgFromOid`. -/
def sigAlgFromOid (idx len : Nat) : Asn X509Sig :=
  oidLookup der idx len .unknown
    [(true, oidEcdsaSha256, .ecdsaSha256),
      (B.build.ecc384 && B.build.sha384, oidEcdsaSha384, .ecdsaSha384),
      (B.build.rsa, oidRsaSha256, .rsaSha256),
      (B.build.rsa && B.build.sha384, oidRsaSha384, .rsaSha384),
      (B.build.rsa && B.build.sha512, oidRsaSha512, .rsaSha512),
      (B.build.ed25519, oidEd25519, .ed25519)]

/-- `wn_SigAlgNoParams`. -/
def X509Sig.noParams : X509Sig → Bool
  | ecdsaSha256 | ecdsaSha384 | ed25519 => true
  | _ => false

/-- `wn_SigAlgIsRsa`. -/
def X509Sig.isRsa : X509Sig → Bool
  | rsaSha256 | rsaSha384 | rsaSha512 => true
  | _ => false

/-- `wn_ParseAlgIdOids`: its code, and the key type and curve it leaves behind, which
stay when a later check fails. -/
def parseAlgIdOids (idx algEnd : Nat) : Asn Unit × X509Key × X509Curve :=
  let oid := do
    let (oidLen, idx) ← asnGetHeader der asnObjectId idx algEnd
    let keyAlg ← keyAlgFromOid B der idx oidLen
    pure (keyAlg, idx + oidLen)
  match oid with
  | .error e => (.error e, .unknown, .none)
  | .ok (.ecdsa, idx) =>
      let params := do
        let (oidLen, idx) ← asnGetHeader der asnObjectId idx algEnd
        let curve ← curveFromOid B der idx oidLen
        pure (curve, idx + oidLen)
      match params with
      | .error e => (.error e, .ecdsa, .none)
      -- the namedCurve fills the AlgorithmIdentifier
      | .ok (curve, idx) => (decodeIf (idx ≠ algEnd), .ecdsa, curve)
  | .ok (.rsa, idx) =>
      let params := do
        let (len, idx) ← asnGetHeader der asnNull idx algEnd
        decodeIf (len ≠ 0 ∨ idx ≠ algEnd)
      (params, .rsa, .none)
  | .ok (.ed25519, idx) => (decodeIf (idx ≠ algEnd), .ed25519, .none)
  | .ok (.unknown, _) => (pure (), .unknown, .none)

/-- `wn_X509_SpkiKeyInfo`, with what it leaves behind. -/
def x509SpkiKeyInfo (spki : Bytes) : Asn Unit × X509Key × X509Curve :=
  let alg := do
    let (_, idx) ← asnGetHeader spki asnSeq 0 spki.length
    asnGetHeader spki asnSeq idx spki.length
  match alg with
  | .error e => (.error e, .unknown, .none)
  | .ok (algLen, idx) => parseAlgIdOids B spki idx (idx + algLen)

/-! ### Times and names -/

/-- `wn_GetTime`: a validity time as a whole TLV, its length in 16 bits. -/
def getTime (idx maxIdx : Nat) : Asn (Slice × Nat) := do
  decodeIf (idx ≥ maxIdx)
  let tag ← byteAt der idx
  decodeIf (tag ≠ asnUtcTime ∧ tag ≠ asnGenTime)
  let (len, next) ← asnGetHeader der tag idx maxIdx
  pure (⟨idx, (next - idx + len) % 2 ^ 16⟩, next + len)

/-- The value of an attribute when it can be a host name. -/
def cnValue (idx atvEnd : Nat) : Asn (Option Slice) := do
  if idx < atvEnd then
    let valTag ← byteAt der idx
    if valTag = asnUtf8String ∨ valTag = asnPrintableString ∨ valTag = asnT61String ∨
        valTag = asnIa5String then
      match ← attempt (asnGetHeader der valTag idx atvEnd) with
      | none => pure none
      | some (valLen, idx) =>
          if 1 ≤ valLen ∧ valLen ≤ x509MaxDnsName then
            if ← hasNul der idx valLen then pure none else pure (some ⟨idx, valLen⟩)
          else
            pure none
    else
      pure none
  else
    pure none

/-- The inner loop of `wn_FindCN`, over the attributes of one RDN. -/
def findCnAttr : Nat → Nat → Nat → Asn (Option Slice)
  | 0, _, _ => .error .fault
  | fuel + 1, idx, rdnEnd => do
      if idx < rdnEnd then
        match ← attempt (asnGetHeader der asnSeq idx rdnEnd) with
        | none => pure none
        | some (atvLen, idx) =>
            let atvEnd := idx + atvLen
            match ← attempt (asnGetHeader der asnObjectId idx atvEnd) with
            | none => pure none
            | some (oidLen, idx) =>
                let cn ← if ← oidEq der idx oidLen oidCN then cnValue der (idx + oidLen) atvEnd
                  else pure none
                match cn with
                | some name => pure (some name)
                | none => findCnAttr fuel atvEnd rdnEnd
      else
        pure none

/-- `wn_FindCN`: the first commonName of the subject that can be a host name. -/
def findCn : Nat → Nat → Nat → Asn (Option Slice)
  | 0, _, _ => .error .fault
  | fuel + 1, idx, nameEnd => do
      if idx < nameEnd then
        match ← attempt (asnGetHeader der asnSetOf idx nameEnd) with
        | none => pure none
        | some (rdnLen, idx) =>
            match ← findCnAttr der (rdnLen + 1) idx (idx + rdnLen) with
            | some name => pure (some name)
            | none => findCn fuel (idx + rdnLen) nameEnd
      else
        pure none

/-! ### Extensions -/

/-- `wn_ExtBasicConstraints`. -/
def extBasicConstraints (idx extEnd : Nat) (exts : X509Exts) (crit : Bool) : Asn X509Exts := do
  let flags := { exts.flags with bcSet := true, bcCrit := exts.flags.bcCrit || crit }
  let (seqLen, idx) ← asnGetHeader der asnSeq idx extEnd
  let e := idx + seqLen
  decodeIf (e ≠ extEnd)
  let bool ← if idx < e then (fun tag => tag == asnBoolean) <$> byteAt der idx else pure false
  let (ca, idx) ←
    if bool then do
      let (len, idx) ← asnGetHeader der asnBoolean idx e
      decodeIf (len ≠ 1)
      let v ← byteAt der idx
      -- an explicit FALSE violates the DEFAULT
      decodeIf (v ≠ 0xFF)
      pure (true, idx + len)
    else
      pure (false, idx)
  let idx ←
    if B.pathLen ∧ idx < e then do
      let (len, idx) ← asnGetHeader der asnInteger idx e
      pure (idx + len)
    else
      pure idx
  decodeIf (idx ≠ e)
  pure { exts with flags := { flags with ca := flags.ca || ca } }

/-- `wn_ExtKeyUsage`. -/
def extKeyUsage (idx extEnd : Nat) (exts : X509Exts) (crit : Bool) : Asn X509Exts := do
  let flags := { exts.flags with kuSet := true, kuCrit := exts.flags.kuCrit || crit }
  let (kuLen, idx) ← asnGetHeaderExact der asnBitString idx extEnd
  decodeIf (kuLen < 1)
  let unused ← byteAt der idx
  decodeIf (unused > 7)
  if kuLen ≥ 2 then do
    let last ← byteAt der (idx + kuLen - 1)
    -- the padding bits are zero
    decodeIf (last % 2 ^ unused ≠ 0)
    let low ← byteAt der (idx + 1)
    let high ← if kuLen ≥ 3 then byteAt der (idx + 2) else pure 0
    let keyUsage := low + high * 256
    decodeIf (keyUsage = 0)
    pure { exts with flags, keyUsage }
  else do
    decodeIf (exts.keyUsage = 0)
    pure { exts with flags }

/-- The loop of `wn_ExtExtKeyUsage`. -/
def ekuLoop : Nat → Nat → Nat → Nat → Asn Nat
  | 0, _, _, _ => .error .fault
  | fuel + 1, idx, e, usage => do
      if idx < e then
        let (oidLen, idx) ← asnGetHeader der asnObjectId idx e
        if ← oidEq der idx oidLen oidEkuSrvauth then
          ekuLoop fuel (idx + oidLen) e (usage ||| 0x02)
        else if ← oidEq der idx oidLen oidEkuAny then
          ekuLoop fuel (idx + oidLen) e (usage ||| 0x01)
        else
          ekuLoop fuel (idx + oidLen) e usage
      else
        pure usage

/-- `wn_ExtExtKeyUsage`. -/
def extExtKeyUsage (idx extEnd : Nat) (exts : X509Exts) (crit : Bool) : Asn X509Exts := do
  let flags := { exts.flags with ekuSet := true, ekuCrit := exts.flags.ekuCrit || crit }
  let (seqLen, idx) ← asnGetHeader der asnSeq idx extEnd
  decodeIf (idx + seqLen ≠ extEnd)
  decodeIf (seqLen = 0)
  let usage ← ekuLoop der (seqLen + 1) idx extEnd exts.extKeyUsage
  pure { exts with flags, extKeyUsage := usage }

/-- The loop of `wn_ExtAltName`. -/
def sanLoop : Nat → Nat → Nat → List Slice → Asn (List Slice)
  | 0, _, _, _ => .error .fault
  | fuel + 1, idx, e, san => do
      if idx < e then
        let tag ← byteAt der idx
        let (nameLen, idx) ← asnGetHeader der tag idx e
        if tag = asnSanDns then
          decodeIf (nameLen < 1 ∨ nameLen > x509MaxDnsName)
          let nul ← hasNul der idx nameLen
          decodeIf (nul = true)
          -- names beyond the pool are dropped
          if san.length < x509MaxSan then
            sanLoop fuel (idx + nameLen) e (san ++ [⟨idx, nameLen⟩])
          else
            sanLoop fuel (idx + nameLen) e san
        else
          sanLoop fuel (idx + nameLen) e san
      else
        pure san

/-- `wn_ExtAltName`. -/
def extAltName (idx extEnd : Nat) (exts : X509Exts) (crit : Bool) : Asn X509Exts := do
  let flags := { exts.flags with sanSet := true, sanCrit := exts.flags.sanCrit || crit }
  let (seqLen, idx) ← asnGetHeader der asnSeq idx extEnd
  decodeIf (idx + seqLen ≠ extEnd)
  decodeIf (seqLen = 0)
  let san ← sanLoop der (seqLen + 1) idx extEnd exts.san
  pure { exts with flags, san }

/-- The extensions `wn_ParseExtensions` knows. -/
inductive KnownExt where
  | bc
  | ku
  | eku
  | san
  deriving DecidableEq, Repr

/-- Which extension an OID names. -/
def knownExt (idx len : Nat) : Asn (Option KnownExt) :=
  oidLookup der idx len none
    [(true, oidExtBc, some .bc), (true, oidExtKu, some .ku), (true, oidExtEku, some .eku),
      (true, oidExtSan, some .san)]

/-- The contents of a known extension. -/
def KnownExt.parse (k : KnownExt) (idx extEnd : Nat) (exts : X509Exts) (crit : Bool) :
    Asn X509Exts :=
  match k with
  | bc => extBasicConstraints B der idx extEnd exts crit
  | ku => extKeyUsage der idx extEnd exts crit
  | eku => extExtKeyUsage der idx extEnd exts crit
  | san => if B.hostname then extAltName der idx extEnd exts crit else pure exts

/-- One Extension, from the contents of its SEQUENCE to its end. -/
def parseExtension (idx exEnd : Nat) (exts : X509Exts) (seen : List KnownExt) :
    Asn (X509Exts × List KnownExt) := do
  let (oidLen, oidAt) ← asnGetHeader der asnObjectId idx exEnd
  let idx := oidAt + oidLen
  let bool ← if idx < exEnd then (fun tag => tag == asnBoolean) <$> byteAt der idx
    else pure false
  let (crit, idx) ←
    if bool then do
      let (len, idx) ← asnGetHeader der asnBoolean idx exEnd
      decodeIf (len ≠ 1)
      let v ← byteAt der idx
      decodeIf (v ≠ 0xFF)
      pure (true, idx + len)
    else
      pure (false, idx)
  let (valLen, idx) ← asnGetHeader der asnOctetString idx exEnd
  decodeIf (idx + valLen ≠ exEnd)
  match ← knownExt der oidAt oidLen with
  | some k => do
      decodeIf (k ∈ seen)
      let exts ← k.parse B der idx (idx + valLen) exts crit
      pure (exts, k :: seen)
  | none => if crit then .error .x509CritExt else pure (exts, seen)

/-- The loop of `wn_ParseExtensions`. -/
def extLoop : Nat → Nat → Nat → X509Exts → List KnownExt → Asn X509Exts
  | 0, _, _, _, _ => .error .fault
  | fuel + 1, idx, extEnd, exts, seen => do
      if idx < extEnd then
        let (len, idx) ← asnGetHeader der asnSeq idx extEnd
        let (exts, seen) ← parseExtension B der idx (idx + len) exts seen
        extLoop fuel (idx + len) extEnd exts seen
      else
        pure exts

/-- The unique identifiers before the extensions. -/
def skipUids (version : Nat) : Nat → Nat → Nat → Asn Nat
  | 0, _, _ => .error .fault
  | fuel + 1, idx, tbsEnd => do
      if idx < tbsEnd then
        let tag ← byteAt der idx
        if tag = asnCtx3 then
          pure idx
        else do
          decodeIf ((tag ≠ asnUid1 ∧ tag ≠ asnUid2) ∨ version < 1)
          let (len, idx) ← asnGetHeader der tag idx tbsEnd
          skipUids version fuel (idx + len) tbsEnd
      else
        pure idx

/-- `wn_ParseExtensions`. -/
def parseExtensions (idx tbsEnd version : Nat) : Asn X509Exts := do
  let idx ← skipUids der version (tbsEnd - idx + 1) idx tbsEnd
  if idx < tbsEnd then do
    -- extensions are for v3
    decodeIf (version ≠ 2)
    let (len, idx) ← asnGetHeader der asnCtx3 idx tbsEnd
    let ctx3End := idx + len
    decodeIf (ctx3End ≠ tbsEnd)
    let (len, idx) ← asnGetHeader der asnSeq idx ctx3End
    decodeIf (idx + len ≠ ctx3End)
    decodeIf (len = 0)
    extLoop B der (len + 1) idx ctx3End .zero []
  else
    pure .zero

/-! ### The certificate -/

/-- The version field: v1 when it is absent. -/
def parseVersion (idx tbsEnd : Nat) : Asn (Nat × Nat) := do
  let explicit ← if idx < tbsEnd then (fun tag => tag == asnCtx0) <$> byteAt der idx
    else pure false
  if explicit then do
    let (len, idx) ← asnGetHeader der asnCtx0 idx tbsEnd
    let verEnd := idx + len
    let (len, idx) ← asnGetHeader der asnInteger idx verEnd
    decodeIf (len ≠ 1)
    let v ← byteAt der idx
    decodeIf (v < 1 ∨ v > 2 ∨ idx + 1 ≠ verEnd)
    pure (v, verEnd)
  else
    pure (0, idx)

/-- The shape of the parameters of a signature algorithm whose OID ends at `oidEnd`. -/
def sigAlgParams (sigAlg : X509Sig) (oidEnd algEnd : Nat) : Asn Unit := do
  if sigAlg.noParams then
    decodeIf (oidEnd ≠ algEnd)
  else if sigAlg.isRsa then do
    decodeIf (oidEnd + 2 ≠ algEnd)
    let tag ← byteAt der oidEnd
    let len ← byteAt der (oidEnd + 1)
    decodeIf (tag ≠ asnNull ∨ len ≠ 0)
  else
    pure ()

/-- `wn_X509_Parse`; a certificate that fails leaves a zeroed record. -/
def x509Parse : Asn X509Cert := do
  if der.length < 2 ∨ der.length > 0x7FFFFFFF then .error .invalidArg else
  let maxIdx := der.length
  let (totLen, idx) ← asnGetHeader der asnSeq 0 maxIdx
  let certEnd := idx + totLen
  decodeIf (certEnd ≠ maxIdx)
  let certBegin := idx
  let (certLen, idx) ← asnGetHeader der asnSeq idx maxIdx
  let tbs : Slice := ⟨certBegin, certLen + (idx - certBegin)⟩
  let tbsEnd := certBegin + tbs.len
  let (version, idx) ← parseVersion der idx tbsEnd
  -- serialNumber
  let (len, idx) ← asnGetHeader der asnInteger idx tbsEnd
  decodeIf (len < 1)
  let innerBegin := idx + len
  let (len, idx) ← asnGetHeader der asnSeq innerBegin tbsEnd
  let innerLen := len + (idx - innerBegin)
  -- issuer
  let (len, idx) ← asnGetHeader der asnSeq (idx + len) tbsEnd
  let (len, idx) ← asnGetHeader der asnSeq (idx + len) tbsEnd
  let valEnd := idx + len
  let (notBefore, idx) ← getTime der idx valEnd
  let (notAfter, idx) ← getTime der idx valEnd
  decodeIf (idx ≠ valEnd)
  -- subject
  let (len, idx) ← asnGetHeader der asnSeq valEnd tbsEnd
  let subjectCN ← if B.hostname && B.commonName then findCn der (len + 1) idx (idx + len)
    else pure none
  let spkiBegin := idx + len
  let (len, idx) ← asnGetHeader der asnSeq spkiBegin tbsEnd
  let spki : Slice := ⟨spkiBegin, len + (idx - spkiBegin)⟩
  let spkiEnd := idx + len
  let (algLen, idx) ← asnGetHeader der asnSeq idx spkiEnd
  let algEnd := idx + algLen
  let (rc, keyAlg, curve) := parseAlgIdOids B der idx algEnd
  rc
  let (pubKey, idx) ← asnGetBitString der algEnd spkiEnd
  decodeIf (idx ≠ spkiEnd)
  let exts ← parseExtensions B der idx tbsEnd version
  let outerBegin := tbsEnd
  let (len, idx) ← asnGetHeader der asnSeq outerBegin maxIdx
  let (oidLen, oidIdx) ← asnGetHeader der asnObjectId idx (idx + len)
  let sigAlg ← sigAlgFromOid B der oidIdx oidLen
  -- the inner and the outer signatureAlgorithm match
  decodeIf (len + (idx - outerBegin) ≠ innerLen)
  let inner ← bytesAt der innerBegin innerLen
  let outer ← bytesAt der outerBegin innerLen
  decodeIf (inner ≠ outer)
  sigAlgParams der sigAlg (oidIdx + oidLen) (idx + len)
  let (sig, idx) ← asnGetBitString der (idx + len) maxIdx
  decodeIf (idx ≠ certEnd)
  pure { der, tbs, sig, pubKey, spki, notBefore, notAfter, subjectCN, sigAlg, keyAlg, curve,
         exts }

end WolfNano
