/-
The certificate checks of the client: validity times, host names, the key pin,
and `wn_VerifyChain` over the native parser.  `wn_X509_VerifySignedBy` is a
parameter.
-/
import WolfNano.X509
import WolfNano.CertMsg

namespace WolfNano

open Duplex

/-! ### Times -/

/-- `wn_DaysFromCivil`. -/
def daysFromCivil (y m d : Int) : Int :=
  let y := if m ≤ 2 then y - 1 else y
  let era := (if y ≥ 0 then y else y - 399).tdiv 400
  let yoe := y - era * 400
  let doy := (153 * (m + (if m > 2 then -3 else 9)) + 2).tdiv 5 + d - 1
  let doe := yoe * 365 + yoe.tdiv 4 - yoe.tdiv 100 + doy
  era * 146097 + doe - 719468

/-- `wn_DaysInMonth`. -/
def daysInMonth (y m : Nat) : Nat :=
  let leap := y % 4 = 0 ∧ (y % 100 ≠ 0 ∨ y % 400 = 0)
  if m = 2 ∧ leap then 29
  else [31, 28, 31, 30, 31, 30, 31, 31, 30, 31, 30, 31].getD (m - 1) 0

/-- `wn_Dig2`. -/
def dig2 (tlv : Bytes) (i : Nat) : Asn Nat := do
  let a ← byteAt tlv i
  decodeIf (a < 48 ∨ a > 57)
  let b ← byteAt tlv (i + 1)
  decodeIf (b < 48 ∨ b > 57)
  pure ((a - 48) * 10 + (b - 48))

variable (B : X509Build)

/-- The year of a time and where the month is. -/
def timeYear (tlv : Bytes) : Asn (Nat × Nat) := do
  let tag ← byteAt tlv 0
  let len ← byteAt tlv 1
  if tag = asnUtcTime ∧ len = 13 then do
    let y ← dig2 tlv 2
    pure (y + (if y < 50 then 2000 else 1900), 4)
  else if B.genTime = true ∧ tag = asnGenTime ∧ len = 15 then do
    let c ← dig2 tlv 2
    let y ← dig2 tlv 4
    pure (y + c * 100, 6)
  else
    .error .x509Decode

/-- `wn_CertTimeEpoch`. -/
def certTimeEpoch (tlv : Bytes) : Asn Int := do
  decodeIf (tlv.length < 2)
  let len ← byteAt tlv 1
  decodeIf (len + 2 ≠ tlv.length)
  let (y, p) ← timeYear B tlv
  let mo ← dig2 tlv p
  let d ← dig2 tlv (p + 2)
  let h ← dig2 tlv (p + 4)
  let mi ← dig2 tlv (p + 6)
  let s ← dig2 tlv (p + 8)
  let z ← byteAt tlv (p + 10)
  decodeIf (z ≠ 90)
  decodeIf (mo < 1 ∨ mo > 12 ∨ d < 1 ∨ d > daysInMonth y mo ∨ h > 23 ∨ mi > 59 ∨ s > 60)
  pure (daysFromCivil y mo d * 86400 + h * 3600 + mi * 60 + s)

/-- `wn_X509_TimeValid`. -/
def x509TimeValid (cert : X509Cert) (now : Int) : Asn Unit := do
  let nb ← certTimeEpoch B (cert.notBefore.bytes cert.der)
  let na ← certTimeEpoch B (cert.notAfter.bytes cert.der)
  if now < nb ∨ now > na then .error .badCert else pure ()

/-! ### Names and pins -/

/-- `wn_AsciiLower`. -/
def asciiLower (c : UInt8) : UInt8 := if 65 ≤ c ∧ c ≤ 90 then c - 65 + 97 else c

/-- `wn_DnsCaseEq` on names of one length. -/
def dnsCaseEq (a b : Bytes) : Bool := a.map asciiLower == b.map asciiLower

/-- `wn_DnsNameMatch`. -/
def dnsNameMatch (pat host : Bytes) : Bool :=
  if pat.length = 0 ∨ host.length = 0 then
    false
  else if pat.length > 2 ∧ pat.getD 0 0 = 42 ∧ pat.getD 1 0 = 46 then
    let k := (host.takeWhile (· ≠ 46)).length
    0 < k ∧ k < host.length ∧ pat.length - 1 = host.length - k ∧
      dnsCaseEq (pat.drop 1) (host.drop k)
  else
    pat.length = host.length ∧ dnsCaseEq pat host

/-- `wn_CheckServerName`. -/
def checkServerName (leaf : X509Cert) (host : Bytes) : Bool :=
  leaf.exts.san.any (fun name => dnsNameMatch (name.bytes leaf.der) host) ||
    B.commonName && leaf.exts.san.isEmpty &&
      leaf.subjectCN.any fun name => dnsNameMatch (name.bytes leaf.der) host

/-- `wn_CheckKeyPin`: the SPKI for ECDSA, the raw key otherwise. -/
def checkKeyPin (leaf : X509Cert) (pin : Bytes) : Bool :=
  let key := if leaf.keyAlg = .ecdsa then leaf.spkiBytes else leaf.pubKey.bytes leaf.der
  pin ≠ [] ∧ pin = key

/-! ### The chain -/

/-- `wn_X509_VerifySignedBy`: whether the child's signature verifies under the
issuer's key. -/
abbrev SignedBy := (child issuer : X509Cert) → Bool

/-- `WOLFNANO_E_X509_DECODE` on a date is a certificate failure, as are the others. -/
def timeRet (r : Asn Unit) : Ret :=
  match r with
  | .ok () => .ok ()
  | .error .invalidArg => .error .invalidArg
  | .error _ => .error .badCert

/-- The checks on a presented issuer that is not the anchor. -/
def checkIntermediate (issuer : X509Cert) (now : Int) : Ret :=
  if issuer.exts.flags.ca = false then .error .badCert
  else if issuer.exts.flags.kuSet = true ∧ issuer.exts.keyCertSign = false then .error .badCert
  else timeRet (x509TimeValid B issuer now)

/-- The loop of `wn_VerifyChain` from a certificate on; `anchorSpki` is `none` when
the anchor does not parse. -/
def chainLoop (signedBy : SignedBy) (anchor : Bytes) (anchorSpki : Option Bytes) (now : Int) :
    List Bytes → Ret
  | [] => .ok ()
  | der :: rest =>
      match x509Parse B der with
      | .error _ => .error .badCert
      | .ok child =>
          if anchorSpki = some child.spkiBytes then
            .ok ()
          else
            let issuerDer := rest.headD anchor
            let notAnchor := rest ≠ [] ∧ issuerDer ≠ anchor
            match x509Parse B issuerDer with
            | .error _ => .error .badCert
            | .ok issuer =>
                if signedBy child issuer = false then
                  .error .badCert
                else
                  match if notAnchor then checkIntermediate B issuer now else .ok () with
                  | .error e => .error e
                  | .ok () => chainLoop signedBy anchor anchorSpki now rest

/-- The checks on the leaf, in the source's order. -/
def checkLeaf (leaf : X509Cert) (serverName : Option CStr) (pinnedKey : Option Bytes)
    (now : Int) (spkiCap : Nat) : Except Err Bytes := do
  failIf (leaf.spki.len > spkiCap) .crypto
  failIf (leaf.exts.flags.kuSet = true ∧ leaf.exts.digitalSignature = false) .badCert
  failIf (leaf.exts.flags.ekuSet = true ∧ leaf.exts.serverAuth = false) .badCert
  failIf (∃ pin ∈ pinnedKey, checkKeyPin leaf pin = false) .badCert
  failIf (serverName.isSome = true ∧ B.hostname = false) .unsupported
  failIf (∃ host ∈ serverName, checkServerName B leaf host.1 = false) .badCert
  timeRet (x509TimeValid B leaf now)
  pure leaf.spkiBytes

/-- `wn_VerifyChain`, returning the leaf's SubjectPublicKeyInfo. -/
def verifyChain (signedBy : SignedBy) (certs : List Bytes) (anchor : Bytes)
    (serverName : Option CStr) (pinnedKey : Option Bytes) (now : Int) (spkiCap : Nat) :
    Except Err Bytes :=
  match certs with
  | [] => .error .invalidArg
  | leafDer :: _ => do
      let anchorSpki := (x509Parse B anchor).toOption.map X509Cert.spkiBytes
      chainLoop B signedBy anchor anchorSpki now certs
      match x509Parse B leafDer with
      | .error _ => .error .badCert
      | .ok leaf => checkLeaf B leaf serverName pinnedKey now spkiCap

/-- `wn_SchemeKeyOk` on what `wn_X509_SpkiKeyInfo` makes of the leaf key; its code is
not looked at. -/
def schemeKeyOk (scheme : Nat) (spki : Bytes) : Bool :=
  let (_, leafKeyAlg, leafCurve) := x509SpkiKeyInfo B spki
  if scheme = 0x0403 then leafKeyAlg = .ecdsa ∧ leafCurve = .p256
  else if scheme = 0x0503 then leafKeyAlg = .ecdsa ∧ leafCurve = .p384
  else if scheme = 0x0807 then leafKeyAlg = .ed25519
  else if scheme = 0x0804 ∨ scheme = 0x0805 ∨ scheme = 0x0806 then leafKeyAlg = .rsa
  else true

/-- The native backend of the certificate client. -/
def nativeBackend (signedBy : SignedBy) : X509Backend where
  verifyChain := verifyChain B signedBy
  schemeKeyOk := schemeKeyOk B

end WolfNano
