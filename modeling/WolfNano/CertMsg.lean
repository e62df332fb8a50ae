/-
The certificate messages: the order of the server flight (`wn_flight.h`), the
alert of an error (`wn_alert.h`), the encoders of `wn_servercert.c`, and the
client's reading of Certificate and CertificateVerify in `wn_connect.c`.
-/
import WolfNano.Handshake
import WolfNano.ClientHello
import WolfNano.KeyShare

namespace WolfNano

open Duplex

/-- The three flags `wn_FlightOrder` updates. -/
structure FlightSeen where
  gotEE : Bool := false
  gotCert : Bool := false
  gotCv : Bool := false
  deriving DecidableEq

/-- `wn_FlightOrder`. -/
def flightOrder (mType : UInt8) (seen : FlightSeen) : Except Err FlightSeen :=
  if mType = hsEncryptedExt then
    if seen.gotEE then .error .unexpectedMsg else .ok { seen with gotEE := true }
  else if mType = hsCertRequest then
    .error .unsupported
  else if mType = hsCertificate then
    if !seen.gotEE || seen.gotCert then .error .unexpectedMsg
    else .ok { seen with gotCert := true }
  else if mType = hsCertVerify then
    if !seen.gotCert || seen.gotCv then .error .unexpectedMsg
    else .ok { seen with gotCv := true }
  else if mType = hsFinished then
    if !seen.gotCv then .error .unexpectedMsg else .ok seen
  else
    .error .unexpectedMsg

/-- `wn_ErrToAlert`. -/
def errToAlert : Err → UInt8
  | .unexpectedMsg => 10
  | .badMac => 20
  | .decode => 50
  | .illegalParam => 47
  | .badCert => 42
  | _ => 80

/-- `wn_ServerCert_Build`. -/
def serverCertBuild (outCap : Nat) (certDer : Bytes) : Except Err Bytes :=
  let w := Writer.init outCap
  let w := w.u8 hsCertificate.toNat
  let (w, body) := w.lenStart 3
  let w := w.u8 0
  let (w, list) := w.lenStart 3
  let (w, entry) := w.lenStart 3
  let w := w.bytes (some certDer) certDer.length
  let w := w.lenEnd entry 3
  let w := w.u16 0
  let w := w.lenEnd list 3
  let w := w.lenEnd body 3
  if w.err then .error .crypto else .ok w.buf

/-- `wn_BuildCvTbs`: the content a CertificateVerify signs. -/
def buildCvTbs (th : Bytes) : Bytes :=
  List.replicate 64 0x20 ++ ascii "TLS 1.3, server CertificateVerify" ++ [0] ++ th

/-- The schemes `wn_CertVerify` accepts in this build. -/
def verifyAlg (B : Build) (scheme : Nat) : Option SigAlg :=
  if scheme = 0x0403 ∧ B.ecc then some (.ecdsa .sha256 32)
  else if scheme = 0x0503 ∧ B.ecc384 ∧ B.sha384 then some (.ecdsa .sha384 48)
  else if scheme = 0x0807 ∧ B.ed25519 then some .ed25519
  else if scheme = 0x0804 ∧ B.rsa then some (.rsaPss .sha256)
  else if scheme = 0x0805 ∧ B.rsa ∧ B.sha384 then some (.rsaPss .sha384)
  else if scheme = 0x0806 ∧ B.rsa ∧ B.sha512 then some (.rsaPss .sha512)
  else B.mldsa.bind fun level =>
    if scheme = level.scheme then some (.mldsa level) else none

/-- The schemes `wn_SignCv` can sign with in this build. -/
def signAlg (B : Build) (scheme : Nat) : Option SigAlg :=
  if scheme = 0x0403 ∧ B.ecc then some (.ecdsa .sha256 32)
  else if scheme = 0x0503 ∧ B.ecc ∧ B.ecc384 ∧ B.sha384 then
    some (.ecdsa .sha384 48)
  else if scheme = 0x0807 ∧ B.ed25519 then some .ed25519
  else if scheme = 0x0804 ∧ B.rsa ∧ B.rsaFull then some (.rsaPss .sha256)
  else if scheme = 0x0805 ∧ B.rsa ∧ B.rsaFull ∧ B.sha384 then
    some (.rsaPss .sha384)
  else if scheme = 0x0806 ∧ B.rsa ∧ B.rsaFull ∧ B.sha512 then
    some (.rsaPss .sha512)
  else B.mldsa.bind fun level =>
    if scheme = level.scheme ∧ B.mldsaSign then some (.mldsa level) else none

variable (P : Platform)

/-- What the primitive is applied to: the digest of `tbs`, or `tbs` itself. -/
def sigInput (alg : SigAlg) (tbs : Bytes) : Except Err Bytes :=
  match alg with
  | .ecdsa digest _ => orCrypto (P.hash digest tbs)
  | .rsaPss digest => orCrypto (P.hash digest tbs)
  | .ed25519 => .ok tbs
  | .mldsa _ => .ok tbs

/-- `wn_CvEcdsa`, `wn_CvEd25519`, `wn_CvRsaPss` and `wn_CvMlDsa`. -/
def cvVerify (alg : SigAlg) (spki tbs sig : Bytes) : Ret := do
  let input ← sigInput P alg tbs
  failIf (P.sigInit alg = false) .crypto
  let key ← (P.verifyKey alg spki).elim (.error .badCert) .ok
  failIf (P.verify alg key input sig = false) .badCert

/-- `wn_SignEcdsa`, `wn_SignEd25519`, `wn_SignRsaPss` and `wn_SignMlDsa`. -/
def cvSign (alg : SigAlg) (keyDer tbs : Bytes) (cap : Nat) (rng : P.Rng) :
    Except Err (Bytes × P.Rng) := do
  let input ← sigInput P alg tbs
  failIf (P.sigInit alg = false) .crypto
  let key ← orCrypto (P.signKey alg keyDer)
  orCrypto (P.sign alg key input cap rng)

/-- The X.509 side of the build: `wn_VerifyChain` with the leaf key it copies
out, and `wn_SchemeKeyOk` on a leaf key (always true for the asn.c backend). -/
structure X509Backend where
  verifyChain : (certs : List Bytes) → (anchor : Bytes) →
    (serverName : Option CStr) → (pinnedKey : Option Bytes) → (now : Int) →
    (spkiCap : Nat) → Except Err Bytes
  schemeKeyOk : (scheme : Nat) → (spki : Bytes) → Bool

/-- `wn_CertVerify`. -/
def certVerify (X : X509Backend) (scheme : Nat) (spki th sig : Bytes) : Ret :=
  if X.schemeKeyOk scheme spki = false then
    .error .badCert
  else
    match verifyAlg P.build scheme with
    | none => .error .unsupported
    | some alg => cvVerify P alg spki (buildCvTbs th) sig

/-- `wn_SignCv`. -/
def signCv (scheme : Nat) (keyDer tbs : Bytes) (cap : Nat) (rng : P.Rng) :
    Except Err (Bytes × P.Rng) :=
  match signAlg P.build scheme with
  | none => .error .unsupported
  | some alg => cvSign P alg keyDer tbs cap rng

/-- `wn_ServerCertVerify_Sign`; the signature is made in place. -/
def serverCertVerifySign (outCap scheme : Nat) (keyDer th : Bytes) (rng : P.Rng) :
    Except Err Bytes := do
  let w := Writer.init outCap
  let w := w.u8 hsCertVerify.toNat
  let (w, body) := w.lenStart 3
  let w := w.u16 scheme
  let (w, lenOff) := w.lenStart 2
  failIf (w.err = true) .crypto
  let (sig, _) ← signCv P scheme keyDer (buildCvTbs th) (outCap - w.len) rng
  let w : Writer := { w with buf := w.buf ++ sig, len := add32 w.len sig.length }
  let w := w.lenEnd lenOff 2
  let w := w.lenEnd body 3
  failIf (w.err = true) .crypto
  pure w.buf

/-! ### The client's reading of the two messages -/

/-- `WN_MAX_CHAIN`. -/
def maxChain : Nat := 4

/-- The certificate entries, at most as many as the first argument. -/
def readCertEntries : Nat → Bytes → Nat → List Bytes → Reader →
    List Bytes × Reader
  | 0, _, _, certs, r => (certs, r)
  | n + 1, body, listEnd, certs, r =>
      if r.pos < listEnd ∧ r.err = false then
        let (cl, r) := r.u24
        let certs := certs ++ [slice body r.pos cl]
        let (_, r) := r.bytes cl
        let (extl, r) := r.u16
        let (_, r) := r.bytes extl
        readCertEntries n body listEnd certs r
      else
        (certs, r)

/-- The certificate list of a Certificate body. -/
def parseCertList (body : Bytes) : Except Err (List Bytes) := do
  let r := Reader.init body
  let (ctxLen, r) := r.u8
  let (_, r) := r.bytes ctxLen
  let (listLen, r) := r.u24
  let listEnd := add32 r.pos listLen
  failIf (r.err = true ∨ ctxLen ≠ 0 ∨ listEnd ≠ body.length) .decode
  let (certs, r) := readCertEntries maxChain body listEnd [] r
  -- malformed, or a chain of more than `maxChain` certificates
  failIf (r.err = true ∨ r.pos ≠ listEnd) .decode
  pure certs

/-- The scheme and the signature of a CertificateVerify body. -/
def parseCertVerify (body : Bytes) : Except Err (Nat × Bytes) := do
  let r := Reader.init body
  let (scheme, r) := r.u16
  let (cvLen, r) := r.u16
  failIf (r.err = true ∨ add32 r.pos cvLen ≠ body.length) .decode
  pure (scheme, slice body r.pos cvLen)

end WolfNano
