/-
The provider seam: return codes, the compiled-in configuration, and the
wc_* operations the shell calls.  An operation that can report an error returns
`none` in that case; the laws of `Platform` only say how many bytes a successful
operation writes.
-/
import WolfNano.Duplex.Prog

namespace WolfNano

open Duplex

/-- The negative return codes. -/
inductive Err where
  | invalidArg
  | crypto
  | unsupported
  | badState
  | unexpectedMsg
  | decode
  | badMac
  | illegalParam
  | badCert
  | closed
  deriving DecidableEq, Repr

/-- `WOLFNANO_SUCCESS` or an error. -/
abbrev Ret := Except Err Unit

/-- A NUL-terminated string, without its terminator. -/
abbrev CStr := { b : Bytes // 0 ∉ b }

/-- The hash identifiers the shell passes on; `none` is the zeroed field. -/
inductive Digest where
  | none
  | sha256
  | sha384
  | sha512
  deriving DecidableEq, Repr

def Digest.size : Digest → Nat
  | .none => 0
  | .sha256 => 32
  | .sha384 => 48
  | .sha512 => 64

/-- The (EC)DHE group the build is for. -/
inductive KexGroup where
  | x25519
  | secp256r1
  | x25519mlkem768
  deriving DecidableEq, Repr

namespace KexGroup

/-- `WN_DEFAULT_GROUP`. -/
def id : KexGroup → Nat
  | x25519 => 0x001d
  | secp256r1 => 0x0017
  | x25519mlkem768 => 0x11ec

/-- `WN_DEFAULT_PUB_SZ`, the client share. -/
def pubSz : KexGroup → Nat
  | x25519 => 32
  | secp256r1 => 65
  | x25519mlkem768 => 1184 + 32

/-- `WN_DEFAULT_SRV_SHARE_SZ`. -/
def srvShareSz : KexGroup → Nat
  | x25519 => 32
  | secp256r1 => 65
  | x25519mlkem768 => 1088 + 32

end KexGroup

/-- `WOLFNANO_MLDSA_LEVEL`. -/
inductive MldsaLevel where
  | l2
  | l3
  | l5
  deriving DecidableEq, Repr

/-- `WN_MLDSA_SCHEME`. -/
def MldsaLevel.scheme : MldsaLevel → Nat
  | .l2 => 0x0904
  | .l3 => 0x0905
  | .l5 => 0x0906

/-- The compile-time switches the modelled functions depend on. -/
structure Build where
  group : KexGroup
  /-- `WOLFNANO_SEND_ALERTS` -/
  sendAlerts : Bool
  /-- `WOLFSSL_HAVE_MLDSA` and its level -/
  mldsa : Option MldsaLevel
  /-- `WOLFNANO_MLDSA_SIGN` -/
  mldsaSign : Bool
  /-- `HAVE_ED25519` -/
  ed25519 : Bool
  /-- `HAVE_ECC` -/
  ecc : Bool
  /-- `HAVE_ECC384` -/
  ecc384 : Bool
  /-- RSA verification, `!NO_RSA` -/
  rsa : Bool
  /-- `WOLFNANO_RSA_FULL`, RSA signing -/
  rsaFull : Bool
  /-- `WOLFSSL_SHA384` -/
  sha384 : Bool
  /-- `WOLFSSL_SHA512` -/
  sha512 : Bool
  deriving DecidableEq, Repr

/-- The two curves an ECDHE share can be on. -/
inductive Curve where
  | x25519
  | p256
  deriving DecidableEq, Repr

def Curve.pubSz : Curve → Nat
  | .x25519 => 32
  | .p256 => 65

/-- What a CertificateVerify signature is made with. -/
inductive SigAlg where
  | ecdsa (digest : Digest) (curveSize : Nat)
  | ed25519
  | rsaPss (digest : Digest)
  | mldsa (level : MldsaLevel)
  deriving DecidableEq, Repr

/-- A build of the shell over the wc_* operations of a provider.  The random
generator is threaded through the operations that draw from it. -/
structure Platform where
  build : Build
  Rng : Type
  DhKey : Type
  KemKey : Type
  VerifyKey : Type
  SignKey : Type
  rngBlock : Rng → Nat → Option (Bytes × Rng)
  hashInit : Digest → Bool
  /-- whether a context that has absorbed `fed` accepts `msg` -/
  hashUpdate : Digest → (fed msg : Bytes) → Bool
  hash : Digest → Bytes → Option Bytes
  hkdfExtract : Digest → (salt ikm : Bytes) → Option Bytes
  hkdfExpandLabel :
    Digest → Nat → (secret protocol label info : Bytes) → Option Bytes
  hmac : Digest → (key msg : Bytes) → Option Bytes
  aesInit : Bool
  aesKey : Bytes → Bool
  /-- AES-GCM: key, nonce, additional data, plaintext to ciphertext and tag -/
  gcmEncrypt : (key nonce aad plain : Bytes) → Option (Bytes × Bytes)
  gcmDecrypt : (key nonce aad ct tag : Bytes) → Option Bytes
  /-- the same call with an output that starts `gap` bytes behind the start of
  the ciphertext, in the ciphertext or the tag: it may write what it reads later -/
  gcmDecryptOver : (gap : Nat) → (key nonce aad ct tag : Bytes) → Option Bytes
  dhInit : Curve → Bool
  dhMake : Curve → Rng → Option (DhKey × Rng)
  dhPublic : Curve → DhKey → Option Bytes
  /-- import of the peer value and the shared secret -/
  dhShared : Curve → DhKey → Bytes → Option Bytes
  kemInit : Bool
  kemMake : Rng → Option (KemKey × Rng)
  kemPublic : KemKey → Option Bytes
  kemEncap : Bytes → Rng → Option ((Bytes × Bytes) × Rng)
  kemDecap : KemKey → Bytes → Option Bytes
  sigInit : SigAlg → Bool
  /-- the leaf key in the encoding the verifier takes, checked for its curve -/
  verifyKey : SigAlg → Bytes → Option VerifyKey
  verify : SigAlg → VerifyKey → (msg sig : Bytes) → Bool
  signKey : SigAlg → Bytes → Option SignKey
  /-- a signature into a buffer of the given capacity -/
  sign : SigAlg → SignKey → Bytes → Nat → Rng → Option (Bytes × Rng)
  rngBlock_length : ∀ {g n b g'}, rngBlock g n = some (b, g') → b.length = n
  hash_length : ∀ {d m h}, hash d m = some h → h.length = d.size
  hkdfExtract_length :
    ∀ {d salt ikm prk}, hkdfExtract d salt ikm = some prk → prk.length = d.size
  hkdfExpandLabel_length :
    ∀ {d n secret protocol label info okm},
      hkdfExpandLabel d n secret protocol label info = some okm → okm.length = n
  hmac_length : ∀ {d key msg mac}, hmac d key msg = some mac → mac.length = d.size
  gcmEncrypt_length :
    ∀ {key nonce aad plain ct tag},
      gcmEncrypt key nonce aad plain = some (ct, tag) →
        ct.length = plain.length ∧ tag.length = 16
  gcmDecrypt_length :
    ∀ {key nonce aad ct tag plain},
      gcmDecrypt key nonce aad ct tag = some plain → plain.length = ct.length
  gcmDecryptOver_length :
    ∀ {gap key nonce aad ct tag plain},
      gcmDecryptOver gap key nonce aad ct tag = some plain → plain.length = ct.length
  dhPublic_length :
    ∀ {c k pub}, dhPublic c k = some pub → pub.length = c.pubSz
  dhShared_length :
    ∀ {c k peer ss}, dhShared c k peer = some ss → ss.length = 32
  kemPublic_length : ∀ {k pub}, kemPublic k = some pub → pub.length = 1184
  kemEncap_length :
    ∀ {pub g ct ss g'}, kemEncap pub g = some ((ct, ss), g') →
      ct.length = 1088 ∧ ss.length = 32
  kemDecap_length : ∀ {k ct ss}, kemDecap k ct = some ss → ss.length = 32

/-- What a driver or a session does between two transport calls, as far as
buffers and record keys are concerned. -/
inductive Ev where
  /-- A call of `wn_Record_Protect` past its argument checks. -/
  | protect (outCap : Nat) (key iv : Bytes) (seq : UInt64) (contentType : UInt8)
      (content : Bytes)
  /-- A call of `wn_Record_Unprotect` past its argument checks. -/
  | unprotect (outCap : Nat) (key iv : Bytes) (seq : UInt64) (rec : Bytes)
  /-- The same with an output that starts inside the record, `gap` bytes behind
  its header. -/
  | unprotectOver (gap outCap : Nat) (key iv : Bytes) (seq : UInt64) (rec : Bytes)
  /-- A copy of `n` bytes to offset `off` of a region of `cap` bytes. -/
  | copy (cap off n : Nat)
  /-- The endpoint's write key and IV become these. -/
  | writeKey (key iv : Bytes)
  deriving DecidableEq

abbrev Shell (α : Type) := Prog Ev Err α

end WolfNano
