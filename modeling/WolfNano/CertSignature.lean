/-
The signature of a certificate, `wn_X509_VerifySignedBy` of `wn_x509.c`: which key may verify which
signature, and over which bytes.
-/
import WolfNano.CertExts
import WolfNano.ParseSafe
import WolfNano.RsaKey

namespace WolfNano

open Duplex

/-- The wc_* calls of the signature check.  A call that fails returns `none`. -/
structure CertSigOps where
  EccKey : Type
  RsaKey : Type
  EdKey : Type
  hash : Digest → Bytes → Option Bytes
  eccInit : Bool
  eccImport : X509Curve → Bytes → Option EccKey
  /-- the call succeeds and its result is one -/
  eccVerify : EccKey → (sig hash : Bytes) → Bool
  rsaInit : Bool
  rsaImport : (n e : Bytes) → Option RsaKey
  /-- the block recovered from a signature, into a buffer of the given capacity -/
  rsaRecover : RsaKey → (sig : Bytes) → Nat → Option Bytes
  /-- the DigestInfo of a digest -/
  encodeSignature : Digest → (hash : Bytes) → Bytes
  edInit : Bool
  edImport : Bytes → Option EdKey
  /-- the call succeeds and its result is one -/
  edVerify : EdKey → (sig msg : Bytes) → Bool

/-- The codes of the signature check: those of the shell, and those of the parser. -/
inductive SigErr where
  | code (e : Err)
  | parser (e : X509Err)
  deriving DecidableEq, Repr

def SigErr.failIf (c : Prop) [Decidable c] (e : Err) : Except SigErr Unit :=
  if c then .error (.code e) else .ok ()

def SigErr.orFail {α : Type} (x : Option α) (e : Err) : Except SigErr α :=
  x.elim (.error (.code e)) .ok

def SigErr.ofParser {α : Type} (x : Asn α) : Except SigErr α := x.mapError .parser

def X509Cert.tbsBytes (c : X509Cert) : Bytes := c.tbs.bytes c.der

def X509Cert.sigBytes (c : X509Cert) : Bytes := c.sig.bytes c.der

def X509Cert.keyBytes (c : X509Cert) : Bytes := c.pubKey.bytes c.der

/-- `wn_HashForSig`. -/
def hashForSig (B : Build) : X509Sig → Digest
  | .ecdsaSha256 => .sha256
  | .rsaSha256 => .sha256
  | .ecdsaSha384 => if B.ecc384 && B.sha384 then .sha384 else .none
  | .rsaSha384 => if B.rsa && B.sha384 then .sha384 else .none
  | .rsaSha512 => if B.rsa && B.sha512 then .sha512 else .none
  | _ => .none

/-- `wn_CurveId`; `none` is `ECC_CURVE_INVALID`. -/
def curveId (B : Build) : X509Curve → Option X509Curve
  | .p256 => some .p256
  | .p384 => if B.ecc384 then some .p384 else none
  | .none => none

/-- `wn_MemEq`. -/
def memEq (a b : Bytes) (len : Nat) : Bool := a.take len == b.take len

section Verify

variable (B : X509Build) (S : CertSigOps) (child issuer : X509Cert)

/-- `wn_VerifyEcdsa`. -/
def verifyEcdsa : Except SigErr Unit := do
  let digest := hashForSig B.build child.sigAlg
  let curve ← SigErr.orFail (curveId B.build issuer.curve) .badCert
  SigErr.failIf (digest.size = 0) .badCert
  let hash ← SigErr.orFail (S.hash digest child.tbsBytes) .crypto
  SigErr.failIf (S.eccInit = false) .crypto
  let key ← SigErr.orFail (S.eccImport curve issuer.keyBytes) .badCert
  SigErr.failIf (S.eccVerify key child.sigBytes hash = false) .badCert

/-- `wn_VerifyRsa`: the recovered block is compared with the expected DigestInfo. -/
def verifyRsa : Except SigErr Unit := do
  let digest := hashForSig B.build child.sigAlg
  SigErr.failIf (digest.size = 0) .badCert
  let (n, e) ← SigErr.ofParser (x509RsaRawNE issuer.keyBytes)
  let hash ← SigErr.orFail (S.hash digest child.tbsBytes) .crypto
  SigErr.failIf (S.rsaInit = false) .crypto
  let key ← SigErr.orFail (S.rsaImport (n.bytes issuer.keyBytes) (e.bytes issuer.keyBytes)) .badCert
  let encoded := S.encodeSignature digest hash
  let decoded ← SigErr.orFail (S.rsaRecover key child.sigBytes 512) .badCert
  SigErr.failIf (decoded.length ≠ encoded.length ∨
    memEq decoded encoded encoded.length = false) .badCert

/-- `wn_VerifyEd25519`: the message itself is signed. -/
def verifyEd25519 : Except SigErr Unit := do
  SigErr.failIf (S.edInit = false) .crypto
  let key ← SigErr.orFail (S.edImport issuer.keyBytes) .badCert
  SigErr.failIf (S.edVerify key child.sigBytes child.tbsBytes = false) .badCert

/-- `wn_SigAlgMatchesKey`. -/
def sigAlgMatchesKey (keyAlg : X509Key) (sigAlg : X509Sig) : Bool :=
  match keyAlg with
  | .ecdsa => sigAlg = .ecdsaSha256 ∨ sigAlg = .ecdsaSha384
  | .rsa => sigAlg.isRsa
  | .ed25519 => sigAlg = .ed25519
  | .unknown => false

/-- `wn_X509_VerifySignedBy`. -/
def x509VerifySignedBy : Except SigErr Unit :=
  if sigAlgMatchesKey issuer.keyAlg child.sigAlg = false then
    .error (.code .badCert)
  else
    match issuer.keyAlg with
    | .ecdsa => if B.build.ecc then verifyEcdsa B S child issuer else .error (.code .unsupported)
    | .rsa => if B.build.rsa then verifyRsa B S child issuer else .error (.code .unsupported)
    | .ed25519 =>
        if B.build.ed25519 then verifyEd25519 S child issuer else .error (.code .unsupported)
    | .unknown => .error (.code .unsupported)

/-- What `wn_VerifyChain` asks of it. -/
def signedBy : SignedBy := fun child issuer => (x509VerifySignedBy B S child issuer).isOk

end Verify

/-! ### What a verified signature is -/

/-- The hash of a signature algorithm. -/
def X509Sig.digest : X509Sig → Digest
  | .ecdsaSha256 | .rsaSha256 => .sha256
  | .ecdsaSha384 | .rsaSha384 => .sha384
  | .rsaSha512 => .sha512
  | .ed25519 | .unknown => .none

/-- The issuer's key verifies `sig` over `tbs`: a key of the kind the signature algorithm names, in
its one encoding, and the signature over the bytes or their hash. -/
inductive Verifies (B : X509Build) (S : CertSigOps) (alg : X509Sig) (tbs sig : Bytes)
    (issuer : X509Cert) : Prop where
  | ecdsa {hash : Bytes} {key : S.EccKey} (hbuild : B.build.ecc = true) (hinit : S.eccInit = true)
      (hkey : issuer.keyAlg = .ecdsa) (halg : alg = .ecdsaSha256 ∨ alg = .ecdsaSha384)
      (hcurve : issuer.curve ≠ .none) (hhash : S.hash alg.digest tbs = some hash)
      (himport : S.eccImport issuer.curve issuer.keyBytes = some key)
      (hverify : S.eccVerify key sig hash = true)
  | rsa {hash n e body : Bytes} {key : S.RsaKey} (hinit : S.rsaInit = true)
      (hkey : issuer.keyAlg = .rsa) (halg : alg.isRsa = true)
      (hform : RsaForm issuer.keyBytes n e body) (hn : IntUnsigned n) (he : IntUnsigned e)
      (hshort : body.length < 2 ^ 24) (hhash : S.hash alg.digest tbs = some hash)
      (himport : S.rsaImport n e = some key)
      (hverify : S.rsaRecover key sig 512 = some (S.encodeSignature alg.digest hash))
  | ed25519 {key : S.EdKey} (hinit : S.edInit = true) (hkey : issuer.keyAlg = .ed25519)
      (halg : alg = .ed25519) (himport : S.edImport issuer.keyBytes = some key)
      (hverify : S.edVerify key sig tbs = true)

section Codes

variable {α : Type} {c : Prop} [Decidable c] {e : Err} {x : Option α} {a : α}

@[simp] theorem SigErr.failIf_ok {u : Unit} : SigErr.failIf c e = .ok u ↔ ¬ c := by
  unfold SigErr.failIf
  split
  · exact iff_of_false (fun h => by cases h) (fun h => h ‹c›)
  · exact iff_of_true rfl ‹¬ c›

@[simp] theorem SigErr.orFail_ok : SigErr.orFail x e = .ok a ↔ x = some a := by
  cases x <;> simp [SigErr.orFail]

@[simp] theorem SigErr.ofParser_ok {y : Asn α} : SigErr.ofParser y = .ok a ↔ y = .ok a := by
  cases y <;> simp [SigErr.ofParser, Except.mapError]

end Codes

/-! ### What a build parses it can verify -/

section Built

variable {B : X509Build} {der : Bytes} {c : X509Cert}

/-- A signature algorithm the parser knows has its hash in the build. -/
theorem X509Read.hash_built (R : X509Read B der c) :
    hashForSig B.build c.sigAlg = c.sigAlg.digest := by
  obtain ⟨-, -, -, hout⟩ := (asnGetHeader_ok (by decide)).1 R.outerAlg
  obtain ⟨-, -, -, hoid⟩ := (asnGetHeader_ok (by decide)).1 R.oid
  have hlookup := R.sigAlg
  unfold sigAlgFromOid at hlookup
  rcases oidLookup_ok (hoid.trans hout) hlookup with ⟨row, hrow, hhave, -, heq⟩ | ⟨heq, -⟩
  · rw [heq]
    simp only [List.mem_cons, List.not_mem_nil, or_false] at hrow
    rcases hrow with rfl | rfl | rfl | rfl | rfl | rfl
    · rfl
    · exact if_pos hhave
    · rfl
    · exact if_pos hhave
    · exact if_pos hhave
    · rfl
  · rw [heq]
    rfl

/-- A key the parser knows is one the build can import. -/
theorem parseAlgIdOids_built {idx algEnd : Nat} {k : X509Key} {curve : X509Curve}
    (hend : algEnd ≤ der.length) (h : parseAlgIdOids B der idx algEnd = (.ok (), k, curve)) :
    (k = .rsa → B.build.rsa = true) ∧ (k = .ed25519 → B.build.ed25519 = true) ∧
      (curve ≠ .none → curveId B.build curve = some curve) := by
  have hkey : ∀ {i len : Nat} {alg : X509Key}, i + len ≤ der.length →
      keyAlgFromOid B der i len = .ok alg →
        (alg = .rsa → B.build.rsa = true) ∧ (alg = .ed25519 → B.build.ed25519 = true) := by
    intro i len alg hin hlookup
    unfold keyAlgFromOid at hlookup
    rcases oidLookup_ok hin hlookup with ⟨row, hrow, hhave, -, heq⟩ | ⟨rfl, -⟩
    · simp only [List.mem_cons, List.not_mem_nil, or_false] at hrow
      rcases hrow with rfl | rfl | rfl
      · obtain rfl : alg = .ecdsa := heq
        exact ⟨fun h => absurd h (by decide), fun h => absurd h (by decide)⟩
      · obtain rfl : alg = .rsa := heq
        exact ⟨fun _ => hhave, fun h => absurd h (by decide)⟩
      · obtain rfl : alg = .ed25519 := heq
        exact ⟨fun h => absurd h (by decide), fun _ => hhave⟩
    · exact ⟨fun h => absurd h (by decide), fun h => absurd h (by decide)⟩
  have hcurve : ∀ {i len : Nat} {cv : X509Curve}, i + len ≤ der.length →
      curveFromOid B der i len = .ok cv → cv ≠ .none → curveId B.build cv = some cv := by
    intro i len cv hin hlookup hne
    unfold curveFromOid at hlookup
    rcases oidLookup_ok hin hlookup with ⟨row, hrow, hhave, -, rfl⟩ | ⟨rfl, -⟩
    · simp only [List.mem_cons, List.not_mem_nil, or_false] at hrow
      rcases hrow with rfl | rfl
      · rfl
      · exact if_pos hhave
    · exact absurd rfl hne
  have hread : ∀ {alg : X509Key} {i : Nat}, (asnGetHeader der asnObjectId idx algEnd >>= fun hdr =>
      keyAlgFromOid B der hdr.2 hdr.1 >>= fun keyAlg => pure (keyAlg, hdr.2 + hdr.1)) =
        Except.ok (alg, i) →
        (alg = .rsa → B.build.rsa = true) ∧ (alg = .ed25519 → B.build.ed25519 = true) := by
    intro alg i hoid
    obtain ⟨⟨oidLen, j⟩, hheader, hoid⟩ := except_bind_eq_ok.1 hoid
    obtain ⟨keyAlg, hlookup, hoid⟩ := except_bind_eq_ok.1 hoid
    cases hoid
    obtain ⟨-, -, -, hin⟩ := (asnGetHeader_ok (by decide)).1 hheader
    exact hkey (hin.trans hend) hlookup
  unfold parseAlgIdOids at h
  dsimp only at h
  split at h
  · cases h
  · rename_i i hoid
    split at h
    · cases h
    · rename_i cv j hparams
      obtain ⟨-, hrest⟩ := Prod.mk.inj h
      obtain ⟨rfl, rfl⟩ := Prod.mk.inj hrest
      obtain ⟨⟨oidLen, l⟩, hheader, hparams⟩ := except_bind_eq_ok.1 hparams
      obtain ⟨cv', hlookup, hparams⟩ := except_bind_eq_ok.1 hparams
      cases hparams
      obtain ⟨-, -, -, hin⟩ := (asnGetHeader_ok (by decide)).1 hheader
      exact ⟨fun h => absurd h (by decide), fun h => absurd h (by decide),
        hcurve (hin.trans hend) hlookup⟩
  · rename_i i hoid
    obtain ⟨-, hrest⟩ := Prod.mk.inj h
    obtain ⟨rfl, rfl⟩ := Prod.mk.inj hrest
    exact ⟨(hread hoid).1, (hread hoid).2, fun hne => absurd rfl hne⟩
  · rename_i i hoid
    obtain ⟨-, hrest⟩ := Prod.mk.inj h
    obtain ⟨rfl, rfl⟩ := Prod.mk.inj hrest
    exact ⟨(hread hoid).1, (hread hoid).2, fun hne => absurd rfl hne⟩
  · obtain ⟨-, hrest⟩ := Prod.mk.inj h
    obtain ⟨rfl, rfl⟩ := Prod.mk.inj hrest
    exact ⟨fun h => absurd h (by decide), fun h => absurd h (by decide), fun hne => absurd rfl hne⟩

theorem X509Read.key_built (R : X509Read B der c) :
    (c.keyAlg = .rsa → B.build.rsa = true) ∧ (c.keyAlg = .ed25519 → B.build.ed25519 = true) ∧
      (c.curve ≠ .none → curveId B.build c.curve = some c.curve) := by
  obtain ⟨-, -, -, hkey⟩ := (asnGetHeader_ok (by decide)).1 R.key
  obtain ⟨-, -, -, halg⟩ := (asnGetHeader_ok (by decide)).1 R.keyAlg
  exact parseAlgIdOids_built (halg.trans (hkey.trans R.tbs_le)) R.algOids

end Built

/-! ### The three checks -/

section Checks

variable {B : X509Build} {S : CertSigOps} {child issuer : X509Cert}

theorem digest_pos {alg : X509Sig}
    (h : alg.isRsa = true ∨ alg = .ecdsaSha256 ∨ alg = .ecdsaSha384) :
    alg.digest.size ≠ 0 := by
  rcases h with h | rfl | rfl
  · cases alg with
    | rsaSha256 => decide
    | rsaSha384 => decide
    | rsaSha512 => decide
    | _ => cases h
  · decide
  · decide

theorem verifyEcdsa_ok (hbuilt : hashForSig B.build child.sigAlg = child.sigAlg.digest)
    (hcurve : issuer.curve ≠ .none → curveId B.build issuer.curve = some issuer.curve)
    (halg : child.sigAlg = .ecdsaSha256 ∨ child.sigAlg = .ecdsaSha384) :
    verifyEcdsa B S child issuer = .ok () ↔ issuer.curve ≠ .none ∧ S.eccInit = true ∧ ∃ hash key,
      S.hash child.sigAlg.digest child.tbsBytes = some hash ∧
        S.eccImport issuer.curve issuer.keyBytes = some key ∧
          S.eccVerify key child.sigBytes hash = true := by
  have hsize := digest_pos (.inr halg)
  simp only [verifyEcdsa, hbuilt, except_bind_eq_ok, SigErr.failIf_ok, SigErr.orFail_ok,
    Bool.not_eq_false]
  constructor
  · rintro ⟨curve, hid, _, -, hash, hhash, _, hinit, key, himport, hverify⟩
    have hne : issuer.curve ≠ .none := by
      intro hnone
      rw [hnone] at hid
      cases hid
    obtain rfl : issuer.curve = curve := Option.some.inj ((hcurve hne).symm.trans hid)
    exact ⟨hne, hinit, hash, key, hhash, himport, hverify⟩
  · rintro ⟨hne, hinit, hash, key, hhash, himport, hverify⟩
    exact ⟨_, hcurve hne, (), hsize, hash, hhash, (), hinit, key, himport, hverify⟩

theorem memEq_whole {a b : Bytes} :
    ¬ (a.length ≠ b.length ∨ memEq a b b.length = false) ↔ a = b := by
  unfold memEq
  constructor
  · intro h
    obtain ⟨hlen, hsame⟩ := not_or.1 h
    have hlen := not_not.1 hlen
    rw [Bool.not_eq_false, beq_iff_eq, List.take_length, ← hlen, List.take_length] at hsame
    exact hsame
  · rintro rfl
    simp

/-- The numbers that are handed to the import. -/
theorem rsaRaw_bytes {der n e : Bytes} :
    (∃ ns es, x509RsaRawNE der = .ok (ns, es) ∧ ns.bytes der = n ∧ es.bytes der = e) ↔
      ∃ body, RsaForm der n e body ∧ IntUnsigned n ∧ IntUnsigned e ∧ body.length < 2 ^ 24 := by
  constructor
  · rintro ⟨ns, es, hraw, rfl, rfl⟩
    obtain ⟨n, e, hn, he, hshort, hder, -, -⟩ := x509RsaRawNE_ok.1 hraw
    obtain ⟨body, hform, -⟩ := x509RsaRawNE_slices hraw
    have hwhole := rsaForm_tlv hshort
    rw [← hder] at hwhole
    obtain ⟨rfl, rfl, rfl⟩ := hwhole.unique hform
    exact ⟨_, hform, hn, he, hshort⟩
  · rintro ⟨body, hform, hn, he, hshort⟩
    obtain ⟨ns, es, hraw⟩ := x509RsaRawNE_form.2 ⟨n, e, body, hform, hn, he, hshort⟩
    obtain ⟨body', hform', -⟩ := x509RsaRawNE_slices hraw
    obtain ⟨hnBytes, heBytes, -⟩ := hform'.unique hform
    exact ⟨ns, es, hraw, hnBytes, heBytes⟩

theorem verifyRsa_ok (hbuilt : hashForSig B.build child.sigAlg = child.sigAlg.digest)
    (halg : child.sigAlg.isRsa = true) :
    verifyRsa B S child issuer = .ok () ↔ S.rsaInit = true ∧ ∃ n e body hash key,
      RsaForm issuer.keyBytes n e body ∧ IntUnsigned n ∧ IntUnsigned e ∧ body.length < 2 ^ 24 ∧
        S.hash child.sigAlg.digest child.tbsBytes = some hash ∧ S.rsaImport n e = some key ∧
          S.rsaRecover key child.sigBytes 512 =
            some (S.encodeSignature child.sigAlg.digest hash) := by
  have hsize := digest_pos (.inl halg)
  simp only [verifyRsa, hbuilt, except_bind_eq_ok, SigErr.failIf_ok, SigErr.orFail_ok,
    SigErr.ofParser_ok, Bool.not_eq_false, memEq_whole, Prod.exists]
  constructor
  · rintro ⟨_, -, ns, es, hraw, hash, hhash, _, hinit, key, himport, block, hrecover, rfl⟩
    obtain ⟨body, hform, hn, he, hshort⟩ := rsaRaw_bytes.1 ⟨ns, es, hraw, rfl, rfl⟩
    exact ⟨hinit, _, _, body, hash, key, hform, hn, he, hshort, hhash, himport, hrecover⟩
  · rintro ⟨hinit, n, e, body, hash, key, hform, hn, he, hshort, hhash, himport, hrecover⟩
    obtain ⟨ns, es, hraw, rfl, rfl⟩ := rsaRaw_bytes.2 ⟨body, hform, hn, he, hshort⟩
    exact ⟨(), hsize, ns, es, hraw, hash, hhash, (), hinit, key, himport, _, hrecover, rfl⟩

theorem verifyEd25519_ok :
    verifyEd25519 S child issuer = .ok () ↔ S.edInit = true ∧ ∃ key,
      S.edImport issuer.keyBytes = some key ∧
        S.edVerify key child.sigBytes child.tbsBytes = true := by
  simp only [verifyEd25519, except_bind_eq_ok, SigErr.failIf_ok, SigErr.orFail_ok,
    Bool.not_eq_false]
  constructor
  · rintro ⟨_, hinit, key, himport, hverify⟩
    exact ⟨hinit, key, himport, hverify⟩
  · rintro ⟨hinit, key, himport, hverify⟩
    exact ⟨(), hinit, key, himport, hverify⟩

end Checks

section Signed

variable {B : X509Build} {S : CertSigOps} {child issuer : X509Cert}

/-- The dispatch: every key checks the algorithms of its own kind only. -/
theorem x509VerifySignedBy_ok {der der' : Bytes} (hchild : x509Parse B der = .ok child)
    (hissuer : x509Parse B der' = .ok issuer) :
    x509VerifySignedBy B S child issuer = .ok () ↔
      Verifies B S child.sigAlg child.tbsBytes child.sigBytes issuer := by
  obtain ⟨R⟩ := x509Parse_read hchild
  obtain ⟨R'⟩ := x509Parse_read hissuer
  have hbuilt := R.hash_built
  obtain ⟨hrsa, hed, hcurve⟩ := R'.key_built
  have hopen : x509VerifySignedBy B S child issuer = .ok () ↔
      sigAlgMatchesKey issuer.keyAlg child.sigAlg = true ∧
        ((issuer.keyAlg = .ecdsa ∧ B.build.ecc = true ∧ verifyEcdsa B S child issuer = .ok ()) ∨
          (issuer.keyAlg = .rsa ∧ verifyRsa B S child issuer = .ok ()) ∨
            (issuer.keyAlg = .ed25519 ∧ verifyEd25519 S child issuer = .ok ())) := by
    unfold x509VerifySignedBy
    cases hmatch : sigAlgMatchesKey issuer.keyAlg child.sigAlg with
    | false => simp
    | true =>
        rw [if_neg (by decide)]
        cases hkey : issuer.keyAlg with
        | unknown => simp
        | ecdsa => cases B.build.ecc <;> simp
        | rsa => simp [hrsa hkey]
        | ed25519 => simp [hed hkey]
  rw [hopen]
  constructor
  · rintro ⟨hmatch, ⟨hkey, hecc, hverify⟩ | ⟨hkey, hverify⟩ | ⟨hkey, hverify⟩⟩
    · rw [hkey] at hmatch
      have halg : child.sigAlg = .ecdsaSha256 ∨ child.sigAlg = .ecdsaSha384 :=
        of_decide_eq_true hmatch
      obtain ⟨hne, hinit, hash, key, hhash, himport, hsig⟩ :=
        (verifyEcdsa_ok hbuilt hcurve halg).1 hverify
      exact .ecdsa hecc hinit hkey halg hne hhash himport hsig
    · rw [hkey] at hmatch
      obtain ⟨hinit, n, e, body, hash, key, hform, hn, he, hshort, hhash, himport, hsig⟩ :=
        (verifyRsa_ok hbuilt hmatch).1 hverify
      exact .rsa hinit hkey hmatch hform hn he hshort hhash himport hsig
    · rw [hkey] at hmatch
      obtain ⟨hinit, key, himport, hsig⟩ := verifyEd25519_ok.1 hverify
      exact .ed25519 hinit hkey (of_decide_eq_true hmatch) himport hsig
  · intro h
    cases h with
    | ecdsa hecc hinit hkey halg hne hhash himport hsig =>
        refine ⟨?_, .inl ⟨hkey, hecc, (verifyEcdsa_ok hbuilt hcurve halg).2
          ⟨hne, hinit, _, _, hhash, himport, hsig⟩⟩⟩
        rw [hkey]
        exact decide_eq_true halg
    | rsa hinit hkey halg hform hn he hshort hhash himport hsig =>
        refine ⟨?_, .inr (.inl ⟨hkey, (verifyRsa_ok hbuilt halg).2
          ⟨hinit, _, _, _, _, _, hform, hn, he, hshort, hhash, himport, hsig⟩⟩)⟩
        rw [hkey]
        exact halg
    | ed25519 hinit hkey halg himport hsig =>
        refine ⟨?_, .inr (.inr ⟨hkey, verifyEd25519_ok.2 ⟨hinit, _, himport, hsig⟩⟩)⟩
        rw [hkey]
        exact decide_eq_true halg

theorem signedBy_ok : signedBy B S child issuer = true ↔
    x509VerifySignedBy B S child issuer = .ok () := by
  unfold signedBy
  cases x509VerifySignedBy B S child issuer with
  | ok u => exact iff_of_true rfl rfl
  | error e => exact iff_of_false Bool.false_ne_true (fun h => by cases h)

end Signed

/-- The certificate at an index of a chain is the encoding of its parts, its issuer's key
verifies its signature over the whole of the tbsCertificate, and all that is read of it lies
in there. -/
structure SignedLink (B : X509Build) (S : CertSigOps) (certs : List Bytes) (anchor : Bytes)
    (i : Nat) (p : CertParts) (child issuer : X509Cert) : Prop where
  sized : p.Sized
  encoded : certs.getD i [] = p.encode
  childParsed : x509Parse B p.encode = .ok child
  tbs : child.tbsBytes = p.tbs
  sig : child.sigBytes = p.sig
  inside : CertInside p.encode child
  issuerParsed : x509Parse B (certs.getD (i + 1) anchor) = .ok issuer
  verifies : Verifies B S child.sigAlg p.tbs p.sig issuer

/-- The signature check accepts exactly when a key of the kind the signature algorithm names
verifies the signature.  In an accepted chain every certificate before the one with the
anchor's key is signed so by the next one, or by the anchor, over exactly its tbsCertificate,
and nothing that was read of it lies outside. -/
theorem chain_signed (B : X509Build) (S : CertSigOps) :
    (∀ der der' child issuer, x509Parse B der = .ok child → x509Parse B der' = .ok issuer →
      (x509VerifySignedBy B S child issuer = .ok () ↔
        Verifies B S child.sigAlg child.tbsBytes child.sigBytes issuer)) ∧
    ∀ certs anchor serverName pinnedKey now spkiCap spki,
      verifyChain B (signedBy B S) certs anchor serverName pinnedKey now spkiCap = .ok spki →
        ∀ i < stopIndex B anchor certs, ∃ p child issuer,
        SignedLink B S certs anchor i p child issuer := by
  constructor
  · intro der der' child issuer hchild hissuer
    exact x509VerifySignedBy_ok hchild hissuer
  · intro certs anchor serverName pinnedKey now spkiCap spki h i hi
    obtain ⟨-, hloop, -⟩ := verifyChain_ok.1 h
    obtain ⟨child, issuer, hchild, hissuer, hsigned⟩ := (chainLoop_ok.1 hloop i hi).signed
    obtain ⟨R⟩ := x509Parse_read hchild
    obtain ⟨hsized, hencode, htbs, hsig⟩ := R.encode_eq
    have hinside := (agree_x509Parse B (certs.getD i [])).post child hchild
    have hverifies := (x509VerifySignedBy_ok hchild hissuer).1 (signedBy_ok.1 hsigned)
    have htbs' : child.tbsBytes = R.parts.tbs := by
      rw [← htbs, X509Cert.tbsBytes, R.der_eq]
    have hsig' : child.sigBytes = R.parts.sig := by
      rw [← hsig, X509Cert.sigBytes, R.der_eq]
    rw [htbs', hsig'] at hverifies
    refine ⟨R.parts, child, issuer, hsized, hencode.symm, ?_, htbs', hsig', ?_, hissuer, hverifies⟩
    · rw [hencode]
      exact hchild
    · rw [hencode]
      exact hinside

namespace Sample

/-- Signatures that only the key `[9]` makes, and only one of them. -/
def certSigOps : CertSigOps where
  EccKey := Bytes
  RsaKey := Bytes × Bytes
  EdKey := Bytes
  hash d b := some (b.take d.size)
  eccInit := true
  eccImport _ k := some k
  eccVerify _ _ _ := false
  rsaInit := true
  rsaImport n e := some (n, e)
  rsaRecover _ _ _ := none
  encodeSignature _ b := b
  edInit := true
  edImport k := some k
  edVerify k sig _ := k = [9] ∧ sig = [7]

end Sample

/-- A leaf that the anchor signed. -/
theorem chain_signed_sample : ∃ p child issuer,
    SignedLink Sample.x509Build Sample.certSigOps [Sample.cert 1 [8]] (Sample.cert 2 [9]) 0 p child
      issuer := by
  have haccepted : (verifyChain Sample.x509Build (signedBy Sample.x509Build Sample.certSigOps)
      [Sample.cert 1 [8]] (Sample.cert 2 [9]) none none 1590969600 100).isOk = true := by
    decide +kernel
  have hstop : 0 < stopIndex Sample.x509Build (Sample.cert 2 [9]) [Sample.cert 1 [8]] := by
    decide +kernel
  cases hverify : verifyChain Sample.x509Build (signedBy Sample.x509Build Sample.certSigOps)
      [Sample.cert 1 [8]] (Sample.cert 2 [9]) none none 1590969600 100 with
  | error e =>
      rw [hverify] at haccepted
      cases haccepted
  | ok spki =>
      exact (chain_signed Sample.x509Build Sample.certSigOps).2 _ _ none none 1590969600 100
        spki hverify 0 hstop

end WolfNano
