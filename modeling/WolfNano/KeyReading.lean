/-
The two readings of a public key: the parser's, inside a certificate, and the ones the
CertificateVerify path makes of the SubjectPublicKeyInfo alone.
-/
import WolfNano.CertWalk
import WolfNano.ChainRule

namespace WolfNano

open Duplex

/-- `wn_X509_SpkiRawKey`: the raw key as a slice of the SPKI. -/
def x509SpkiRawKey (spki : Bytes) : Asn Slice := do
  let (_, idx) ← asnGetHeader spki asnSeq 0 spki.length
  let (algLen, idx) ← asnGetHeader spki asnSeq idx spki.length
  -- skip the AlgorithmIdentifier
  let (key, _) ← asnGetBitString spki (idx + algLen) spki.length
  pure key

/-! ### A part of the buffer -/

section Part

variable {B : X509Build} {der : Bytes} {off n : Nat} (hin : off + n ≤ der.length)

include hin

/-- A header whose contents lie in a part is read in the part. -/
theorem asnGetHeader_part {tag a maxIdx len i : Nat} (maxIdx' : Nat) (htag : tag < 256)
    (ha : off ≤ a) (h : asnGetHeader der tag a maxIdx = .ok (len, i)) (hend : i + len ≤ off + n)
    (hmax : i + len ≤ off + maxIdx') :
    off ≤ i ∧ asnGetHeader (slice der off n) tag (a - off) maxIdx' = .ok (len, i - off) := by
  obtain ⟨hlen, hat, rfl, -⟩ := (asnGetHeader_ok htag).1 h
  refine ⟨by omega, (asnGetHeader_ok htag).2 ⟨hlen, (At.slice_iff hin).2 ⟨by omega, ?_⟩, by omega,
    by omega⟩⟩
  rw [Nat.add_sub_of_le ha]
  exact hat

theorem bytesAt_part {a len : Nat} (ha : off ≤ a) (hend : a + len ≤ off + n) :
    bytesAt (slice der off n) (a - off) len = bytesAt der a len := by
  have hpart : slice (slice der off n) (a - off) len = slice der a len := by
    simp only [slice, List.drop_take, List.drop_drop, List.take_take]
    rw [Nat.min_eq_left (by omega), Nat.add_sub_of_le ha]
  unfold bytesAt
  rw [slice_length hin, if_pos (by omega), if_pos (by omega), hpart]

theorem oidEq_part {a len : Nat} {want : Bytes} (ha : off ≤ a) (hend : a + len ≤ off + n) :
    oidEq (slice der off n) (a - off) len want = oidEq der a len want := by
  unfold oidEq
  rw [bytesAt_part hin ha hend]

theorem oidLookup_part {α : Type} {a len : Nat} {unknown : α} {table : List (Bool × Bytes × α)}
    (ha : off ≤ a) (hend : a + len ≤ off + n) :
    oidLookup (slice der off n) (a - off) len unknown table =
    oidLookup der a len unknown table := by
  induction table with
  | nil => rfl
  | cons row table ih =>
      obtain ⟨have_, oid, result⟩ := row
      simp only [oidLookup, oidEq_part hin ha hend, ih]

/-- An OID is read and looked up in the part as it is in the whole. -/
theorem oidRead_part {α : Type} {a algEnd j : Nat} {look : Bytes → Nat → Nat → Asn α} {x : α}
    (hlook : ∀ {i len}, off ≤ i → i + len ≤ off + n →
      look (slice der off n) (i - off) len = look der i len)
    (ha : off ≤ a) (hend : algEnd ≤ off + n)
    (h : (do
      let (oidLen, idx) ← asnGetHeader der asnObjectId a algEnd
      let x ← look der idx oidLen
      pure (x, idx + oidLen)) = Except.ok (x, j)) :
    off ≤ j ∧ j ≤ algEnd ∧ (do
      let (oidLen, idx) ← asnGetHeader (slice der off n) asnObjectId (a - off) (algEnd - off)
      let x ← look (slice der off n) idx oidLen
      pure (x, idx + oidLen)) = Except.ok (x, j - off) := by
  obtain ⟨⟨oidLen, i⟩, hheader, h⟩ := except_bind_eq_ok.1 h
  obtain ⟨x', hx, h⟩ := except_bind_eq_ok.1 h
  cases h
  have hin' := ((asnGetHeader_ok (by decide)).1 hheader).2.2.2
  obtain ⟨hi, hpart⟩ := asnGetHeader_part hin (algEnd - off) (by decide) ha hheader
    (by omega) (by omega)
  refine ⟨by omega, hin', ?_⟩
  rw [except_bind_eq_ok]
  refine ⟨_, hpart, except_bind_eq_ok.2 ⟨x, (hlook hi (by omega)).trans hx, ?_⟩⟩
  exact congrArg Except.ok (Prod.ext rfl (by dsimp only; omega))

/-- An AlgorithmIdentifier is classified in the part as it is in the whole. -/
theorem parseAlgIdOids_part {a algEnd : Nat} {keyAlg : X509Key} {curve : X509Curve} (ha : off ≤ a)
    (hend : algEnd ≤ off + n) (h : parseAlgIdOids B der a algEnd = (.ok (), keyAlg, curve)) :
    parseAlgIdOids B (slice der off n) (a - off) (algEnd - off) = (.ok (), keyAlg, curve) := by
  unfold parseAlgIdOids at h ⊢
  dsimp only at h ⊢
  have hkeys : ∀ {i len}, off ≤ i → i + len ≤ off + n →
      keyAlgFromOid B (slice der off n) (i - off) len = keyAlgFromOid B der i len :=
    fun hi hlen => oidLookup_part hin hi hlen
  have hcurves : ∀ {i len}, off ≤ i → i + len ≤ off + n →
      curveFromOid B (slice der off n) (i - off) len = curveFromOid B der i len :=
    fun hi hlen => oidLookup_part hin hi hlen
  split at h
  · cases h
  · rename_i j hoid
    obtain ⟨hj, -, hoid'⟩ := oidRead_part hin hkeys ha hend hoid
    rw [hoid']
    dsimp only
    split at h
    · cases h
    · rename_i cv k hcurve
      obtain ⟨hk, hkEnd, hcurve'⟩ := oidRead_part hin hcurves hj hend hcurve
      obtain ⟨hrc, rfl, rfl⟩ : decodeIf (k ≠ algEnd) = .ok () ∧ X509Key.ecdsa = keyAlg ∧
        cv = curve := by
        simpa using h
      rw [hcurve']
      have hfill := decodeIf_ok.1 hrc
      refine Prod.ext (decodeIf_ok.2 ?_) rfl
      omega
  · rename_i j hoid
    obtain ⟨hj, -, hoid'⟩ := oidRead_part hin hkeys ha hend hoid
    rw [hoid']
    dsimp only
    simp only [Prod.mk.injEq] at h
    obtain ⟨hrc, rfl, rfl⟩ := h
    obtain ⟨⟨len, i⟩, hnull, hrc⟩ := except_bind_eq_ok.1 hrc
    obtain ⟨hempty, hfill⟩ := not_or.1 (decodeIf_ok.1 hrc)
    have hiEnd := ((asnGetHeader_ok (by decide)).1 hnull).2.2.2
    obtain ⟨hi, hnull'⟩ := asnGetHeader_part hin (algEnd - off) (by decide) hj hnull
      (by omega) (by omega)
    refine Prod.ext (except_bind_eq_ok.2 ⟨_, hnull', decodeIf_ok.2 ?_⟩) rfl
    exact not_or.2 ⟨hempty, by omega⟩
  · rename_i j hoid
    obtain ⟨hj, -, hoid'⟩ := oidRead_part hin hkeys ha hend hoid
    rw [hoid']
    simp only [Prod.mk.injEq] at h
    obtain ⟨hrc, rfl, rfl⟩ := h
    have hfill := decodeIf_ok.1 hrc
    exact Prod.ext (decodeIf_ok.2 (by omega)) rfl
  · rename_i j hoid
    obtain ⟨hj, -, hoid'⟩ := oidRead_part hin hkeys ha hend hoid
    rw [hoid']
    exact h

theorem asnGetBitString_part {a maxIdx i : Nat} {s : Slice} (ha : off ≤ a) (hend : i ≤ off + n)
    (h : asnGetBitString der a maxIdx = .ok (s, i)) :
    asnGetBitString (slice der off n) (a - off) n = .ok (⟨s.off - off, s.len⟩, i - off) ∧
      off ≤ s.off ∧ s.off + s.len = i := by
  unfold asnGetBitString at h ⊢
  obtain ⟨⟨len, j⟩, hheader, h⟩ := except_bind_eq_ok.1 h
  obtain ⟨_, hlen, h⟩ := except_bind_eq_ok.1 h
  obtain ⟨unused, hbyte, h⟩ := except_bind_eq_ok.1 h
  obtain ⟨_, hzero, h⟩ := except_bind_eq_ok.1 h
  have hzero := decodeIf_ok.1 hzero
  have hlen := decodeIf_ok.1 hlen
  cases h
  obtain ⟨hj, hheader'⟩ := asnGetHeader_part hin n (by decide) ha hheader
    (by omega) (by omega)
  obtain ⟨hlt, hat⟩ := byteAt_at.1 hbyte
  have hbyte' : byteAt (slice der off n) (j - off) = .ok unused := by
    refine byteAt_at.2 ⟨hlt, (At.slice_iff hin).2 ⟨?_, ?_⟩⟩
    · rw [List.length_singleton]
      omega
    · rw [Nat.add_sub_of_le hj]
      exact hat
  refine ⟨?_, by dsimp only; omega, by dsimp only; omega⟩
  refine except_bind_eq_ok.2 ⟨_, hheader', except_bind_eq_ok.2 ⟨(), decodeIf_ok.2 hlen,
    except_bind_eq_ok.2 ⟨_, hbyte', except_bind_eq_ok.2 ⟨(), decodeIf_ok.2 hzero, ?_⟩⟩⟩⟩
  refine congrArg Except.ok (Prod.ext ?_ (by dsimp only; omega))
  rw [Slice.mk.injEq]
  exact ⟨by dsimp only; omega, rfl⟩

end Part

/-! ### The SubjectPublicKeyInfo of a certificate -/

namespace X509Read

variable {B : X509Build} {der : Bytes} {c : X509Cert} (R : X509Read B der c)

/-- The tbsCertificate lies in the certificate. -/
theorem tbs_le : R.certBegin + c.tbs.len ≤ der.length := by
  obtain ⟨-, -, hbody, hend⟩ := (asnGetHeader_ok (by decide)).1 R.tbsHeader
  have hlen : c.tbs.len = R.certLen + (R.tbsBody - R.certBegin) := by rw [R.tbs]
  omega

theorem spkiBytes_eq : c.spkiBytes = slice der (R.subjectBody + R.subjectLen) c.spki.len := by
  rw [X509Cert.spkiBytes, Slice.bytes, R.der_eq]
  congr 1
  rw [R.spki]

theorem spki_end : R.subjectBody + R.subjectLen + c.spki.len = R.keyBody + R.keyLen ∧
    R.keyBody + R.keyLen ≤ der.length ∧ R.subjectBody + R.subjectLen ≤ R.keyBody := by
  obtain ⟨-, -, hbody, hend⟩ := (asnGetHeader_ok (by decide)).1 R.key
  have hlen : c.spki.len = R.keyLen + (R.keyBody - (R.subjectBody + R.subjectLen)) := by rw [R.spki]
  have htbs := R.tbs_le
  omega

/-- The two headers of the SPKI, read in the SPKI alone. -/
theorem spki_headers :
    asnGetHeader c.spkiBytes asnSeq 0 c.spkiBytes.length =
        .ok (R.keyLen, R.keyBody - (R.subjectBody + R.subjectLen)) ∧
      asnGetHeader c.spkiBytes asnSeq (R.keyBody - (R.subjectBody + R.subjectLen))
          c.spkiBytes.length =
        .ok (R.keyAlgLen, R.keyAlgBody - (R.subjectBody + R.subjectLen)) ∧
      R.subjectBody + R.subjectLen ≤ R.keyAlgBody ∧
      R.keyAlgBody + R.keyAlgLen ≤ R.keyBody + R.keyLen := by
  obtain ⟨hend, hle, hbody⟩ := R.spki_end
  have hin : R.subjectBody + R.subjectLen + c.spki.len ≤ der.length := by omega
  have hlen : c.spkiBytes.length = c.spki.len := by
    rw [R.spkiBytes_eq]
    exact slice_length hin
  have halgEnd := ((asnGetHeader_ok (by decide)).1 R.keyAlg).2.2.2
  rw [hlen, R.spkiBytes_eq]
  obtain ⟨-, hfirst⟩ := asnGetHeader_part hin c.spki.len (by decide)
    (Nat.le_refl _) R.key (by omega) (by omega)
  obtain ⟨halg, hsecond⟩ := asnGetHeader_part hin c.spki.len (by decide) hbody
    R.keyAlg (by omega) (by omega)
  rw [Nat.sub_self] at hfirst
  exact ⟨hfirst, hsecond, halg, halgEnd⟩

include R in
theorem spkiRawKey : ∃ key, x509SpkiRawKey c.spkiBytes = .ok key ∧
    key.bytes c.spkiBytes = c.pubKey.bytes der := by
  obtain ⟨hfirst, hsecond, halg, halgEnd⟩ := R.spki_headers
  obtain ⟨hend, hle, hbody⟩ := R.spki_end
  have hin : R.subjectBody + R.subjectLen + c.spki.len ≤ der.length := by omega
  obtain ⟨hbits, hoff, hkeyEnd⟩ := asnGetBitString_part hin (by omega) (by omega) R.pubKey
  have hlen : c.spkiBytes.length = c.spki.len := by
    rw [R.spkiBytes_eq]
    exact slice_length hin
  have hkey : asnGetBitString c.spkiBytes
      (R.keyAlgBody - (R.subjectBody + R.subjectLen) + R.keyAlgLen) c.spkiBytes.length =
      .ok (⟨c.pubKey.off - (R.subjectBody + R.subjectLen), c.pubKey.len⟩,
        R.keyBody + R.keyLen - (R.subjectBody + R.subjectLen)) := by
    rw [hlen, R.spkiBytes_eq, ← Nat.sub_add_comm halg]
    exact hbits
  refine ⟨_, except_bind_eq_ok.2 ⟨_, hfirst, except_bind_eq_ok.2 ⟨_, hsecond,
    except_bind_eq_ok.2 ⟨_, hkey, rfl⟩⟩⟩, ?_⟩
  rw [R.spkiBytes_eq]
  simp only [Slice.bytes, slice, List.drop_take, List.drop_drop, List.take_take]
  rw [Nat.min_eq_left (by omega), Nat.add_sub_of_le hoff]

include R in
theorem spkiKeyInfo : x509SpkiKeyInfo B c.spkiBytes = (.ok (), c.keyAlg, c.curve) := by
  obtain ⟨hfirst, hsecond, halg, halgEnd⟩ := R.spki_headers
  obtain ⟨hend, hle, hbody⟩ := R.spki_end
  have hin : R.subjectBody + R.subjectLen + c.spki.len ≤ der.length := by omega
  have hoids := parseAlgIdOids_part hin halg (by omega) R.algOids
  rw [← R.spkiBytes_eq, Nat.sub_add_comm halg] at hoids
  unfold x509SpkiKeyInfo
  have halgRead : (do
      let (_, idx) ← asnGetHeader c.spkiBytes asnSeq 0 c.spkiBytes.length
      asnGetHeader c.spkiBytes asnSeq idx c.spkiBytes.length) = Except.ok _ :=
    except_bind_eq_ok.2 ⟨_, hfirst, hsecond⟩
  dsimp only at halgRead ⊢
  rw [halgRead]
  exact hoids

end X509Read

/-! ### CertificateVerify -/

/-- The verification key of the native build: the raw key of the SPKI, imported; ML-DSA decodes
the SPKI itself. -/
def nativeVerifyKey {K : Type} (importRaw decodeSpki : SigAlg → Bytes → Option K) (alg : SigAlg)
    (spki : Bytes) : Option K :=
  match alg with
  | .mldsa _ => decodeSpki alg spki
  | _ =>
      match x509SpkiRawKey spki with
      | .ok key => importRaw alg (key.bytes spki)
      | .error _ => none

/-- `P` with the key import of the native build. -/
def Platform.native (P : Platform) (importRaw : SigAlg → Bytes → Option P.VerifyKey) : Platform :=
  { P with verifyKey := nativeVerifyKey importRaw P.verifyKey }

/-- `P` with one key for each algorithm, whatever the SPKI. -/
def Platform.keyed (P : Platform) (key : SigAlg → Option P.VerifyKey) : Platform :=
  { P with verifyKey := fun alg _ => key alg }

/-- The certificate declares the key that `scheme` is for. -/
def X509Cert.Declares (c : X509Cert) (scheme : Nat) : Prop :=
  (scheme = 0x0403 → c.keyAlg = .ecdsa ∧ c.curve = .p256) ∧
  (scheme = 0x0503 → c.keyAlg = .ecdsa ∧ c.curve = .p384) ∧
  (scheme = 0x0807 → c.keyAlg = .ed25519) ∧
  (scheme = 0x0804 ∨ scheme = 0x0805 ∨ scheme = 0x0806 → c.keyAlg = .rsa)

theorem schemeKeyOk_iff {B : X509Build} {c : X509Cert} {scheme : Nat}
    (h : x509SpkiKeyInfo B c.spkiBytes = (.ok (), c.keyAlg, c.curve)) :
    schemeKeyOk B scheme c.spkiBytes = true ↔ c.Declares scheme := by
  unfold schemeKeyOk X509Cert.Declares
  rw [h]
  dsimp only
  by_cases h₁ : scheme = 0x0403
  · subst h₁
    simp
  by_cases h₂ : scheme = 0x0503
  · subst h₂
    simp
  by_cases h₃ : scheme = 0x0807
  · subst h₃
    simp
  by_cases h₄ : scheme = 0x0804 ∨ scheme = 0x0805 ∨ scheme = 0x0806
  · simp [h₁, h₂, h₃, h₄]
  · simp [h₁, h₂, h₃, h₄]

/-- A raw key is verified with when the scheme is one of theirs. -/
def SigAlg.raw : SigAlg → Bool
  | .mldsa _ => false
  | _ => true

/-- The SPKI of an accepted certificate gives the key and the algorithm the parser found, so a
CertificateVerify is checked under that key and for what the certificate declares. -/
theorem spki_readings_agree {B : X509Build} {der : Bytes} {c : X509Cert}
    (h : x509Parse B der = .ok c) :
    (∃ key, x509SpkiRawKey c.spkiBytes = .ok key ∧ key.bytes c.spkiBytes = c.pubKey.bytes der) ∧
    x509SpkiKeyInfo B c.spkiBytes = (.ok (), c.keyAlg, c.curve) ∧
    (∀ (signedBy : SignedBy) (rest : List Bytes) (anchor spki : Bytes) (name : Option CStr)
      (pin : Option Bytes) (now : Int) (cap : Nat),
      verifyChain B signedBy (der :: rest) anchor name pin now cap = .ok spki →
      spki = c.spkiBytes) ∧
    ∀ (P : Platform) (importRaw : SigAlg → Bytes → Option P.VerifyKey) (signedBy : SignedBy)
      (scheme : Nat) (alg : SigAlg) (th sig : Bytes),
      verifyAlg P.build scheme = some alg → alg.raw = true →
      (¬ c.Declares scheme → certVerify (P.native importRaw) (nativeBackend B signedBy) scheme
        c.spkiBytes th sig = .error .badCert) ∧
      (c.Declares scheme → certVerify (P.native importRaw) (nativeBackend B signedBy) scheme
        c.spkiBytes th sig =
          cvVerify (P.keyed fun alg => importRaw alg (c.pubKey.bytes der)) alg c.spkiBytes
            (buildCvTbs th) sig) := by
  obtain ⟨R⟩ := x509Parse_read h
  refine ⟨R.spkiRawKey, R.spkiKeyInfo, ?_, ?_⟩
  · intro signedBy rest anchor spki name pin now cap hchain
    obtain ⟨-, -, leaf, hleaf, hcheck⟩ := verifyChain_ok.1 hchain
    cases h.symm.trans hleaf
    obtain ⟨-, -, -, hspki⟩ := checkLeaf_ok.1 hcheck
    exact hspki
  · intro P importRaw signedBy scheme alg th sig halg hraw
    have hscheme : schemeKeyOk B scheme _ = true ↔ _ := schemeKeyOk_iff R.spkiKeyInfo
    have hback : (nativeBackend B signedBy).schemeKeyOk = schemeKeyOk B := rfl
    unfold certVerify
    rw [hback]
    constructor
    · intro hnot
      rw [if_pos (Bool.eq_false_iff.2 fun hok => hnot (hscheme.1 hok))]
    · intro hdeclares
      rw [if_neg (by rw [hscheme.2 hdeclares]; exact Bool.noConfusion)]
      have halg' : verifyAlg (P.native importRaw).build scheme = some alg := halg
      rw [halg']
      obtain ⟨key, hkey, hbytes⟩ := R.spkiRawKey
      have himport : (P.native importRaw).verifyKey alg c.spkiBytes =
          importRaw alg (c.pubKey.bytes der) := by
        show nativeVerifyKey importRaw P.verifyKey alg c.spkiBytes = _
        cases alg with
        | mldsa level => cases hraw
        | _ =>
            simp only [nativeVerifyKey, hkey, hbytes]
      show cvVerify (P.native importRaw) alg c.spkiBytes (buildCvTbs th) sig = _
      unfold cvVerify
      rw [himport]
      rfl

theorem Sample.cert_parses : ∃ c, x509Parse Sample.x509Build (Sample.cert 1 [9]) = .ok c := by
  have hsome : (Sample.parsed (Sample.cert 1 [9])).isSome = true := by
    decide +kernel
  obtain ⟨c, hc⟩ := Option.isSome_iff_exists.1 hsome
  exact ⟨c, Sample.parsed_eq hc⟩

theorem spki_readings_agree_sample : ∃ c,
    x509Parse Sample.x509Build (Sample.cert 1 [9]) = .ok c ∧
      (∃ key, x509SpkiRawKey c.spkiBytes = .ok key ∧
        key.bytes c.spkiBytes = c.pubKey.bytes (Sample.cert 1 [9])) ∧
      x509SpkiKeyInfo Sample.x509Build c.spkiBytes = (.ok (), c.keyAlg, c.curve) := by
  obtain ⟨c, hc⟩ := Sample.cert_parses
  have hagree := spki_readings_agree hc
  exact ⟨c, hc, hagree.1, hagree.2.1⟩

end WolfNano
