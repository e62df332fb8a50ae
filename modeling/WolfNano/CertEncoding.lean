/-
The encoding of an accepted certificate: what is not signed and is not the signature is
determined by what is.
-/
import WolfNano.KeyReading

namespace WolfNano

open Duplex

/-! ### One reading of a header -/

/-- Two headers with one tag at a place announce one length. -/
theorem header_unique {der : Bytes} {p tag m n : Nat} (htag : tag < 256) (hm : m < 2 ^ 24)
    (hn : n < 2 ^ 24) (h : At der p (derHeader tag m)) (h' : At der p (derHeader tag n)) :
    m = n := by
  have hread : ∀ k, k < 2 ^ 24 → At der p (derHeader tag k) →
      asnGetHeader der tag p (p + 8 + 2 ^ 24) = .ok (k, p + (derHeader tag k).length) := by
    intro k hk hat
    have hle := derLen_length_le k
    refine (asnGetHeader_ok htag).2 ⟨hk, hat, rfl, ?_⟩
    rw [derHeader_length]
    omega
  have heq := (hread m hm h).symm.trans (hread n hn h')
  rw [Except.ok.injEq, Prod.mk.injEq] at heq
  exact heq.1

theorem tlv_append_inj {tag tag' : Nat} {a b r s : Bytes} (htag : tag < 256) (htag' : tag' < 256)
    (ha : a.length < 2 ^ 24) (hb : b.length < 2 ^ 24) (h : tlv tag a ++ r = tlv tag' b ++ s) :
    tag = tag' ∧ a = b ∧ r = s := by
  have hfirst : UInt8.ofNat tag = UInt8.ofNat tag' := (List.cons.inj h).1
  have htags : tag = tag' := by
    have hvalue := congrArg UInt8.toNat hfirst
    rwa [UInt8.toNat_ofNat', UInt8.toNat_ofNat', Nat.mod_eq_of_lt htag, Nat.mod_eq_of_lt htag']
      at hvalue
  subst htags
  have hstart : ∀ (k : Nat) (rest : Bytes), At (derHeader tag k ++ rest) 0 (derHeader tag k) := by
    intro k rest
    refine ⟨?_, ?_⟩
    · rw [List.length_append]
      omega
    · exact List.take_left
  have hlen : a.length = b.length := by
    refine @header_unique (tlv tag a ++ r) 0 _ _ _ htag ha hb ?_ ?_
    · rw [tlv, List.append_assoc]
      exact hstart _ _
    · rw [h, tlv, List.append_assoc]
      exact hstart _ _
  rw [tlv, tlv, hlen, List.append_assoc, List.append_assoc] at h
  obtain ⟨hab, hrs⟩ := List.append_inj (List.append_cancel_left h) hlen
  exact ⟨rfl, hab, hrs⟩

/-! ### The parts of a certificate -/

/-- The parts of a certificate around its signature algorithm. -/
structure CertParts where
  version : Bytes
  serial : Bytes
  alg : Bytes
  rest : Bytes
  sig : Bytes

namespace CertParts

/-- The AlgorithmIdentifier of the signature. -/
def algId (p : CertParts) : Bytes := tlv asnSeq p.alg

def tbs (p : CertParts) : Bytes :=
  tlv asnSeq (p.version ++ tlv asnInteger p.serial ++ p.algId ++ p.rest)

/-- What the outer SEQUENCE holds. -/
def body (p : CertParts) : Bytes := p.tbs ++ p.algId ++ tlv asnBitString (0 :: p.sig)

def encode (p : CertParts) : Bytes := tlv asnSeq p.body

/-- The lengths fit their fields, and the version is left out or one element. -/
structure Sized (p : CertParts) : Prop where
  version : p.version = [] ∨ ∃ v, v.length < 2 ^ 24 ∧ p.version = tlv asnCtx0 v
  body : p.body.length < 2 ^ 24

end CertParts

/-- An element is where its header was read. -/
theorem asnGetHeader_tlv {der : Bytes} {tag idx maxIdx len i : Nat} (htag : tag < 256)
    (hmax : maxIdx ≤ der.length) (h : asnGetHeader der tag idx maxIdx = .ok (len, i)) :
    (slice der i len).length = len ∧ len < 2 ^ 24 ∧ At der idx (tlv tag (slice der i len)) ∧
      idx + (tlv tag (slice der i len)).length = i + len ∧ idx < i := by
  obtain ⟨hlen, hat, rfl, hend⟩ := (asnGetHeader_ok htag).1 h
  have hslice : (slice der (idx + (derHeader tag len).length) len).length = len :=
    slice_length (by omega)
  have hpos := derHeader_length tag len
  refine ⟨hslice, hlen, ?_, ?_, by omega⟩
  · rw [tlv, hslice]
    exact hat.append (At.of_slice (by omega))
  · rw [tlv, hslice, List.length_append, hslice, Nat.add_assoc]

theorem parseVersion_ok {der : Bytes} {idx tbsEnd version i : Nat}
    (h : parseVersion der idx tbsEnd = .ok (version, i)) :
    (version = 0 ∧ i = idx ∧ (idx < tbsEnd → byteAt der idx ≠ .ok asnCtx0)) ∨
      ∃ len j, asnGetHeader der asnCtx0 idx tbsEnd = .ok (len, j) ∧ i = j + len ∧
        1 ≤ version ∧ version ≤ 2 := by
  unfold parseVersion at h
  obtain ⟨explicit, hexplicit, h⟩ := ite_bind_eq_ok.1 h
  cases explicit with
  | false =>
      cases h
      refine .inl ⟨rfl, rfl, fun hlt htag => ?_⟩
      rw [if_pos hlt, htag] at hexplicit
      cases hexplicit
  | true =>
      obtain ⟨⟨len, j⟩, hheader, h⟩ := except_bind_eq_ok.1 h
      obtain ⟨⟨len', k⟩, hinteger, h⟩ := except_bind_eq_ok.1 h
      obtain ⟨_, hone, h⟩ := except_bind_eq_ok.1 h
      obtain ⟨v, hv, h⟩ := except_bind_eq_ok.1 h
      obtain ⟨_, hbounds, h⟩ := except_bind_eq_ok.1 h
      cases h
      have hbounds := decodeIf_ok.1 hbounds
      exact .inr ⟨len, j, hheader, rfl, by omega, by omega⟩

namespace X509Read

variable {B : X509Build} {der : Bytes} {c : X509Cert} (R : X509Read B der c)

def parts : CertParts where
  version := slice der R.tbsBody (R.serialAt - R.tbsBody)
  serial := slice der R.serialBody R.serialLen
  alg := slice der R.innerBody R.innerLen
  rest := slice der (R.innerBody + R.innerLen)
    (R.certBegin + c.tbs.len - (R.innerBody + R.innerLen))
  sig := c.sig.bytes der

theorem version_at : R.tbsBody ≤ R.serialAt ∧ At der R.tbsBody R.parts.version ∧
    R.parts.version.length = R.serialAt - R.tbsBody ∧
    (R.parts.version = [] ∨ ∃ v, v.length < 2 ^ 24 ∧ R.parts.version = tlv asnCtx0 v) := by
  have htbs := R.tbs_le
  have htbsBody := (asnGetHeader_ok (by decide)).1 R.tbsHeader
  rcases parseVersion_ok R.versionRead with ⟨-, hat, -⟩ | ⟨len, j, hheader, hat, -, -⟩
  · have hnil : R.parts.version = [] := by
      show slice der R.tbsBody (R.serialAt - R.tbsBody) = []
      rw [hat, Nat.sub_self, slice_zero]
    rw [hnil, hat]
    exact ⟨Nat.le_refl _, At.nil (by omega), (Nat.sub_self _).symm, .inl rfl⟩
  · obtain ⟨hlen, hlt, htlv, hend, hpos⟩ := asnGetHeader_tlv (by decide) htbs hheader
    have hversion : R.parts.version = tlv asnCtx0 (slice der j len) := by
      show slice der R.tbsBody (R.serialAt - R.tbsBody) = _
      rw [hat, show j + len - R.tbsBody = (tlv asnCtx0 (slice der j len)).length by omega]
      exact htlv.2
    rw [hversion]
    exact ⟨by omega, htlv, by omega, .inr ⟨_, by omega, rfl⟩⟩

/-- The inner and the outer AlgorithmIdentifier are the same bytes. -/
theorem alg_at : At der (R.serialBody + R.serialLen) R.parts.algId ∧
    R.serialBody + R.serialLen + R.parts.algId.length = R.innerBody + R.innerLen ∧
    At der (R.certBegin + c.tbs.len) R.parts.algId ∧
    R.certBegin + c.tbs.len + R.parts.algId.length = R.outerBody + R.outerLen := by
  have htbs := R.tbs_le
  obtain ⟨hlen, hlt, htlv, hend, hpos⟩ := asnGetHeader_tlv (by decide) htbs R.inner
  obtain ⟨hlenO, hltO, htlvO, hendO, hposO⟩ :=
    asnGetHeader_tlv (by decide) (Nat.le_refl _) R.outerAlg
  have hsame := R.alg_eq
  have halgLen := R.algLen_eq
  have hinnerEnd := ((asnGetHeader_ok (by decide)).1 R.inner).2.2.2
  have houterEnd := ((asnGetHeader_ok (by decide)).1 R.outerAlg).2.2.2
  unfold bytesAt at hsame
  rw [if_pos (by omega), if_pos (by omega), Except.ok.injEq] at hsame
  have halg : R.parts.algId = tlv asnSeq (slice der R.innerBody R.innerLen) := rfl
  have hcopy : At der (R.certBegin + c.tbs.len) R.parts.algId := by
    refine ⟨by rw [halg]; omega, ?_⟩
    rw [halg, show (tlv asnSeq (slice der R.innerBody R.innerLen)).length =
      R.innerLen + (R.innerBody - (R.serialBody + R.serialLen)) by omega, ← hsame]
    rw [show R.innerLen + (R.innerBody - (R.serialBody + R.serialLen)) =
      (tlv asnSeq (slice der R.innerBody R.innerLen)).length by omega]
    exact htlv.2
  exact ⟨htlv, hend, hcopy, by rw [halg]; omega⟩

theorem tbs_at : At der R.certBegin R.parts.tbs ∧ R.parts.tbs.length = c.tbs.len := by
  have htbs := R.tbs_le
  obtain ⟨hversionLe, hversion, hversionLen, -⟩ := R.version_at
  obtain ⟨halg, halgEnd, -⟩ := R.alg_at
  obtain ⟨hlenS, -, hserial, hendS, -⟩ := asnGetHeader_tlv (by decide) htbs R.serial
  obtain ⟨hlen, hlt, htlv, hend, hpos⟩ := asnGetHeader_tlv (by decide) (Nat.le_refl _) R.tbsHeader
  have hlenEq : c.tbs.len = R.certLen + (R.tbsBody - R.certBegin) := by rw [R.tbs]
  have hinnerEnd := ((asnGetHeader_ok (by decide)).1 R.inner).2.2.2
  have hrestLen : R.parts.rest.length = R.certBegin + c.tbs.len - (R.innerBody + R.innerLen) :=
    slice_length (by omega)
  have hrest : At der (R.innerBody + R.innerLen) R.parts.rest := At.of_slice (by omega)
  have hserialEq : R.parts.serial = slice der R.serialBody R.serialLen := rfl
  have hcontents : At der R.tbsBody (R.parts.version ++ tlv asnInteger R.parts.serial ++
      R.parts.algId ++ R.parts.rest) := by
    refine ((hversion.append_at hserial (by omega)).append_at halg ?_).append_at hrest ?_
    · rw [List.length_append]
      omega
    · simp only [List.length_append]
      omega
  have hcontentsLen : (R.parts.version ++ tlv asnInteger R.parts.serial ++ R.parts.algId ++
      R.parts.rest).length = R.certLen := by
    simp only [List.length_append, hserialEq]
    omega
  have hsame : R.parts.version ++ tlv asnInteger R.parts.serial ++ R.parts.algId ++
      R.parts.rest = slice der R.tbsBody R.certLen := by
    rw [← hcontentsLen]
    exact hcontents.2.symm
  have htbsEq : R.parts.tbs = tlv asnSeq (slice der R.tbsBody R.certLen) := by
    rw [CertParts.tbs, hsame]
  rw [htbsEq]
  exact ⟨htlv, by omega⟩

theorem sig_at : At der (R.outerBody + R.outerLen) (tlv asnBitString (0 :: R.parts.sig)) ∧
    R.outerBody + R.outerLen + (tlv asnBitString (0 :: R.parts.sig)).length = der.length := by
  have hsig := R.sig
  unfold asnGetBitString at hsig
  obtain ⟨⟨len, j⟩, hheader, hsig⟩ := except_bind_eq_ok.1 hsig
  obtain ⟨_, hlen, hsig⟩ := except_bind_eq_ok.1 hsig
  obtain ⟨unused, hbyte, hsig⟩ := except_bind_eq_ok.1 hsig
  obtain ⟨_, hzero, hdone⟩ := except_bind_eq_ok.1 hsig
  have hlen := decodeIf_ok.1 hlen
  obtain rfl := not_not.1 (decodeIf_ok.1 hzero)
  rw [except_pure_eq_ok, Prod.mk.injEq] at hdone
  obtain ⟨hslice, hend⟩ := hdone
  obtain ⟨hcontents, -, htlv, htlvEnd, -⟩ :=
    asnGetHeader_tlv (by decide) (Nat.le_refl _) hheader
  have hfills := R.fills
  have hbits : slice der j len = 0 :: R.parts.sig := by
    obtain ⟨k, rfl⟩ : ∃ k, len = 1 + k := ⟨len - 1, by omega⟩
    rw [slice_add, ← List.singleton_append]
    refine congrArg₂ (· ++ ·) (byteAt_at.1 hbyte).2.2 ?_
    show _ = c.sig.bytes der
    rw [← hslice, Slice.bytes, Nat.add_sub_cancel_left]
  rw [hbits] at htlv htlvEnd
  exact ⟨htlv, by omega⟩

include R in
/-- The signature ends with the certificate. -/
theorem sig_end : c.sig.off + c.sig.len = der.length := by
  have hsig := R.sig
  unfold asnGetBitString at hsig
  obtain ⟨⟨len, j⟩, hheader, hsig⟩ := except_bind_eq_ok.1 hsig
  obtain ⟨_, hlen, hsig⟩ := except_bind_eq_ok.1 hsig
  obtain ⟨unused, hbyte, hsig⟩ := except_bind_eq_ok.1 hsig
  obtain ⟨_, hzero, hdone⟩ := except_bind_eq_ok.1 hsig
  have hlen := decodeIf_ok.1 hlen
  rw [except_pure_eq_ok, Prod.mk.injEq] at hdone
  obtain ⟨hslice, hend⟩ := hdone
  have hfills := R.fills
  rw [← hslice]
  dsimp only
  omega

/-- The certificate is the encoding of its parts. -/
theorem encode_eq : R.parts.Sized ∧ R.parts.encode = der ∧ c.tbs.bytes der = R.parts.tbs ∧
    c.sig.bytes der = R.parts.sig := by
  obtain ⟨htbsAt, htbsLen⟩ := R.tbs_at
  obtain ⟨-, -, halgAt, halgEnd⟩ := R.alg_at
  obtain ⟨hsigAt, hsigEnd⟩ := R.sig_at
  obtain ⟨hlen, hlt, htlv, hend, hpos⟩ := asnGetHeader_tlv (by decide) (Nat.le_refl _) R.outer
  have hfills := R.fills
  have hbody : At der R.certBegin R.parts.body := by
    refine (htbsAt.append_at halgAt (by omega)).append_at hsigAt ?_
    rw [List.length_append]
    omega
  have hbodyLen : R.parts.body.length = R.totLen := by
    simp only [CertParts.body, List.length_append]
    omega
  have hsame : R.parts.body = slice der R.certBegin R.totLen := by
    rw [← hbodyLen]
    exact hbody.2.symm
  refine ⟨⟨R.version_at.2.2.2, by omega⟩, ?_, ?_, rfl⟩
  · rw [CertParts.encode, hsame]
    exact htlv.eq_self (by omega)
  · rw [Slice.bytes, show c.tbs.off = R.certBegin by rw [R.tbs], ← htbsLen]
    exact htbsAt.2

end X509Read

/-! ### Nothing else is in it -/

/-- The signed bytes determine the signature algorithm. -/
theorem CertParts.algId_eq {p p' : CertParts} (hp : p.Sized) (hp' : p'.Sized)
    (h : p.tbs = p'.tbs) : p.algId = p'.algId := by
  have hroom := hp.body
  have hroom' := hp'.body
  simp only [body, tbs, algId, List.length_append, tlv_length] at hroom hroom'
  rw [tbs, tbs, ← List.append_nil (tlv asnSeq _),
    ← List.append_nil (tlv asnSeq (p'.version ++ _ ++ _ ++ _))] at h
  obtain ⟨-, hcontents, -⟩ := tlv_append_inj (by decide) (by decide)
    (by simp only [algId, List.length_append, tlv_length]; omega)
    (by simp only [algId, List.length_append, tlv_length]; omega) h
  -- the version is left out of both or of neither
  have hserial : tlv asnInteger p.serial ++ (p.algId ++ p.rest) =
      tlv asnInteger p'.serial ++ (p'.algId ++ p'.rest) := by
    simp only [List.append_assoc] at hcontents
    rcases hp.version with hnone | ⟨v, hv, hsome⟩
    · rcases hp'.version with hnone' | ⟨v', hv', hsome'⟩
      · rw [hnone, hnone'] at hcontents
        exact hcontents
      · rw [hnone, hsome', List.nil_append] at hcontents
        have htags := (tlv_append_inj (by decide) (by decide) (by omega) hv' hcontents).1
        exact absurd htags (by decide)
    · rcases hp'.version with hnone' | ⟨v', hv', hsome'⟩
      · rw [hsome, hnone', List.nil_append] at hcontents
        have htags := (tlv_append_inj (by decide) (by decide) hv (by omega) hcontents).1
        exact absurd htags (by decide)
      · rw [hsome, hsome'] at hcontents
        exact (tlv_append_inj (by decide) (by decide) hv hv' hcontents).2.2
  obtain ⟨-, -, halg⟩ := tlv_append_inj (by decide) (by decide) (by omega) (by omega) hserial
  obtain ⟨-, hsame, -⟩ := tlv_append_inj (by decide) (by decide) (by omega) (by omega) halg
  rw [algId, algId, hsame]

section Changed

variable {B : X509Build} {der der' : Bytes} {c c' : X509Cert} (R : X509Read B der c)
  (R' : X509Read B der' c')

include R R'

/-- Two accepted certificates with the same signed bytes and the same signature. -/
theorem same_signed_same (htbs : c'.tbs.bytes der' = c.tbs.bytes der)
    (hsig : c'.sig.bytes der' = c.sig.bytes der) : der' = der := by
  obtain ⟨hsized, hencode, htbsParts, hsigParts⟩ := R.encode_eq
  obtain ⟨hsized', hencode', htbsParts', hsigParts'⟩ := R'.encode_eq
  rw [htbsParts, htbsParts'] at htbs
  rw [hsigParts, hsigParts'] at hsig
  rw [← hencode, ← hencode', CertParts.encode, CertParts.encode, CertParts.body, CertParts.body,
    htbs, hsig, CertParts.algId_eq hsized' hsized htbs]

/-- Where the signed bytes and the signature of the one are in the other, they are read there. -/
theorem same_places_same (hlen : der'.length = der.length)
    (htbs : c.tbs.bytes der' = c.tbs.bytes der) (hsig : c.sig.bytes der' = c.sig.bytes der) :
    der' = der := by
  obtain ⟨hsized, hencode, htbsParts, hsigParts⟩ := R.encode_eq
  obtain ⟨hsized', hencode', htbsParts', hsigParts'⟩ := R'.encode_eq
  have hbodyLen : R'.parts.body.length = R.parts.body.length := by
    rw [← hencode, ← hencode'] at hlen
    exact tlv_length_inj hlen
  have houter := (asnGetHeader_ok (by decide)).1 R.outer
  have houter' := (asnGetHeader_ok (by decide)).1 R'.outer
  have hfills := R.fills
  have hfills' := R'.fills
  have hbegin : R'.certBegin = R.certBegin := by
    have hwhole := tlv_length asnSeq R.parts.body
    have hwhole' := tlv_length asnSeq R'.parts.body
    rw [← CertParts.encode, hencode] at hwhole
    rw [← CertParts.encode, hencode', hbodyLen] at hwhole'
    rcases Nat.le_total R.totLen R'.totLen with hle | hle
    · have hmono := derLen_length_mono hle
      have hhead := derHeader_length asnSeq R.totLen
      have hhead' := derHeader_length asnSeq R'.totLen
      omega
    · have hmono := derLen_length_mono hle
      have hhead := derHeader_length asnSeq R.totLen
      have hhead' := derHeader_length asnSeq R'.totLen
      omega
  obtain ⟨htbsAt, htbsLen⟩ := R.tbs_at
  obtain ⟨htbsAt', htbsLen'⟩ := R'.tbs_at
  -- the signed bytes of the one stand where those of the other are read
  have hmoved : At der' R.certBegin R.parts.tbs := by
    refine ⟨by rw [hlen]; exact htbsAt.1, ?_⟩
    rw [htbsLen, ← htbsParts, ← htbs, Slice.bytes, R.tbs]
  rw [hbegin] at htbsAt'
  have hroom := hsized.body
  have hroom' := hsized'.body
  simp only [CertParts.body, CertParts.tbs, List.length_append, tlv_length] at hroom hroom'
  have hcontents := header_unique (by decide) (by simp only [List.length_append, tlv_length]; omega)
    (by simp only [List.length_append, tlv_length]; omega) (At.left hmoved) (At.left htbsAt')
  have htbsSame : R.parts.tbs = R'.parts.tbs := by
    refine hmoved.eq htbsAt' ?_
    rw [CertParts.tbs, CertParts.tbs, tlv_length, tlv_length, hcontents]
  have halg := CertParts.algId_eq hsized hsized' htbsSame
  have hsigLen : R'.parts.sig.length = R.parts.sig.length := by
    simp only [CertParts.body, List.length_append, htbsSame, halg] at hbodyLen
    have hbits : (0 :: R'.parts.sig).length = (0 :: R.parts.sig).length :=
      @tlv_length_inj asnBitString asnBitString _ _ (by omega)
    simpa using hbits
  refine same_signed_same R R' ?_ ?_
  · rw [htbsParts, htbsParts', htbsSame]
  · have hend := R.sig_end
    have hend' := R'.sig_end
    have hlenBytes : c.sig.len = R.parts.sig.length := by
      rw [← hsigParts, Slice.bytes, slice_length (by omega)]
    have hlenBytes' : c'.sig.len = R'.parts.sig.length := by
      rw [← hsigParts', Slice.bytes, slice_length (by omega)]
    have hslice : c'.sig = c.sig := by
      have hoff : c'.sig.off = c.sig.off := by omega
      have hn : c'.sig.len = c.sig.len := by omega
      cases hs : c.sig
      cases hs' : c'.sig
      rw [hs, hs'] at hoff hn
      dsimp only at hoff hn
      rw [hoff, hn]
    rw [hslice]
    exact hsig

end Changed

/-- An accepted certificate is the encoding of its parts; two that are accepted with the same
signed bytes and the same signature are the same; and a change outside these two makes the
parser reject the certificate. -/
theorem certificate_not_malleable {B : X509Build} {der : Bytes} {c : X509Cert}
    (h : x509Parse B der = .ok c) :
    (∃ p : CertParts, p.Sized ∧ der = p.encode ∧ c.tbs.bytes der = p.tbs ∧
      c.sig.bytes der = p.sig) ∧
    (∀ (der' : Bytes) (c' : X509Cert), x509Parse B der' = .ok c' →
      c'.tbs.bytes der' = c.tbs.bytes der → c'.sig.bytes der' = c.sig.bytes der → der' = der) ∧
    ∀ der' : Bytes, der'.length = der.length → der' ≠ der →
      c.tbs.bytes der' = c.tbs.bytes der → c.sig.bytes der' = c.sig.bytes der →
      ∃ e, x509Parse B der' = .error e := by
  obtain ⟨R⟩ := x509Parse_read h
  obtain ⟨hsized, hencode, htbs, hsig⟩ := R.encode_eq
  refine ⟨⟨R.parts, hsized, hencode.symm, htbs, hsig⟩, ?_, ?_⟩
  · intro der' c' h' htbs' hsig'
    obtain ⟨R'⟩ := x509Parse_read h'
    exact same_signed_same R R' htbs' hsig'
  · intro der' hlen hne htbs' hsig'
    cases h' : x509Parse B der' with
    | error e => exact ⟨e, rfl⟩
    | ok c' =>
        obtain ⟨R'⟩ := x509Parse_read h'
        exact absurd (same_places_same R R' hlen htbs' hsig') hne

theorem certificate_not_malleable_sample : ∃ c,
    x509Parse Sample.x509Build (Sample.cert 1 [9]) = .ok c ∧
      ∃ p : CertParts, p.Sized ∧ Sample.cert 1 [9] = p.encode ∧
        c.tbs.bytes (Sample.cert 1 [9]) = p.tbs ∧ c.sig.bytes (Sample.cert 1 [9]) = p.sig := by
  obtain ⟨c, hc⟩ := Sample.cert_parses
  exact ⟨c, hc, (certificate_not_malleable hc).1⟩

end WolfNano
