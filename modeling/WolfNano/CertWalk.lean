/-
What the parser has read of a certificate it accepts: the headers in their order, and the
fields of the record they give.
-/
import WolfNano.DerWalk

namespace WolfNano

open Duplex

/-- The places of an accepted certificate, in the order they are read. -/
structure X509Read (B : X509Build) (der : Bytes) (c : X509Cert) where
  totLen : Nat
  certBegin : Nat
  outer : asnGetHeader der asnSeq 0 der.length = .ok (totLen, certBegin)
  fills : certBegin + totLen = der.length
  certLen : Nat
  tbsBody : Nat
  tbsHeader : asnGetHeader der asnSeq certBegin der.length = .ok (certLen, tbsBody)
  tbs : c.tbs = ⟨certBegin, certLen + (tbsBody - certBegin)⟩
  version : Nat
  serialAt : Nat
  versionRead : parseVersion der tbsBody (certBegin + c.tbs.len) = .ok (version, serialAt)
  serialLen : Nat
  serialBody : Nat
  serial : asnGetHeader der asnInteger serialAt (certBegin + c.tbs.len) =
    .ok (serialLen, serialBody)
  serial_pos : ¬ serialLen < 1
  innerLen : Nat
  innerBody : Nat
  inner : asnGetHeader der asnSeq (serialBody + serialLen) (certBegin + c.tbs.len) =
    .ok (innerLen, innerBody)
  issuerLen : Nat
  issuerBody : Nat
  issuer : asnGetHeader der asnSeq (innerBody + innerLen) (certBegin + c.tbs.len) =
    .ok (issuerLen, issuerBody)
  validityLen : Nat
  validityBody : Nat
  validity : asnGetHeader der asnSeq (issuerBody + issuerLen) (certBegin + c.tbs.len) =
    .ok (validityLen, validityBody)
  notAfterAt : Nat
  notBefore : getTime der validityBody (validityBody + validityLen) = .ok (c.notBefore, notAfterAt)
  notAfter : getTime der notAfterAt (validityBody + validityLen) =
    .ok (c.notAfter, validityBody + validityLen)
  subjectLen : Nat
  subjectBody : Nat
  subject : asnGetHeader der asnSeq (validityBody + validityLen) (certBegin + c.tbs.len) =
    .ok (subjectLen, subjectBody)
  subjectCN : (if B.hostname && B.commonName then
      findCn der (subjectLen + 1) subjectBody (subjectBody + subjectLen)
    else pure none) = .ok c.subjectCN
  keyLen : Nat
  keyBody : Nat
  key : asnGetHeader der asnSeq (subjectBody + subjectLen) (certBegin + c.tbs.len) =
    .ok (keyLen, keyBody)
  spki : c.spki = ⟨subjectBody + subjectLen, keyLen + (keyBody - (subjectBody + subjectLen))⟩
  keyAlgLen : Nat
  keyAlgBody : Nat
  keyAlg : asnGetHeader der asnSeq keyBody (keyBody + keyLen) = .ok (keyAlgLen, keyAlgBody)
  algOids : parseAlgIdOids B der keyAlgBody (keyAlgBody + keyAlgLen) = (.ok (), c.keyAlg, c.curve)
  pubKey : asnGetBitString der (keyAlgBody + keyAlgLen) (keyBody + keyLen) =
    .ok (c.pubKey, keyBody + keyLen)
  exts : parseExtensions B der (keyBody + keyLen) (certBegin + c.tbs.len) version = .ok c.exts
  outerLen : Nat
  outerBody : Nat
  outerAlg : asnGetHeader der asnSeq (certBegin + c.tbs.len) der.length = .ok (outerLen, outerBody)
  oidLen : Nat
  oidBody : Nat
  oid : asnGetHeader der asnObjectId outerBody (outerBody + outerLen) = .ok (oidLen, oidBody)
  sigAlg : sigAlgFromOid B der oidBody oidLen = .ok c.sigAlg
  algLen_eq : outerLen + (outerBody - (certBegin + c.tbs.len)) =
    innerLen + (innerBody - (serialBody + serialLen))
  alg_eq : bytesAt der (serialBody + serialLen)
    (innerLen + (innerBody - (serialBody + serialLen))) =
    bytesAt der (certBegin + c.tbs.len) (innerLen + (innerBody - (serialBody + serialLen)))
  params : sigAlgParams der c.sigAlg (oidBody + oidLen) (outerBody + outerLen) = .ok ()
  sig : asnGetBitString der (outerBody + outerLen) der.length = .ok (c.sig, certBegin + totLen)
  der_eq : c.der = der

theorem x509Parse_read {B : X509Build} {der : Bytes} {c : X509Cert} (h : x509Parse B der = .ok c) :
    Nonempty (X509Read B der c) := by
  unfold x509Parse at h
  split at h
  · cases h
  dsimp only at h
  obtain ⟨⟨totLen, certBegin⟩, outer, h⟩ := except_bind_eq_ok.1 h
  obtain ⟨_, hfills, h⟩ := except_bind_eq_ok.1 h
  obtain ⟨⟨certLen, tbsBody⟩, tbsHeader, h⟩ := except_bind_eq_ok.1 h
  obtain ⟨⟨version, serialAt⟩, versionRead, h⟩ := except_bind_eq_ok.1 h
  obtain ⟨⟨serialLen, serialBody⟩, serial, h⟩ := except_bind_eq_ok.1 h
  obtain ⟨_, hserial, h⟩ := except_bind_eq_ok.1 h
  obtain ⟨⟨innerLen, innerBody⟩, inner, h⟩ := except_bind_eq_ok.1 h
  obtain ⟨⟨issuerLen, issuerBody⟩, issuer, h⟩ := except_bind_eq_ok.1 h
  obtain ⟨⟨validityLen, validityBody⟩, validity, h⟩ := except_bind_eq_ok.1 h
  obtain ⟨⟨nb, notAfterAt⟩, notBefore, h⟩ := except_bind_eq_ok.1 h
  obtain ⟨⟨na, timesEnd⟩, notAfter, h⟩ := except_bind_eq_ok.1 h
  obtain ⟨_, htimes, h⟩ := except_bind_eq_ok.1 h
  obtain ⟨⟨subjectLen, subjectBody⟩, subject, h⟩ := except_bind_eq_ok.1 h
  obtain ⟨cn, subjectCN, h⟩ := ite_bind_eq_ok.1 h
  obtain ⟨⟨keyLen, keyBody⟩, key, h⟩ := except_bind_eq_ok.1 h
  obtain ⟨⟨keyAlgLen, keyAlgBody⟩, keyAlg, h⟩ := except_bind_eq_ok.1 h
  obtain ⟨_, hrc, h⟩ := except_bind_eq_ok.1 h
  obtain ⟨⟨pk, keyEnd⟩, pubKey, h⟩ := except_bind_eq_ok.1 h
  obtain ⟨_, hkeyEnd, h⟩ := except_bind_eq_ok.1 h
  obtain ⟨exts, hexts, h⟩ := except_bind_eq_ok.1 h
  obtain ⟨⟨outerLen, outerBody⟩, outerAlg, h⟩ := except_bind_eq_ok.1 h
  obtain ⟨⟨oidLen, oidBody⟩, oid, h⟩ := except_bind_eq_ok.1 h
  obtain ⟨sigAlg, hsigAlg, h⟩ := except_bind_eq_ok.1 h
  obtain ⟨_, halgLen, h⟩ := except_bind_eq_ok.1 h
  obtain ⟨a, ha, h⟩ := except_bind_eq_ok.1 h
  obtain ⟨b, hb, h⟩ := except_bind_eq_ok.1 h
  obtain ⟨_, hab, h⟩ := except_bind_eq_ok.1 h
  obtain ⟨_, params, h⟩ := except_bind_eq_ok.1 h
  obtain ⟨⟨sg, sigEnd⟩, sig, h⟩ := except_bind_eq_ok.1 h
  obtain ⟨_, hsigEnd, h⟩ := except_bind_eq_ok.1 h
  cases h
  have hfills := not_not.1 (decodeIf_ok.1 hfills)
  obtain rfl := not_not.1 (decodeIf_ok.1 htimes)
  obtain rfl := not_not.1 (decodeIf_ok.1 hkeyEnd)
  obtain rfl := not_not.1 (decodeIf_ok.1 hsigEnd)
  have hsame := not_not.1 (decodeIf_ok.1 hab)
  exact ⟨{
    totLen, certBegin, outer, fills := hfills, certLen, tbsBody, tbsHeader, tbs := rfl, version
    serialAt, versionRead, serialLen, serialBody, serial, serial_pos := decodeIf_ok.1 hserial
    innerLen, innerBody, inner, issuerLen, issuerBody, issuer, validityLen, validityBody, validity
    notAfterAt, notBefore, notAfter, subjectLen, subjectBody, subject, subjectCN, keyLen, keyBody
    key, spki := rfl, keyAlgLen, keyAlgBody, keyAlg
    algOids := Prod.ext hrc rfl
    pubKey, exts := hexts, outerLen, outerBody, outerAlg, oidLen, oidBody, oid, sigAlg := hsigAlg
    algLen_eq := not_not.1 (decodeIf_ok.1 halgLen)
    alg_eq := ha.trans (hsame ▸ hb.symm)
    params, sig, der_eq := rfl }⟩

end WolfNano
