/-
The RSAPublicKey of a raw import, `wn_X509_RsaRawNE` of `wn_x509.c`.  The sign
bits are looked at, the shortest form of the two INTEGERs is not.
-/
import WolfNano.DerWalk
import WolfNano.Duplex.DerForm

namespace WolfNano

open Duplex

/-- The header and the checks `wn_X509_RsaRawNE` makes of each INTEGER: its contents, and
the index after them. -/
def asnGetUnsigned (der : Bytes) (idx maxIdx : Nat) : Asn (Slice × Nat) := do
  let (len, idx) ← asnGetHeader der asnInteger idx maxIdx
  decodeIf (len < 1)
  let first ← byteAt der idx
  decodeIf (first ≥ 0x80)
  pure (⟨idx, len⟩, idx + len)

/-- `wn_X509_RsaRawNE`: the modulus and the exponent. -/
def x509RsaRawNE (der : Bytes) : Asn (Slice × Slice) := do
  let (len, idx) ← asnGetHeader der asnSeq 0 der.length
  let seqEnd := idx + len
  -- the RSAPublicKey must fill the BIT STRING
  decodeIf (seqEnd ≠ der.length)
  let (n, idx) ← asnGetUnsigned der idx seqEnd
  let (e, idx) ← asnGetUnsigned der idx seqEnd
  decodeIf (idx ≠ seqEnd)
  pure (n, e)

/-! ### What is read -/

section Reads

variable {der : Bytes}

theorem headD_slice {i len : Nat} (hlen : 0 < len) {b : UInt8} (h : der[i]? = some b) :
    (slice der i len).headD 0 = b := by
  rw [slice, List.headD_eq_head?_getD, List.head?_take, if_neg (Nat.pos_iff_ne_zero.1 hlen),
    List.head?_drop, h]
  rfl

/-- An INTEGER with a clear sign bit is read where it stands. -/
theorem asnGetUnsigned_ok {idx maxIdx i : Nat} {s : Slice} (hmax : maxIdx ≤ der.length) :
    asnGetUnsigned der idx maxIdx = .ok (s, i) ↔
      ∃ c, IntUnsigned c ∧ c.length < 2 ^ 24 ∧ At der idx (tlv asnInteger c) ∧
        s = ⟨idx + (derHeader asnInteger c.length).length, c.length⟩ ∧
          i = idx + (tlv asnInteger c).length ∧ i ≤ maxIdx := by
  simp only [asnGetUnsigned, except_bind_eq_ok, decodeIf_ok, except_pure_eq_ok, Prod.mk.injEq,
    Prod.exists, asnGetHeader_ok (show asnInteger < 256 by decide)]
  constructor
  · rintro ⟨len, j, ⟨hlen, hat, rfl, hend⟩, _, hpos, first, hfirst, _, hsign, rfl, rfl⟩
    have hin := Nat.le_trans hend hmax
    have hbody := At.of_slice hin
    have hcount := slice_length hin
    obtain ⟨b, hget, rfl⟩ := byteAt_ok.1 hfirst
    have hne : slice der (idx + (derHeader asnInteger len).length) len ≠ [] := by
      apply List.ne_nil_of_length_pos
      omega
    refine ⟨slice der (idx + (derHeader asnInteger len).length) len,
      ⟨hne, ?_⟩, ?_, ?_, ?_, ?_, hend⟩
    · rw [headD_slice (by omega) hget]
      exact Nat.not_le.1 hsign
    · rw [hcount]
      exact hlen
    · rw [tlv, hcount]
      exact hat.append hbody
    · rw [hcount]
    · rw [tlv, hcount, List.length_append, hcount, Nat.add_assoc]
  · rintro ⟨c, ⟨hne, hsign⟩, hlen, hat, rfl, rfl, hend⟩
    have hpos := List.length_pos_of_ne_nil hne
    have htotal : (tlv asnInteger c).length = (derHeader asnInteger c.length).length + c.length :=
      List.length_append
    have hbody := hat.right
    obtain ⟨b, rest, rfl⟩ := List.exists_cons_of_ne_nil hne
    refine ⟨_, _, ⟨hlen, hat.left, rfl, by omega⟩, (), by omega, b.toNat,
      byteAt_ok.2 ⟨b, (At.cons_iff.1 hbody).1, rfl⟩, (), Nat.not_le.2 hsign, rfl, ?_⟩
    rw [htotal, Nat.add_assoc]

/-- What the function accepts, and the slices it returns. -/
theorem x509RsaRawNE_ok {ns es : Slice} :
    x509RsaRawNE der = .ok (ns, es) ↔
      ∃ n e, IntUnsigned n ∧ IntUnsigned e ∧
        (tlv asnInteger n ++ tlv asnInteger e).length < 2 ^ 24 ∧
          der = tlv asnSeq (tlv asnInteger n ++ tlv asnInteger e) ∧
            ns = ⟨der.length - (tlv asnInteger e).length - n.length, n.length⟩ ∧
              es = ⟨der.length - e.length, e.length⟩ := by
  simp only [x509RsaRawNE, except_bind_eq_ok, decodeIf_ok, except_pure_eq_ok, Prod.mk.injEq,
    Prod.exists, asnGetHeader_ok (show asnSeq < 256 by decide), not_not]
  have hparts : ∀ c, (tlv asnInteger c).length =
      (derHeader asnInteger c.length).length + c.length :=
    fun c => List.length_append
  constructor
  · rintro ⟨len, j, ⟨hlen, hat, rfl, -⟩, _, hfill, ns', i, hn, es', k, he, _, hend, rfl, rfl⟩
    rw [asnGetUnsigned_ok (Nat.le_of_eq hfill)] at hn he
    obtain ⟨n, hnint, -, hnat, rfl, rfl, -⟩ := hn
    obtain ⟨e, heint, -, heat, rfl, rfl, -⟩ := he
    have hbody := hnat.append heat
    have hn' := hparts n
    have he' := hparts e
    have hlen' : (tlv asnInteger n ++ tlv asnInteger e).length = len := by
      rw [List.length_append]
      omega
    have hder : tlv asnSeq (tlv asnInteger n ++ tlv asnInteger e) = der := by
      apply At.eq_self
      · rw [tlv, hlen']
        exact hat.append hbody
      · rw [tlv, hlen', List.length_append]
        omega
    refine ⟨n, e, hnint, heint, hlen' ▸ hlen, hder.symm, ?_, ?_⟩
    · rw [Slice.mk.injEq]
      omega
    · rw [Slice.mk.injEq]
      omega
  · rintro ⟨n, e, hnint, heint, hlen, hder, rfl, rfl⟩
    have hn' := hparts n
    have he' := hparts e
    have hsum : (tlv asnInteger n ++ tlv asnInteger e).length
        = (tlv asnInteger n).length + (tlv asnInteger e).length := List.length_append
    have htotal : der.length = (derHeader asnSeq
        (tlv asnInteger n ++ tlv asnInteger e).length).length
          + (tlv asnInteger n ++ tlv asnInteger e).length := by
      rw [hder, tlv, List.length_append]
    have hall : At der 0 (tlv asnSeq (tlv asnInteger n ++ tlv asnInteger e)) := by
      rw [← hder]
      exact At.of_eq_append [] [] (by simp) rfl
    have hbody := hall.right
    refine ⟨_, _, ⟨hlen, hall.left, rfl, by omega⟩, (), by omega, _, _,
      (asnGetUnsigned_ok (by omega)).2 ⟨n, hnint, by omega, hbody.left, rfl, rfl, by omega⟩, _, _,
      (asnGetUnsigned_ok (by omega)).2 ⟨e, heint, by omega, hbody.right, rfl, rfl, by omega⟩, (),
      by omega, ?_, ?_⟩
    · rw [Slice.mk.injEq]
      omega
    · rw [Slice.mk.injEq]
      omega

end Reads

/-! ### The format -/

/-- An RSAPublicKey around two INTEGERs with these contents. -/
def RsaForm (der n e body : Bytes) : Prop :=
  ∃ nTlv eTlv, DerTlv 0x02 n nTlv ∧ DerTlv 0x02 e eTlv ∧ body = nTlv ++ eTlv ∧
    DerTlv 0x30 body der

section Form

variable {der n e body n' e' body' : Bytes}

theorem RsaForm.unique (h : RsaForm der n e body) (h' : RsaForm der n' e' body') :
    n = n' ∧ e = e' ∧ body = body' := by
  obtain ⟨nTlv, eTlv, hn, he, hbody, hseq⟩ := h
  obtain ⟨nTlv', eTlv', hn', he', hbody', hseq'⟩ := h'
  obtain ⟨heq, -, -⟩ := @DerTlv.unique _ _ _ _ _ _ [] [] hseq hseq' rfl
  have hsplit : nTlv ++ eTlv = nTlv' ++ eTlv' := by
    rw [← hbody, ← hbody', heq]
  obtain ⟨hnn, -, hrest⟩ := hn.unique hn' hsplit
  obtain ⟨hee, -, -⟩ := @DerTlv.unique _ _ _ _ _ _ [] [] he he' (by rw [hrest])
  exact ⟨hnn, hee, heq⟩

theorem rsaForm_tlv (hlen : (tlv asnInteger n ++ tlv asnInteger e).length < 2 ^ 24) :
    RsaForm (tlv asnSeq (tlv asnInteger n ++ tlv asnInteger e)) n e
      (tlv asnInteger n ++ tlv asnInteger e) := by
  have hsum : (tlv asnInteger n ++ tlv asnInteger e).length
      = (tlv asnInteger n).length + (tlv asnInteger e).length := List.length_append
  have hn := tlv_length asnInteger n
  have he := tlv_length asnInteger e
  exact ⟨_, _, derTlv_tlv (by omega), derTlv_tlv (by omega), rfl, derTlv_tlv hlen⟩

theorem RsaForm.eq_tlv (h : RsaForm der n e body) (hlen : body.length < 2 ^ 24) :
    body = tlv asnInteger n ++ tlv asnInteger e ∧ der = tlv asnSeq body := by
  obtain ⟨nTlv, eTlv, hn, he, rfl, hseq⟩ := h
  have hle : ∀ {c b : Bytes}, DerTlv 0x02 c b → c.length ≤ b.length := by
    rintro c b ⟨len, -, rfl⟩
    rw [List.length_append]
    exact Nat.le_add_left _ _
  have hsum : (nTlv ++ eTlv).length = nTlv.length + eTlv.length := List.length_append
  have hnle := hle hn
  have hele := hle he
  refine ⟨?_, @DerTlv.eq_tlv asnSeq _ _ hseq hlen⟩
  rw [@DerTlv.eq_tlv asnInteger _ _ hn (by omega), @DerTlv.eq_tlv asnInteger _ _ he (by omega)]

/-- The function succeeds on the short forms with clear sign bits. -/
theorem x509RsaRawNE_form :
    (∃ ns es, x509RsaRawNE der = .ok (ns, es)) ↔
      ∃ n e body, RsaForm der n e body ∧ IntUnsigned n ∧ IntUnsigned e ∧ body.length < 2 ^ 24 := by
  constructor
  · rintro ⟨ns, es, h⟩
    obtain ⟨n, e, hn, he, hlen, rfl, -, -⟩ := x509RsaRawNE_ok.1 h
    exact ⟨n, e, _, rsaForm_tlv hlen, hn, he, hlen⟩
  · rintro ⟨n, e, body, hform, hn, he, hlen⟩
    obtain ⟨rfl, hder⟩ := hform.eq_tlv hlen
    exact ⟨_, _, x509RsaRawNE_ok.2 ⟨n, e, hn, he, hlen, hder, rfl, rfl⟩⟩

/-- The slices are the contents of the two INTEGERs. -/
theorem x509RsaRawNE_slices {ns es : Slice} (h : x509RsaRawNE der = .ok (ns, es)) :
    ∃ body, RsaForm der (ns.bytes der) (es.bytes der) body ∧
      ns.off + ns.len ≤ es.off ∧ es.off + es.len = der.length := by
  obtain ⟨n, e, -, -, hlen, hder, rfl, rfl⟩ := x509RsaRawNE_ok.1 h
  have hform := rsaForm_tlv hlen
  rw [← hder] at hform
  have hn := @List.length_append _ (derHeader asnInteger n.length) n
  have he := @List.length_append _ (derHeader asnInteger e.length) e
  have htotal : der.length = (derHeader asnSeq
      (tlv asnInteger n ++ tlv asnInteger e).length ++ derHeader asnInteger n.length).length
        + n.length + (tlv asnInteger e).length := by
    rw [hder]
    simp only [tlv, List.length_append]
    omega
  have hlast : der.length = (derHeader asnSeq
      (tlv asnInteger n ++ tlv asnInteger e).length ++ tlv asnInteger n
        ++ derHeader asnInteger e.length).length + e.length := by
    rw [hder]
    simp only [tlv, List.length_append]
    omega
  have hnbytes : slice der (der.length - (tlv asnInteger e).length - n.length) n.length = n := by
    refine slice_eq_of_eq_append (derHeader asnSeq (tlv asnInteger n ++ tlv asnInteger e).length
      ++ derHeader asnInteger n.length) (tlv asnInteger e) ?_ ?_ rfl
    · rw [hder]
      simp only [tlv, List.append_assoc]
    · omega
  have hebytes : slice der (der.length - e.length) e.length = e := by
    refine slice_eq_of_eq_append (derHeader asnSeq (tlv asnInteger n ++ tlv asnInteger e).length
      ++ tlv asnInteger n ++ derHeader asnInteger e.length) [] ?_ ?_ rfl
    · rw [hder]
      simp only [tlv, List.append_assoc, List.append_nil]
    · omega
  refine ⟨tlv asnInteger n ++ tlv asnInteger e, ?_, ?_, ?_⟩
  · rw [Slice.bytes, Slice.bytes, hnbytes, hebytes]
    exact hform
  · have hle := tlv_length asnInteger e
    simp only
    omega
  · simp only
    omega

end Form

/-! ### The claim of the format -/

/-- Exactly the encodings of two positive numbers are accepted, with their contents. -/
def RsaExact (der : Bytes) : Prop :=
  ((∃ ns es, x509RsaRawNE der = .ok (ns, es)) ↔
      ∃ n e body, RsaForm der n e body ∧ IntPositive n ∧ IntPositive e) ∧
    ∀ ns es, x509RsaRawNE der = .ok (ns, es) →
      (∃ body, RsaForm der (ns.bytes der) (es.bytes der) body) ∧
        ns.off + ns.len ≤ der.length ∧ es.off + es.len ≤ der.length

/-- The input is exactly treated unless it encodes two numbers with a clear sign bit, and
either one of them is zero or has a zero octet too many though the length is in range, or
neither is and the length takes more than three octets. -/
theorem rsa_exact_iff (der : Bytes) :
    RsaExact der ↔
      ∀ n e body, RsaForm der n e body → IntUnsigned n → IntUnsigned e →
        (body.length < 2 ^ 24 ↔ ¬ IntLeadingZero n ∧ ¬ IntLeadingZero e) := by
  have hpositive : ∀ {n e : Bytes}, IntUnsigned n → IntUnsigned e →
      (IntPositive n ∧ IntPositive e ↔ ¬ IntLeadingZero n ∧ ¬ IntLeadingZero e) :=
    fun hn he => and_congr (intPositive_iff hn) (intPositive_iff he)
  constructor
  · rintro ⟨haccept, -⟩ n e body hform hn he
    rw [← hpositive hn he]
    rw [x509RsaRawNE_form] at haccept
    constructor
    · intro hlen
      obtain ⟨n', e', body', hform', hn', he'⟩ := haccept.1 ⟨n, e, body, hform, hn, he, hlen⟩
      obtain ⟨rfl, rfl, -⟩ := hform.unique hform'
      exact ⟨hn', he'⟩
    · intro hpos
      obtain ⟨n', e', body', hform', -, -, hlen⟩ := haccept.2 ⟨n, e, body, hform, hpos⟩
      rw [(hform.unique hform').2.2]
      exact hlen
  · intro h
    constructor
    · rw [x509RsaRawNE_form]
      constructor
      · rintro ⟨n, e, body, hform, hn, he, hlen⟩
        exact ⟨n, e, body, hform, (hpositive hn he).2 ((h n e body hform hn he).1 hlen)⟩
      · rintro ⟨n, e, body, hform, hn, he⟩
        have hsign := (hpositive hn.unsigned he.unsigned).1 ⟨hn, he⟩
        exact ⟨n, e, body, hform, hn.unsigned, he.unsigned,
          (h n e body hform hn.unsigned he.unsigned).2 hsign⟩
    · intro ns es hok
      obtain ⟨body, hform, hn, he⟩ := x509RsaRawNE_slices hok
      exact ⟨⟨body, hform⟩, by omega, by omega⟩

/-- A modulus and an exponent of zero are accepted. -/
theorem rsa_zero_accepted :
    x509RsaRawNE [0x30, 6, 2, 1, 0, 2, 1, 0] = .ok (⟨4, 1⟩, ⟨7, 1⟩) ∧
      ¬ RsaExact [0x30, 6, 2, 1, 0, 2, 1, 0] := by
  have hlen : (tlv asnInteger [0] ++ tlv asnInteger [0]).length < 2 ^ 24 := by decide
  have hok : x509RsaRawNE [0x30, 6, 2, 1, 0, 2, 1, 0] = .ok (⟨4, 1⟩, ⟨7, 1⟩) := rfl
  refine ⟨hok, fun h => ?_⟩
  obtain ⟨n, e, body, hform, hn, -⟩ := h.1.1 ⟨_, _, hok⟩
  obtain ⟨rfl, -, -⟩ := (rsaForm_tlv hlen).unique hform
  exact absurd hn.2 (by decide)

end WolfNano
