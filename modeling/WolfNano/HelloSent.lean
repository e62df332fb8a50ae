/-
The ClientHello of the PSK client: what is sent, and when the server's parser reads it back.
-/
import WolfNano.HelloOffer
import WolfNano.HelloBinder

namespace WolfNano

open Duplex

/-- `sizeof` the PSK ClientHello without its identity. -/
def pskHelloOverhead (B : Build) : Nat := 163 + 2 * (pskSchemes B).length + B.group.pubSz

theorem pskSchemes_length (B : Build) : (pskSchemes B).length ≤ 3 := by
  unfold pskSchemes
  cases B.mldsa <;> simp

section Offer

variable {B : Build} {random32 sid pub identity binder : Bytes}

/-- The binder is the end of the message, and only the end. -/
theorem pskOffer_front : ∃ front : Bytes, ∀ binder : Bytes, binder.length = 32 →
    (pskOffer B random32 sid pub identity binder).encode = front ++ binder := by
  have hbody : ∃ f : Bytes, ∀ binder : Bytes, binder.length = 32 →
      pskOfferBody identity binder = f ++ binder := by
    refine ⟨vec16 (vec16 identity ++ zeros 4) ++ u16 33 ++ [32], fun binder hbinder => ?_⟩
    have hlast : vec16 (vec8 binder) = u16 33 ++ [32] ++ binder := by
      rw [vec16, vec8_length, vec8, hbinder]
      rfl
    rw [pskOfferBody, hlast]
    simp only [List.append_assoc]
  obtain ⟨f, hf⟩ := hbody
  have hexts : ∃ g : Bytes, ∀ binder : Bytes, binder.length = 32 →
      (pskOfferExts B pub identity binder).flatMap HelloExt.encode = g ++ binder := by
    refine ⟨(commonExts B.group.id (pskSchemes B) pub).flatMap HelloExt.encode ++
      HelloExt.encode ⟨extPskKexModes, vec8 [1]⟩ ++ (u16 extPreShared ++ u16 (f.length + 32) ++ f),
      fun binder hbinder => ?_⟩
    have hsplit : pskOfferExts B pub identity binder = commonExts B.group.id (pskSchemes B) pub ++
      [⟨extPskKexModes, vec8 [1]⟩, ⟨extPreShared, pskOfferBody identity binder⟩] := rfl
    have hlast : HelloExt.encode ⟨extPreShared, pskOfferBody identity binder⟩ =
        u16 extPreShared ++ u16 (f.length + 32) ++ f ++ binder := by
      rw [HelloExt.encode, vec16, hf binder hbinder, List.length_append, hbinder]
      simp only [List.append_assoc]
    rw [hsplit, List.flatMap_append, List.flatMap_cons, List.flatMap_singleton, hlast]
    simp only [List.append_assoc]
  obtain ⟨g, hg⟩ := hexts
  refine ⟨[1] ++ u24 ((pskOffer B random32 sid pub identity []).head.length +
    (2 + (g.length + 32))) ++
    (pskOffer B random32 sid pub identity []).head ++ u16 (g.length + 32) ++ g,
    fun binder hbinder => ?_⟩
  have hflat : (pskOffer B random32 sid pub identity binder).exts.flatMap HelloExt.encode =
      g ++ binder := hg binder hbinder
  have hhead : (pskOffer B random32 sid pub identity binder).head =
    (pskOffer B random32 sid pub identity []).head := rfl
  rw [HelloParts.encode, HelloParts.body, hflat, hhead, vec16, List.length_append,
    List.length_append, List.length_append, u16_length, hbinder]
  simp only [List.append_assoc]

theorem pskOfferExts_length (hbinder : binder.length = 32) :
    ((pskOfferExts B pub identity binder).flatMap HelloExt.encode).length =
      84 + 2 * (pskSchemes B).length + pub.length + identity.length := by
  have hsplit : pskOfferExts B pub identity binder = commonExts B.group.id (pskSchemes B) pub ++
    [⟨extPskKexModes, vec8 [1]⟩, ⟨extPreShared, pskOfferBody identity binder⟩] := rfl
  rw [hsplit, List.flatMap_append, List.length_append, commonExts_length, flatMap_u16_length]
  simp only [List.flatMap_cons, List.flatMap_nil, List.append_nil, List.length_append,
    HelloExt.encode_length, pskOfferBody, vec16_length, vec8_length, zeros_length, hbinder,
    List.length_singleton]
  omega

theorem pskOffer_length (hrandom : random32.length = 32) (hsid : sid.length = 32)
    (hpub : pub.length = B.group.pubSz) (hbinder : binder.length = 32) :
    (pskOffer B random32 sid pub identity binder).encode.length =
      pskHelloOverhead B + identity.length := by
  have hexts :
    ((pskOffer B random32 sid pub identity binder).exts.flatMap HelloExt.encode).length = _ :=
    pskOfferExts_length hbinder
  rw [HelloParts.encode_size, hexts, pskHelloOverhead]
  simp only [HelloParts.extsAt, HelloParts.head, pskOffer, List.length_append, u16_length,
    vec8_length, vec16_length, hrandom, hsid, List.length_cons, List.length_nil]
  omega

theorem pskOffer_sized (hrandom : random32.length = 32) (hsid : sid.length = 32)
    (hpub : pub.length = B.group.pubSz) (hbinder : binder.length = 32)
    (hfits : pskHelloOverhead B + identity.length ≤ 2 ^ 14) :
    (pskOffer B random32 sid pub identity binder).Sized := by
  have hlen : ((pskOfferExts B pub identity binder).flatMap HelloExt.encode).length < 2 ^ 16 := by
    rw [pskOfferExts_length hbinder, hpub]
    unfold pskHelloOverhead at hfits
    omega
  refine ⟨hrandom, hsid.le, show 2 < 2 ^ 16 by decide, ?_, hlen⟩
  intro e he
  refine ⟨?_, (HelloExt.body_le he).trans_lt hlen⟩
  have htypes : e.type ∈ (pskOfferExts B pub identity binder).map HelloExt.type :=
    List.mem_map_of_mem he
  exact (show ∀ t ∈ [extSupportedVer, extSupportedGrp, extSigAlgs, extKeyShare, extPskKexModes,
    extPreShared], t < 2 ^ 16 by decide) _ htypes

theorem pskOfferExts_split : pskOfferExts B pub identity binder =
    commonExts B.group.id (pskSchemes B) pub ++
      [⟨extPskKexModes, vec8 [1]⟩, ⟨extPreShared, pskOfferBody identity binder⟩] := rfl

theorem pskOfferExts_read {msg : Bytes} {p n : Nat} (st : ClientHelloExts)
    (hmsg : msg.length < 2 ^ 31) (hr : st.r = .upTo msg p)
    (hat : At msg p ((pskOfferExts B pub identity binder).flatMap HelloExt.encode))
    (hend : p + ((pskOfferExts B pub identity binder).flatMap HelloExt.encode).length = msg.length)
    (hpub : pub.length = B.group.pubSz) (hbinder : binder.length = 32)
    (hpos : 1 ≤ identity.length) (hid : identity.length + 43 < 2 ^ 16) (hpsk : st.seenPsk = false)
    (hseen : st.seenExt = []) :
    ∃ st', clientHelloExts B.group.id (n + 6) st msg.length = .ok st' ∧
      st'.haveTls13 = true ∧ st'.haveGroups = true ∧ st'.groupOffered = true ∧
      st'.havePskDhe = true ∧
      st'.out = (st.withCommon msg p B.group.id ((pskSchemes B).flatMap u16).length
        pub.length).out.withOnePsk (p + 41 + ((pskSchemes B).flatMap u16).length + pub.length)
          identity.length ∧
      At msg (p + 41 + ((pskSchemes B).flatMap u16).length + pub.length + 4) identity := by
  have hschemes := pskSchemes_length B
  have hcount := flatMap_u16_length (pskSchemes B)
  have hpubSz := B.group.pubSz_le
  have hlen := @pskOfferExts_length B pub identity binder hbinder
  have hbodyLen : (pskOfferBody identity binder).length = 43 + identity.length := by
    simp only [pskOfferBody, List.length_append, vec16_length, vec8_length, zeros_length, hbinder]
    omega
  rw [pskOfferExts_split, List.flatMap_append, List.flatMap_cons, List.flatMap_singleton] at hat
  have hrest := hat.right
  rw [commonExts_length, ← Nat.add_assoc, ← Nat.add_assoc] at hrest
  have hcommon := commonExts_read (n := n + 2) hmsg hr hat.left B.group.id_lt (by omega) (by omega)
    hpsk (by simp [hseen]) (by simp [hseen])
  generalize hst₁ : st.withCommon msg p B.group.id ((pskSchemes B).flatMap u16).length
    pub.length = st₁ at hcommon ⊢
  have hr₁ : st₁.r = .upTo msg (p + 31 + ((pskSchemes B).flatMap u16).length + pub.length) := by
    rw [← hst₁]
    rfl
  have hpsk₁ : st₁.seenPsk = false := by
    rw [← hst₁]
    exact hpsk
  have hseen₁ : st₁.seenExt = [extSupportedVer, extSupportedGrp, extSigAlgs, extKeyShare] := by
    rw [← hst₁, ClientHelloExts.withCommon, hseen]
    rfl
  have hflags : st₁.haveTls13 = true ∧ st₁.haveGroups = true ∧ st₁.groupOffered = true := by
    rw [← hst₁]
    exact ⟨rfl, rfl, rfl⟩
  clear hst₁
  generalize ((pskSchemes B).flatMap u16).length = sigLen at *
  obtain ⟨q, hq⟩ : ∃ q, p + 31 + sigLen + pub.length = q := ⟨_, rfl⟩
  rw [hq] at hr₁ hrest
  have hmodes := hrest.left
  have hmodesBody : At msg (q + 4) (vec8 [1]) :=
    At.right (b := u16 2) (At.right (b := u16 extPskKexModes) hmodes)
  have hpskAt : At msg (q + 6) _ := hrest.right
  have hpskBody : At msg (q + 10) (pskOfferBody identity binder) :=
    At.right (b := u16 (pskOfferBody identity binder).length)
      (At.right (b := u16 extPreShared) hpskAt)
  obtain ⟨st₂, hsecond, hr₂, hpsk₂, hseen₂, hflags₂, hdhe₂, hout₂⟩ : ∃ st₂,
      clientHelloExts B.group.id (n + 2) st₁ msg.length =
        clientHelloExts B.group.id (n + 1) st₂ msg.length ∧ st₂.r = .upTo msg (q + 6) ∧
      st₂.seenPsk = false ∧ st₂.seenExt =
      [extSupportedVer, extSupportedGrp, extSigAlgs, extKeyShare,
        extPskKexModes] ∧
      (st₂.haveTls13 = true ∧ st₂.haveGroups = true ∧ st₂.groupOffered = true) ∧
      st₂.havePskDhe = true ∧ st₂.out = st₁.out :=
    ⟨_, clientHelloExts_step (n := n + 1) hmsg hr₁ hmodes (by decide) (by decide) hpsk₁
      (by rw [hseen₁]; decide) (by rw [hseen₁]; decide) (modes_body rfl hmodesBody) rfl, rfl, hpsk₁,
      congrArg (· ++ [extPskKexModes]) hseen₁, hflags, rfl, rfl⟩
  have hlast : clientHelloExts B.group.id (n + 1) st₂ msg.length = _ :=
    clientHelloExts_step hmsg hr₂ hpskAt (show extPreShared < 2 ^ 16 by decide)
      (hbodyLen.trans_lt (by omega)) hpsk₂
      (show extPreShared ∉ st₂.seenExt by rw [hseen₂]; decide) (by rw [hseen₂]; decide)
      (psk_body hmsg rfl hpos (by omega) hbinder (by dsimp only; omega) hpskBody)
      (by dsimp only; congr 1; omega)
  refine ⟨_, hcommon.trans (hsecond.trans (hlast.trans (clientHelloExts_done rfl ?_))),
    hflags₂.1, hflags₂.2.1, hflags₂.2.2, hdhe₂, ?_, ?_⟩
  · omega
  · show st₂.out.withOnePsk _ _ = st₁.out.withOnePsk _ _
    rw [hout₂]
    congr 1
    omega
  · have hidentity : At msg (q + 10 + 2 + 2) identity :=
      At.right (b := u16 identity.length) (At.right (b := u16 (vec16 identity ++ zeros 4).length)
        hpskBody.left).left
    rw [show p + 41 + sigLen + pub.length + 4 = q + 10 + 2 + 2 by omega]
    exact hidentity

/-- `ch` has the identity that was offered, and its binder where it was written. -/
structure PskDecoded (identity binder msg : Bytes) (truncOff binderOff : Nat) (ch : ClientHello) :
    Prop where
  havePsk : ch.havePsk = true
  identity : ch.pskIdentityLen = identity.length ∧
    ∃ off, ch.pskIdentity = some off ∧ At msg off identity
  binder : ch.binder = some binderOff ∧ ch.binderLen = 32 ∧ At msg binderOff binder
  trunc : ch.binderTruncLen = truncOff

theorem pskOffer_parsed (hrandom : random32.length = 32) (hsid : sid.length = 32)
    (hpub : pub.length = B.group.pubSz) (hbinder : binder.length = 32)
    (hpos : 1 ≤ identity.length) (hfits : pskHelloOverhead B + identity.length ≤ 2 ^ 14)
    {msg : Bytes} (hmsgEq : (pskOffer B random32 sid pub identity binder).encode = msg) :
    ∃ ch, clientHelloParse B msg = .ok ch ∧
      PskDecoded identity binder msg (msg.length - 35) (msg.length - 32) ch ∧
      AnswerDecoded B msg sid pub ch := by
  have hs := pskOffer_sized hrandom hsid hpub hbinder hfits
  have hlen := @pskOffer_length B random32 sid pub identity binder hrandom hsid hpub hbinder
  have hexts := @pskOfferExts_length B pub identity binder hbinder
  have hat := (pskOffer B random32 sid pub identity binder).exts_at
  have hparse := @clientHelloParse_encode B _ hs rfl
  have hplace : (pskOffer B random32 sid pub identity binder).extsAt = 79 := by
    simp only [HelloParts.extsAt, HelloParts.head, pskOffer, List.length_append, u16_length,
      vec8_length, vec16_length, hrandom, hsid, List.length_cons, List.length_nil]
  have hsize := (pskOffer B random32 sid pub identity binder).encode_size
  have hbinderAt : At msg (msg.length - 32) binder := by
    obtain ⟨front, hfront⟩ := @pskOffer_front B random32 sid pub identity
    have heq := hmsgEq.symm.trans (hfront binder hbinder)
    refine At.of_eq_append front [] (by rw [heq, List.append_nil]) ?_
    rw [heq, List.length_append, hbinder]
    omega
  have hsidAt : At (pskOffer B random32 sid pub identity binder).encode 39 sid :=
    HelloParts.sessionId_at hrandom
  rw [hplace] at hat hparse hsize
  rw [hmsgEq] at hat hparse hlen hsize hsidAt
  have hover : pskHelloOverhead B = 163 + 2 * (pskSchemes B).length + B.group.pubSz := rfl
  obtain ⟨n, hn⟩ : ∃ n, msg.length = n + 6 := ⟨msg.length - 6, by omega⟩
  obtain ⟨st, hread, hver, hgroups, hoffered, hdhe, hout, hidentity⟩ := pskOfferExts_read (n := n)
    { r := .upTo msg 79
      out := { sessionId := some 39, sessionIdLen := sid.length, cipher := cipherAes128GcmSha256 } }
    (by omega) rfl hat hsize.symm hpub hbinder hpos (by omega) rfl rfl
  rw [← hn] at hread
  have hcount := flatMap_u16_length (pskSchemes B)
  have hsplit : (pskOffer B random32 sid pub identity binder).exts = _ := pskOfferExts_split
  rw [hsplit, List.flatMap_append] at hat
  have hshareAt := (commonExts_at hat.left).2
  refine ⟨st.out, hparse.trans ((congrArg (· >>= _) hread).trans ?_), ?_⟩
  · have hgo : failIf (st.out.cipher = 0 ∨ st.haveTls13 = false ∨ st.haveGroups = false ∨
        st.groupOffered = false ∨ (st.out.haveKeyShare = true ∧
        st.out.keyShareLen ≠ B.group.pubSz) ∨
        (st.out.havePsk = true ∧ (st.out.binderLen ≠ 32 ∨ st.havePskDhe = false))) .illegalParam =
          .ok () := by
      rw [failIf_eq_ok, hver, hgroups, hoffered, hdhe, hout]
      simp [ClientHello.withOnePsk, ClientHelloExts.withCommon, ClientHello.withShare, hpub,
        cipherAes128GcmSha256]
    exact congrArg (· >>= fun _ => pure st.out) hgo
  · rw [hout]
    refine ⟨⟨rfl, ⟨rfl, _, rfl, hidentity⟩, ⟨?_, rfl, hbinderAt⟩, ?_⟩,
      ⟨rfl, 39, rfl, hsidAt⟩, ⟨rfl, rfl, rfl, _, rfl, hshareAt⟩, rfl⟩
    · show some _ = some _
      congr 1
      omega
    · show _ + 8 + _ = _
      omega

/-- When the writer reports no error, the message with its binder is the encoding of the parts,
and the two offsets are those of the binders and of the binder. -/
theorem buildClientHello_fits (hrandom : random32.length = 32) (hsid : sid.length = 32)
    (hpub : pub.length = B.group.pubSz) (hid : identity.length ≤ 0xFFFF) {cap : Nat}
    {hello : PskHello} (hhello : buildClientHello B (.init cap)
      random32 sid pub B.group.id identity = hello)
    (hfits : hello.w.err = false) (hbinder : binder.length = 32) :
    splice hello.w.buf hello.binderOff binder =
        (pskOffer B random32 sid pub identity binder).encode ∧
      hello.truncOff = (pskOffer B random32 sid pub identity binder).encode.length - 35 ∧
      hello.binderOff = (pskOffer B random32 sid pub identity binder).encode.length - 32 := by
  obtain ⟨F, T, C, hF, ⟨t, hT, htLen⟩, ⟨c, hC, hcLen⟩, hbuild⟩ :=
    @buildClientHello_appends B pub random32 sid identity hrandom hsid
  have hzeros := @pskOffer_length B random32 sid pub identity (zeros 32) hrandom hsid hpub
    (zeros_length 32)
  have hlen := @pskOffer_length B random32 sid pub identity binder hrandom hsid hpub hbinder
  obtain ⟨front, hfront⟩ := @pskOffer_front B random32 sid pub identity
  have hover : pskHelloOverhead B = 163 + 2 * (pskSchemes B).length + B.group.pubSz := rfl
  have hschemes := pskSchemes_length B
  have hpubSz := B.group.pubSz_le
  rw [hbuild] at hhello
  subst hhello
  have hwritten : if _ ≤ cap then F (.init cap) = .wrote cap _ else (F (.init cap)).err = true :=
    hF.init (by omega)
  by_cases hroom : (pskOffer B random32 sid pub identity (zeros 32)).encode.length ≤ cap
  · rw [if_pos hroom] at hwritten
    have hcut : if _ ≤ cap then T (.init cap) = .wrote cap _ else (T (.init cap)).err = true :=
      hT.init (by omega)
    have hbinders : if _ ≤ cap then C (.init cap) = .wrote cap _ else (C (.init cap)).err = true :=
      hC.init (by omega)
    rw [if_pos (by omega)] at hcut hbinders
    have hfrontLen : front.length + 32 = pskHelloOverhead B + identity.length := by
      rw [← hlen, hfront binder hbinder, List.length_append, hbinder]
    have hoff : (C (.init cap)).len = front.length := by
      rw [hbinders]
      show c.length = _
      omega
    refine ⟨?_, ?_, ?_⟩
    · have hsplice := splice_middle front (zeros 32) [] binder (by rw [zeros_length, hbinder])
      rw [List.append_nil, List.append_nil, ← hfront _ (zeros_length 32), ← hfront binder hbinder,
        ← hoff] at hsplice
      rw [hwritten]
      exact hsplice
    · rw [hcut]
      show t.length = _
      omega
    · exact hoff.trans (by omega)
  · rw [if_neg hroom] at hwritten
    exact absurd hwritten (Bool.eq_false_iff.1 hfits)

end Offer

/-! ### What is sent -/

/-- A whole ClientHello in one record, read back as it was built. -/
structure HelloRecordLegal (B : Build) (identity : Bytes) (hello : PskHello)
    (binder hdr body : Bytes) :
    Prop where
  header : hdr.length = 5 ∧ hdr.take 3 = [recHandshake, 3, 3] ∧ ofBE (hdr.drop 3) = body.length
  size : body.length ≤ 2 ^ 14
  decoded : ∃ ch, clientHelloParse B body = .ok ch ∧
    PskDecoded identity binder body hello.truncOff hello.binderOff ch

/-- The sends of a run begin with a legal ClientHello, or with its header when the transport did
not take that. -/
def SentLegal (B : Build) (identity : Bytes) (hello : PskHello) (binder : Bytes)
    (sent : List Bytes) : Prop :=
  ∃ hdr body, HelloRecordLegal B identity hello binder hdr body ∧
    (sent = [hdr] ∨ ∃ rest, sent = hdr :: body :: rest)

/-- The arguments are accepted, the writer reports no error and no cryptographic call fails
before the ClientHello is sent. -/
structure PskHelloReady (P : Platform) (rng : P.Rng) (args : PskArgs) (hello : PskHello)
    (binder : Bytes) : Prop where
  accepted : args.connectOk = true
  fits : hello.w.err = false
  built : ∃ (st : ClientStart P) (early : Bytes) (tc : Transcript), clientStart P rng = .ok st ∧
    buildClientHello P.build (.init args.scratchLen) st.random32 st.sid st.cliPub P.build.group.id
      args.identity.val = hello ∧
    pskBinder P args.psk st.emptyHash (hello.w.buf.take hello.truncOff) = .ok (early, binder) ∧
    st.tc.update P (splice hello.w.buf hello.binderOff binder) = .ok tc

section Lengths

variable {P : Platform} {rng : P.Rng}

theorem dhGenerate_length {k : P.DhKey} {pub : Bytes} {rng' : P.Rng}
    (h : dhGenerate P rng = .ok (k, pub, rng')) : pub.length = (dhCurve P).pubSz := by
  unfold dhGenerate at h
  obtain ⟨⟨_, _⟩, -, hrest⟩ := except_bind_eq_ok.1 h
  obtain ⟨pub', hpub, heq⟩ := except_bind_eq_ok.1 hrest
  cases heq
  exact P.dhPublic_length (orCrypto_eq_ok.1 hpub)

theorem keyShareGenerate_length {ks ks' : KeyShare P} {pub : Bytes} {rng' : P.Rng}
    (h : keyShareGenerate P ks rng = .ok (ks', pub, rng')) : pub.length = P.build.group.pubSz := by
  unfold keyShareGenerate at h
  split at h
  · cases h
  have hplain : P.build.group ≠ .x25519mlkem768 → (dhCurve P).pubSz = P.build.group.pubSz := by
    unfold dhCurve
    cases P.build.group with
    | x25519 => exact fun _ => rfl
    | secp256r1 => exact fun _ => rfl
    | x25519mlkem768 => exact fun hne => absurd rfl hne
  split at h
  · rename_i hhybrid
    unfold hybridClientKeyShare at h
    obtain ⟨_, -, h⟩ := except_bind_eq_ok.1 h
    obtain ⟨⟨_, _⟩, -, h⟩ := except_bind_eq_ok.1 h
    obtain ⟨kemPub, hkem, h⟩ := except_bind_eq_ok.1 h
    obtain ⟨_, -, h⟩ := except_bind_eq_ok.1 h
    obtain ⟨⟨_, xPub, _⟩, hx, heq⟩ := except_bind_eq_ok.1 h
    cases heq
    rw [List.length_append, P.kemPublic_length (orCrypto_eq_ok.1 hkem), dhGenerate_length hx,
      dhCurve, hhybrid]
    rfl
  · rename_i hne
    obtain ⟨⟨_, pub', _⟩, hx, heq⟩ := except_bind_eq_ok.1 h
    cases heq
    rw [dhGenerate_length hx, hplain hne]

theorem clientStart_lengths {st : ClientStart P} (h : clientStart P rng = .ok st) :
    st.random32.length = 32 ∧ st.sid.length = 32 ∧ st.cliPub.length = P.build.group.pubSz := by
  unfold clientStart at h
  obtain ⟨_, -, h⟩ := except_bind_eq_ok.1 h
  obtain ⟨⟨random32, _⟩, hrandom, h⟩ := except_bind_eq_ok.1 h
  obtain ⟨⟨sid, _⟩, hsid, h⟩ := except_bind_eq_ok.1 h
  obtain ⟨_, -, h⟩ := except_bind_eq_ok.1 h
  obtain ⟨⟨_, cliPub, _⟩, hpub, h⟩ := except_bind_eq_ok.1 h
  obtain ⟨_, -, heq⟩ := except_bind_eq_ok.1 h
  cases heq
  exact ⟨P.rngBlock_length (orCrypto_eq_ok.1 hrandom), P.rngBlock_length (orCrypto_eq_ok.1 hsid),
    keyShareGenerate_length hpub⟩

theorem pskBinder_length {psk emptyHash partialHello early binder : Bytes}
    (h : pskBinder P psk emptyHash partialHello = .ok (early, binder)) : binder.length = 32 := by
  unfold pskBinder at h
  obtain ⟨_, -, h⟩ := except_bind_eq_ok.1 h
  obtain ⟨_, -, h⟩ := except_bind_eq_ok.1 h
  obtain ⟨_, -, h⟩ := except_bind_eq_ok.1 h
  obtain ⟨mac, hmac, heq⟩ := except_bind_eq_ok.1 h
  cases heq
  exact tls13FinishedMac_length hmac

end Lengths

section Sent

variable {P : Platform} {rng : P.Rng} {args : PskArgs} {hello : PskHello} {binder : Bytes}

/-- The two sends of a plain record, and what its sender goes on with. -/
theorem sendPlainRecord_run {α β : Type} {type : UInt8} {body : Bytes} {k : Shell α}
    {f : Except Err α → Proc Ev β} :
    ((sendPlainRecord type body >>= fun _ => k).run >>= f) =
      Proc.send (plainHeader type body.length) fun r =>
        if r = 5 then
          Proc.send body fun r =>
            if r = body.length then k.run >>= f else f (.error .crypto)
        else f (.error .crypto) := by
  refine congrArg (Proc.send _) (funext fun r => ?_)
  show (((Prog.failIf (r ≠ 5) .crypto : Shell Unit) >>= fun _ =>
    Prog.send body >>= fun r => Prog.failIf (r ≠ body.length) .crypto) >>= fun _ => k).run >>= f = _
  by_cases hr : r = 5
  · have hgo : Prog.failIf (r ≠ 5) Err.crypto = (pure () : Shell Unit) := if_neg (not_not.2 hr)
    rw [if_pos hr, hgo]
    refine congrArg (Proc.send _) (funext fun r => ?_)
    show ((Prog.failIf (r ≠ body.length) .crypto : Shell Unit) >>= fun _ => k).run >>= f = _
    by_cases hlen : r = body.length
    · have hgo : Prog.failIf (r ≠ body.length) Err.crypto = (pure () : Shell Unit) :=
        if_neg (not_not.2 hlen)
      rw [if_pos hlen, hgo]
      rfl
    · have hstop : Prog.failIf (r ≠ body.length) Err.crypto = (Prog.throw .crypto : Shell Unit) :=
        if_pos hlen
      rw [if_neg hlen, hstop]
      rfl
  · have hstop : Prog.failIf (r ≠ 5) Err.crypto = (Prog.throw .crypto : Shell Unit) := if_pos hr
    rw [if_neg hr, hstop]
    rfl

theorem connectPskEx_sends (h : PskHelloReady P rng args hello binder) (fuel : Nat)
    (sess : Session) :
    ∃ rest : Int → Proc Ev (Ret × Session),
      connectPskEx P fuel rng args sess =
        Proc.send (plainHeader recHandshake (splice hello.w.buf hello.binderOff binder).length)
          (fun r => if r = 5 then Proc.send (splice hello.w.buf hello.binderOff binder) rest
            else Proc.done (.error .crypto, .zero)) ∧
      ∀ r : Int, r ≠ (splice hello.w.buf hello.binderOff binder).length →
        rest r = Proc.done (.error .crypto, .zero) := by
  obtain ⟨st, early, tc, hstart, hbuild, hbinder, htc⟩ := h.built
  have hhello : pskClientHello P args st =
      .ok (early, splice hello.w.buf hello.binderOff binder) := by
    have hgo : failIf (hello.w.err = true) .crypto = .ok () := by
      rw [failIf_eq_ok, h.fits]
      exact Bool.false_ne_true
    unfold pskClientHello
    rw [hbuild]
    simp only [hgo, hbinder]
    rfl
  generalize splice hello.w.buf hello.binderOff binder = msg at *
  have hbody : ∃ cont, connectPskBody P fuel rng args =
      sendPlainRecord recHandshake msg >>= fun _ => cont := by
    unfold connectPskBody
    rw [hstart, Prog.lift_ok_bind, hhello, Prog.lift_ok_bind]
    dsimp only
    rw [htc, Prog.lift_ok_bind]
    exact ⟨_, rfl⟩
  obtain ⟨cont, hcont⟩ := hbody
  have hok : ¬ args.connectOk = false := by
    rw [h.accepted]
    exact Bool.noConfusion
  unfold connectPskEx
  rw [if_neg hok, hcont]
  exact ⟨_, sendPlainRecord_run, fun r hr => if_neg hr⟩

theorem PskHelloReady.encode (h : PskHelloReady P rng args hello binder) :
    ∃ random32 sid pub : Bytes, random32.length = 32 ∧ sid.length = 32 ∧
      pub.length = P.build.group.pubSz ∧ binder.length = 32 ∧
      splice hello.w.buf hello.binderOff binder =
        (pskOffer P.build random32 sid pub args.identity.val binder).encode ∧
      hello.truncOff = (splice hello.w.buf hello.binderOff binder).length - 35 ∧
      hello.binderOff = (splice hello.w.buf hello.binderOff binder).length - 32 := by
  obtain ⟨st, early, tc, hstart, hbuild, hbinder, -⟩ := h.built
  obtain ⟨hrandom, hsid, hpub⟩ := clientStart_lengths hstart
  have hbinderLen := pskBinder_length hbinder
  have hid : args.identity.val.length ≤ 0xFFFF := by
    have haccepted := h.accepted
    simp only [PskArgs.connectOk, Bool.and_eq_true, decide_eq_true_eq] at haccepted
    exact haccepted.2
  obtain ⟨hmsg, htrunc, hoff⟩ :=
    buildClientHello_fits hrandom hsid hpub hid hbuild h.fits hbinderLen
  rw [← hmsg] at htrunc hoff
  exact ⟨st.random32, st.sid, st.cliPub, hrandom, hsid, hpub, hbinderLen, hmsg, htrunc, hoff⟩

/-- The record is legal when the identity is not empty and the message fits a record. -/
theorem PskHelloReady.legal_iff (h : PskHelloReady P rng args hello binder) :
    HelloRecordLegal P.build args.identity.val hello binder
        (plainHeader recHandshake (splice hello.w.buf hello.binderOff binder).length)
        (splice hello.w.buf hello.binderOff binder) ↔
      1 ≤ args.identity.val.length ∧
        pskHelloOverhead P.build + args.identity.val.length ≤ 2 ^ 14 := by
  obtain ⟨random32, sid, pub, hrandom, hsid, hpub, hbinder, hmsg, htrunc, hoff⟩ := h.encode
  have hlen := @pskOffer_length P.build random32 sid pub args.identity.val binder hrandom hsid hpub
    hbinder
  rw [← hmsg] at hlen
  generalize splice hello.w.buf hello.binderOff binder = msg at *
  constructor
  · rintro ⟨-, hsize, ch, hparse, hdecoded⟩
    refine ⟨?_, hlen ▸ hsize⟩
    obtain ⟨parts, hparts⟩ := clientHelloParse_ok hparse
    obtain ⟨id, ids, bnd, bnds, hcovers⟩ := hparts.covers hdecoded.havePsk
    obtain ⟨off, -, hidLen, -⟩ := hcovers.identity
    have hne := List.length_pos_iff.2 id.identity_ne
    have hsame := hdecoded.identity.1
    omega
  · rintro ⟨hpos, hsize⟩
    obtain ⟨ch, hparse, hdecoded, -⟩ :=
      pskOffer_parsed hrandom hsid hpub hbinder hpos hsize hmsg.symm
    refine ⟨⟨rfl, rfl, ?_⟩, hlen ▸ hsize, ch, hparse, ?_⟩
    · exact ofBE_u16 (by omega)
    · rw [htrunc, hoff]
      exact hdecoded

theorem pskClientHello_ok {st : ClientStart P} {early msg : Bytes}
    (h : pskClientHello P args st = .ok (early, msg)) : ∃ hello binder, hello.w.err = false ∧
      buildClientHello P.build (.init args.scratchLen) st.random32 st.sid st.cliPub P.build.group.id
        args.identity.val = hello ∧
      pskBinder P args.psk st.emptyHash (hello.w.buf.take hello.truncOff) = .ok (early, binder) ∧
      splice hello.w.buf hello.binderOff binder = msg := by
  unfold pskClientHello at h
  obtain ⟨_, hfits, h⟩ := except_bind_eq_ok.1 h
  obtain ⟨⟨_, binder⟩, hbinder, heq⟩ := except_bind_eq_ok.1 h
  cases heq
  exact ⟨_, binder, Bool.eq_false_iff.2 (failIf_eq_ok.1 hfits), rfl, hbinder, rfl⟩

/-- Without a ClientHello nothing is sent. -/
theorem connectPskEx_unready (h : ∀ hello binder, ¬ PskHelloReady P rng args hello binder)
    (fuel : Nat) (sess : Session) :
    ∃ e s, connectPskEx P fuel rng args sess = Proc.done (.error e, s) := by
  unfold connectPskEx
  by_cases hok : args.connectOk = false
  · rw [if_pos hok]
    exact ⟨_, _, rfl⟩
  rw [if_neg hok]
  have hstop : ∃ e, connectPskBody P fuel rng args = Prog.throw e := by
    unfold connectPskBody
    cases hstart : clientStart P rng with
    | error e => exact ⟨e, rfl⟩
    | ok st =>
        rw [Prog.lift_ok_bind]
        cases hhello : pskClientHello P args st with
        | error e => exact ⟨e, rfl⟩
        | ok r =>
            obtain ⟨early, msg⟩ := r
            rw [Prog.lift_ok_bind]
            dsimp only
            cases htc : st.tc.update P msg with
            | error e => exact ⟨e, rfl⟩
            | ok tc =>
                obtain ⟨hello, binder, hfits, hbuild, hbinder, rfl⟩ := pskClientHello_ok hhello
                exact absurd ⟨Bool.not_eq_false _ ▸ hok, hfits, st, early, tc, hstart, hbuild,
                  hbinder, htc⟩ (h hello binder)
  obtain ⟨e, he⟩ := hstop
  rw [he]
  exact ⟨e, .zero, rfl⟩

/-- A transport that takes the header and refuses the body. -/
theorem PskHelloReady.refused_run (h : PskHelloReady P rng args hello binder) :
    (connectPskEx P 0 rng args .zero).Runs
      [.sent (plainHeader recHandshake (splice hello.w.buf hello.binderOff binder).length) 5,
        .sent (splice hello.w.buf hello.binderOff binder) (-1)] (.error .crypto, .zero) := by
  obtain ⟨rest, hsends, hshort⟩ := connectPskEx_sends h 0 .zero
  generalize splice hello.w.buf hello.binderOff binder = msg at *
  rw [hsends]
  refine ⟨5, [.sent msg (-1)], rfl, ?_⟩
  dsimp only
  rw [if_pos rfl]
  refine ⟨-1, [], rfl, ?_⟩
  rw [hshort (-1) (by omega)]
  exact ⟨rfl, rfl⟩

/-- That run shows the record whole. -/
theorem PskHelloReady.legal_of_runs (h : PskHelloReady P rng args hello binder)
    (hall : ∀ (fuel : Nat) (sess : Session) (tr : List (Act Ev)) (ret : Ret) (s : Session),
      (connectPskEx P fuel rng args sess).Runs tr (ret, s) →
        SentLegal P.build args.identity.val hello binder (sends tr)) :
    HelloRecordLegal P.build args.identity.val hello binder
      (plainHeader recHandshake (splice hello.w.buf hello.binderOff binder).length)
      (splice hello.w.buf hello.binderOff binder) := by
  obtain ⟨_, _, hlegal, hone | ⟨more, hmore⟩⟩ := hall _ _ _ _ _ h.refused_run
  · cases hone
  · cases hmore
    exact hlegal

end Sent

/-- The first record of the PSK client is a ClientHello that the server's parser reads back as it
was built, in every run, exactly when the identity is not empty and the message fits a record;
and where no ClientHello is built the call returns, with an error, before it sends anything. -/
theorem psk_hello_legal_iff (P : Platform) (rng : P.Rng) (args : PskArgs) :
    (∀ hello binder, PskHelloReady P rng args hello binder →
      ((∀ (fuel : Nat) (sess : Session) (tr : List (Act Ev)) (ret : Ret) (s : Session),
          (connectPskEx P fuel rng args sess).Runs tr (ret, s) →
            SentLegal P.build args.identity.val hello binder (sends tr)) ↔
        1 ≤ args.identity.val.length ∧
          pskHelloOverhead P.build + args.identity.val.length ≤ 2 ^ 14)) ∧
    ((∀ hello binder, ¬ PskHelloReady P rng args hello binder) →
      ∀ (fuel : Nat) (sess : Session),
        (∃ e s, connectPskEx P fuel rng args sess = .done (.error e, s)) ∧
        ∀ (tr : List (Act Ev)) (ret : Ret) (s : Session),
          (connectPskEx P fuel rng args sess).Runs tr (ret, s) →
            sends tr = [] ∧ ∃ e, ret = .error e) := by
  constructor
  · intro hello binder hready
    rw [← hready.legal_iff]
    constructor
    · exact hready.legal_of_runs
    · intro hlegal fuel sess tr ret s hrun
      obtain ⟨rest, hsends, -⟩ := connectPskEx_sends hready fuel sess
      rw [hsends] at hrun
      obtain ⟨r, t, rfl, hrun⟩ := hrun
      refine ⟨_, _, hlegal, ?_⟩
      dsimp only at hrun
      by_cases hr : r = 5
      · rw [if_pos hr] at hrun
        obtain ⟨r', t', rfl, -⟩ := hrun
        exact .inr ⟨sends t', rfl⟩
      · rw [if_neg hr] at hrun
        obtain ⟨rfl, -⟩ := hrun
        exact .inl rfl
  · intro hunready fuel sess
    obtain ⟨e, s', heq⟩ := connectPskEx_unready hunready fuel sess
    refine ⟨⟨e, s', heq⟩, fun tr ret s hrun => ?_⟩
    rw [heq] at hrun
    obtain ⟨rfl, hret⟩ := hrun
    cases hret
    exact ⟨rfl, e, rfl⟩

/-- `pskArgs` with another identity. -/
def Sample.pskArgsFor (identity : CStr) : PskArgs := { Sample.pskArgs with identity := identity }

theorem Sample.pskHello_ready (identity : CStr)
    (haccepted : (Sample.pskArgsFor identity).connectOk = true)
    (h : (clientStart Sample.platform (7 : Nat) >>= fun st =>
      pskClientHello Sample.platform (Sample.pskArgsFor identity) st >>= fun hello =>
        st.tc.update Sample.platform hello.2).toOption.isSome = true) :
    ∃ hello binder,
      PskHelloReady Sample.platform (7 : Nat) (Sample.pskArgsFor identity) hello binder := by
  cases hall : clientStart Sample.platform (7 : Nat) >>= fun st =>
      pskClientHello Sample.platform (Sample.pskArgsFor identity) st >>= fun hello =>
        st.tc.update Sample.platform hello.2 with
  | error e =>
      rw [hall] at h
      cases h
  | ok tc =>
      obtain ⟨st, hstart, hrest⟩ := except_bind_eq_ok.1 hall
      obtain ⟨⟨early, msg⟩, hhello, htc⟩ := except_bind_eq_ok.1 hrest
      obtain ⟨hello, binder, hfits, hbuild, hbinder, rfl⟩ := pskClientHello_ok hhello
      exact ⟨hello, binder, haccepted, hfits, st, early, tc, hstart, hbuild, hbinder, htc⟩

theorem psk_hello_legal_sample : ∃ hello binder,
    PskHelloReady Sample.platform (7 : Nat) (Sample.pskArgsFor ⟨[105, 100], by decide⟩)
      hello binder ∧
      ∀ (fuel : Nat) (sess : Session) (tr : List (Act Ev)) (ret : Ret) (s : Session),
        (connectPskEx Sample.platform fuel (7 : Nat) (Sample.pskArgsFor ⟨[105, 100], by decide⟩)
          sess).Runs tr (ret, s) →
          SentLegal Sample.platform.build [105, 100] hello binder (sends tr) := by
  obtain ⟨hello, binder, hready⟩ := Sample.pskHello_ready ⟨[105, 100], by decide⟩
    (by decide) (by decide +kernel)
  exact ⟨hello, binder, hready,
    ((psk_hello_legal_iff _ _ _).1 hello binder hready).2 ⟨by decide, by decide +kernel⟩⟩

/-- An empty identity is sent, and no server can accept it. -/
theorem psk_hello_empty_identity : ¬ ∀ (P : Platform) (rng : P.Rng) (args : PskArgs)
    (hello : PskHello) (binder : Bytes), PskHelloReady P rng args hello binder →
      ∀ (fuel : Nat) (sess : Session) (tr : List (Act Ev)) (ret : Ret) (s : Session),
        (connectPskEx P fuel rng args sess).Runs tr (ret, s) →
          SentLegal P.build args.identity.val hello binder (sends tr) := by
  intro hall
  obtain ⟨hello, binder, hready⟩ := Sample.pskHello_ready ⟨[], by decide⟩ (by decide)
    (by decide +kernel)
  have hlegal := hready.legal_of_runs (hall _ _ _ hello binder hready)
  exact absurd (hready.legal_iff.1 hlegal).1 (by decide)

end WolfNano
