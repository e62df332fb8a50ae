/-
The ClientHello of the certificate client: the server's parser reads back what was written.
-/
import WolfNano.HelloRead

namespace WolfNano

open Duplex

/-! ### The schemes -/

/-- From an octet pair on, the loop finds what the rest of the list holds. -/
theorem hasSigAlgLoop_iff {fuel scheme : Nat} {done rest : List Nat}
    (hrest : ∀ v ∈ rest, v < 2 ^ 16) (hlen : 2 * (done.length + rest.length) < 2 ^ 16)
    (hfuel : rest.length < fuel) :
    hasSigAlgLoop fuel ((done ++ rest).flatMap u16) (2 * (done.length + rest.length))
      (2 * done.length) scheme = true ↔ scheme ∈ rest := by
  induction rest generalizing done fuel with
  | nil =>
      cases fuel with
      | zero => simp at hfuel
      | succ fuel =>
          rw [hasSigAlgLoop, if_neg (by simp)]
          simp
  | cons v rest ih =>
      obtain ⟨fuel, rfl⟩ : ∃ k, fuel = k + 1 := ⟨fuel - 1, by omega⟩
      rw [List.length_cons] at hlen hfuel
      have hone : ofBE (slice ((done ++ v :: rest).flatMap u16) (2 * done.length) 2) = v := by
        have hslice : slice ((done ++ v :: rest).flatMap u16) (2 * done.length) 2 = u16 v := by
          refine slice_eq_of_eq_append (done.flatMap u16) (rest.flatMap u16) ?_
            (flatMap_u16_length done).symm (u16_length v).symm
          simp
        rw [hslice, ofBE_u16 (hrest v (List.mem_cons_self ..))]
      have hnext := @ih fuel (done ++ [v]) (fun v hv => hrest v (List.mem_cons_of_mem _ hv))
        (by simp; omega) (by omega)
      have hcount : (done ++ [v]).length + rest.length = done.length + (rest.length + 1) := by
        rw [List.length_append, List.length_singleton]
        omega
      have hplace : (2 * done.length + 2) % 2 ^ 16 = 2 * (done ++ [v]).length := by
        rw [List.length_append, List.length_singleton]
        omega
      rw [hcount, List.append_assoc] at hnext
      rw [hasSigAlgLoop, List.length_cons, if_pos (by omega), hone, hplace, Bool.or_eq_true,
        List.mem_cons, beq_iff_eq]
      exact or_congr eq_comm hnext

theorem ClientHello.hasSigAlg_iff {ch : ClientHello} {msg : Bytes} {off : Nat}
    {schemes : List Nat} (hschemes : ∀ v ∈ schemes, v < 2 ^ 16)
    (hlen : (schemes.flatMap u16).length < 2 ^ 16) (hoff : ch.sigAlgs = some off)
    (hlist : ch.sigAlgsLen = (schemes.flatMap u16).length)
    (hat : At msg off (schemes.flatMap u16)) (scheme : Nat) :
    ch.hasSigAlg msg scheme = true ↔ scheme ∈ schemes := by
  have hcount := flatMap_u16_length schemes
  have hloop := @hasSigAlgLoop_iff (2 * schemes.length + 1) scheme [] schemes hschemes
    (by simp only [List.length_nil]; omega) (by omega)
  rw [List.length_nil, Nat.zero_add, List.nil_append] at hloop
  rw [hasSigAlg, hoff, hlist]
  dsimp only
  rw [hat.2, hcount]
  exact hloop

/-! ### The extensions -/

section Common

variable {msg pub : Bytes} {p group : Nat} {schemes : List Nat}

/-- Where the schemes and the key share stand. -/
theorem commonExts_at (hat : At msg p ((commonExts group schemes pub).flatMap HelloExt.encode)) :
    At msg (p + 21) (schemes.flatMap u16) ∧
      At msg (p + 31 + (schemes.flatMap u16).length) pub := by
  simp only [commonExts, List.flatMap_cons, List.flatMap_nil, List.append_nil] at hat
  have hsigRest : At msg (p + 15) _ := (At.right hat : At msg (p + 7) _).right
  have hsig : At msg (p + 15) (u16 extSigAlgs ++ (u16 (vec16 (schemes.flatMap u16)).length ++
      (u16 (schemes.flatMap u16).length ++ schemes.flatMap u16))) := hsigRest.left
  have hshare := hsigRest.right
  rw [keyShareExt_encode, HelloExt.encode_length, vec16_length] at hshare
  have hplace : p + 15 + (4 + (2 + (schemes.flatMap u16).length)) +
      (u16 extKeyShare ++ u16 (6 + pub.length) ++ u16 (4 + pub.length) ++ u16 group ++
        u16 pub.length).length = p + 31 + (schemes.flatMap u16).length := by
    simp only [List.length_append, u16_length]
    omega
  exact ⟨hsig.right.right.right, hplace ▸ hshare.right⟩

end Common

theorem KexGroup.id_lt (g : KexGroup) : g.id < 2 ^ 16 := by
  cases g <;> decide

theorem KexGroup.pubSz_le (g : KexGroup) : g.pubSz ≤ 1216 := by
  cases g <;> decide

theorem MldsaLevel.scheme_lt (l : MldsaLevel) : l.scheme < 2 ^ 16 := by
  cases l <;> decide

theorem offeredSchemes_lt (B : Build) : ∀ v ∈ offeredSchemes B, v < 2 ^ 16 := by
  have hguard : ∀ {b : Bool} {l : List Nat}, (∀ v ∈ l, v < 2 ^ 16) →
      ∀ v ∈ (if b then l else []), v < 2 ^ 16 := by
    intro b l hl v hv
    cases b with
    | false => cases hv
    | true => exact hl v hv
  intro v hv
  simp only [offeredSchemes, List.mem_append, Option.mem_toList, Option.map_eq_some_iff] at hv
  rcases hv with (((⟨level, -, rfl⟩ | hv) | hv) | hv) | hv
  · exact level.scheme_lt
  · exact hguard (by decide) v hv
  · exact hguard (by decide) v hv
  · exact hguard (by decide) v hv
  · refine hguard (fun w hw => ?_) v hv
    simp only [List.mem_append] at hw
    rcases hw with (hw | hw) | hw
    · exact hguard (by decide) w hw
    · exact hguard (by decide) w hw
    · simp only [List.mem_singleton] at hw
      omega

theorem offeredSchemes_length (B : Build) : (offeredSchemes B).length ≤ 7 := by
  have hguard : ∀ (b : Bool) (l : List Nat), (if b then l else []).length ≤ l.length := by
    intro b l
    cases b <;> simp
  have hlevel : (B.mldsa.map MldsaLevel.scheme).toList.length ≤ 1 := by
    cases B.mldsa <;> simp
  have hed := hguard B.ed25519 [0x0807]
  have h384 := hguard (B.ecc384 && B.sha384) [0x0503]
  have hecc := hguard B.ecc [0x0403]
  have hrsa := hguard B.rsa ((if B.sha512 then [0x0806] else []) ++
    (if B.sha384 then [0x0805] else []) ++ [0x0804])
  have hpss512 := hguard B.sha512 [0x0806]
  have hpss384 := hguard B.sha384 [0x0805]
  simp only [offeredSchemes, List.length_append, List.length_singleton] at *
  omega

/-- The server name, if there is one, is passed over. -/
theorem offerExts_read {B : Build} {msg name pub : Bytes} {p n : Nat} (st : ClientHelloExts)
    (hmsg : msg.length < 2 ^ 31) (hr : st.r = .upTo msg p)
    (hat : At msg p ((offerExts B name pub).flatMap HelloExt.encode))
    (hend : p + ((offerExts B name pub).flatMap HelloExt.encode).length = msg.length)
    (hname : name.length ≤ 255) (hpub : pub.length = B.group.pubSz)
    (hpsk : st.seenPsk = false) (hseen : st.seenExt = []) :
    ∃ (q : Nat) (seen : List Nat),
      At msg q ((commonExts B.group.id (offeredSchemes B) pub).flatMap HelloExt.encode) ∧
      clientHelloExts B.group.id (n + 5) st msg.length =
        .ok (({ st with seenExt := seen } : ClientHelloExts).withCommon msg q B.group.id
          ((offeredSchemes B).flatMap u16).length pub.length) := by
  have hsize := flatMap_u16_length (offeredSchemes B)
  have hcount := offeredSchemes_length B
  have hpubSz := B.group.pubSz_le
  have hcommon := commonExts_length B.group.id (offeredSchemes B) pub
  have hflat : (offerExts B name pub).flatMap HelloExt.encode =
      (if name.length > 0 then [⟨extServerName, vec16 (0 :: vec16 name)⟩] else []).flatMap
          HelloExt.encode ++
        (commonExts B.group.id (offeredSchemes B) pub).flatMap HelloExt.encode :=
    List.flatMap_append
  rw [hflat] at hat hend
  by_cases hnil : name.length > 0
  · rw [if_pos hnil, List.flatMap_singleton] at hat hend
    have hbody : (vec16 (0 :: vec16 name)).length = 5 + name.length := by
      rw [vec16_length, List.length_cons, vec16_length]
      omega
    rw [List.length_append, HelloExt.encode_length, hbody] at hend
    have hrest := hat.right
    rw [HelloExt.encode_length, hbody] at hrest
    refine ⟨_, [extServerName], hrest, ?_⟩
    have hbodyAt := At.right (b := u16 (vec16 (0 :: vec16 name)).length)
      (At.right (b := u16 extServerName) hat.left)
    refine (clientHelloExts_step (n := n + 4) hmsg hr hat.left
      (show extServerName < 2 ^ 16 by decide) ?_ hpsk ?_ ?_
        (serverName_body hmsg rfl hbodyAt rfl) rfl).trans ?_
    · exact hbody.trans_lt (by omega)
    · rw [hseen]
      exact List.not_mem_nil
    · rw [hseen]
      exact Nat.zero_lt_succ _
    refine (commonExts_read (n := n) hmsg ?_ hrest B.group.id_lt (by omega) (by omega) ?_ ?_
      ?_).trans ?_
    · dsimp only
      rw [hbody, Nat.add_assoc]
    · exact hpsk
    · rw [hseen]
      exact show 1 < 36 by decide
    · rw [hseen]
      exact show ∀ t ∈ [extSupportedVer, extSupportedGrp, extSigAlgs, extKeyShare],
        t ∉ [extServerName] by decide
    rw [clientHelloExts_done rfl (by omega), hseen]
    rfl
  · rw [if_neg hnil] at hat hend
    refine ⟨p, [], hat, ?_⟩
    refine (commonExts_read (n := n + 1) hmsg hr hat B.group.id_lt (by omega) (by omega) hpsk
      (by simp [hseen]) (by simp [hseen])).trans ?_
    simp only [List.flatMap_nil, List.nil_append] at hend
    rw [clientHelloExts_done rfl (by omega), ← hseen]

/-! ### The message -/

/-- `ch` is what was offered. -/
structure OfferDecoded (B : Build) (msg sessionId pub : Bytes) (ch : ClientHello) : Prop where
  sessionId : ch.sessionIdLen = sessionId.length ∧
    ∃ off, ch.sessionId = some off ∧ At msg off sessionId
  keyShare : ch.haveKeyShare = true ∧ ch.group = B.group.id ∧ ch.keyShareLen = pub.length ∧
    ∃ off, ch.keyShare = some off ∧ At msg off pub
  cipher : ch.cipher = cipherAes128GcmSha256
  noPsk : ch.havePsk = false
  sigAlgs : ∀ scheme, ch.hasSigAlg msg scheme = true ↔ scheme ∈ offeredSchemes B

/-- `ch` has what the server answers of a ClientHello: the session id, the share and the cipher. -/
structure AnswerDecoded (B : Build) (msg sessionId pub : Bytes) (ch : ClientHello) : Prop where
  sessionId : ch.sessionIdLen = sessionId.length ∧
    ∃ off, ch.sessionId = some off ∧ At msg off sessionId
  keyShare : ch.haveKeyShare = true ∧ ch.group = B.group.id ∧ ch.keyShareLen = pub.length ∧
    ∃ off, ch.keyShare = some off ∧ At msg off pub
  cipher : ch.cipher = cipherAes128GcmSha256

theorem OfferDecoded.answer {B : Build} {msg sessionId pub : Bytes} {ch : ClientHello}
    (h : OfferDecoded B msg sessionId pub ch) : AnswerDecoded B msg sessionId pub ch :=
  ⟨h.sessionId, h.keyShare, h.cipher⟩

section Offered

variable {B : Build} {name pub random32 sessionId : Bytes}

theorem HelloExt.body_le {e : HelloExt} {exts : List HelloExt} (he : e ∈ exts) :
    e.body.length ≤ (exts.flatMap HelloExt.encode).length := by
  have hle := @length_le_flatMap _ HelloExt.encode _ _ he
  rw [e.encode_length] at hle
  exact Nat.le_of_add_left_le hle

theorem offerExts_length : ((offerExts B name pub).flatMap HelloExt.encode).length =
    (if name.length > 0 then 9 + name.length else 0) +
      (31 + 2 * (offeredSchemes B).length + pub.length) := by
  have hcommon := commonExts_length B.group.id (offeredSchemes B) pub
  rw [flatMap_u16_length] at hcommon
  have hflat : (offerExts B name pub).flatMap HelloExt.encode = _ ++
      (commonExts B.group.id (offeredSchemes B) pub).flatMap HelloExt.encode :=
    List.flatMap_append
  rw [hflat, List.length_append, hcommon]
  split
  · rw [List.flatMap_singleton, HelloExt.encode_length, vec16_length, List.length_cons,
      vec16_length]
    omega
  · rfl

theorem offerHello_sized (hrandom : random32.length = 32) (hsid : sessionId.length ≤ 32)
    (hpub : pub.length = B.group.pubSz) (hname : name.length ≤ 255) :
    (offerHello B name pub random32 sessionId).Sized := by
  have hlen : ((offerExts B name pub).flatMap HelloExt.encode).length < 2 ^ 16 := by
    have hcount := offeredSchemes_length B
    have hpubSz := B.group.pubSz_le
    rw [offerExts_length]
    split <;> omega
  refine ⟨hrandom, hsid, show 2 < 2 ^ 16 by decide, ?_, hlen⟩
  intro e he
  refine ⟨?_, (HelloExt.body_le he).trans_lt hlen⟩
  have htypes : e.type ∈
      [extServerName, extSupportedVer, extSupportedGrp, extSigAlgs, extKeyShare] := by
    have hmem : e ∈ _ ++ commonExts B.group.id (offeredSchemes B) pub := he
    rcases List.mem_append.1 hmem with hname | hcommon
    · split at hname
      · rw [List.mem_singleton.1 hname]
        exact List.mem_cons_self ..
      · cases hname
    · exact List.mem_cons_of_mem _ (List.mem_map_of_mem (f := HelloExt.type) hcommon)
  exact (show ∀ t ∈ [extServerName, extSupportedVer, extSupportedGrp, extSigAlgs, extKeyShare],
    t < 2 ^ 16 by decide) _ htypes

/-- A ClientHello with a name of at most 255 octets is short. -/
theorem offerHello_length_le
    (hrandom : random32.length = 32) (hsid : sessionId.length = 32)
    (hpub : pub.length = B.group.pubSz) (hname : name.length ≤ 255) :
    (offerHello B name pub random32 sessionId).encode.length ≤ 1604 := by
  have hs := offerHello_sized hrandom hsid.le hpub hname
  have hhead := hs.head_length
  have hexts := @offerExts_length B name pub
  have hschemes := offeredSchemes_length B
  have hpubSz := B.group.pubSz_le
  have hsidLen : (offerHello B name pub random32 sessionId).sessionId.length = 32 := hsid
  have hciphers : (offerHello B name pub random32 sessionId).ciphers.length = 2 := rfl
  have hsize := (offerHello B name pub random32 sessionId).encode_size
  have hat : (offerHello B name pub random32 sessionId).extsAt =
    4 + (offerHello B name pub random32 sessionId).head.length + 2 := rfl
  have hflat : (offerHello B name pub random32 sessionId).exts.flatMap HelloExt.encode =
    (offerExts B name pub).flatMap HelloExt.encode := rfl
  rw [hflat, hexts] at hsize
  split at hsize <;> omega

/-- The server accepts what was offered, and reads it back. -/
theorem offer_parsed (hrandom : random32.length = 32) (hsid : sessionId.length ≤ 32)
    (hpub : pub.length = B.group.pubSz) (hname : name.length ≤ 255) :
    ∃ ch, clientHelloParse B (offerHello B name pub random32 sessionId).encode = .ok ch ∧
      OfferDecoded B (offerHello B name pub random32 sessionId).encode sessionId pub ch := by
  have hs := @offerHello_sized B name pub random32 sessionId hrandom hsid hpub hname
  have hexts := hs.extsLen
  have hsize := (offerHello B name pub random32 sessionId).encode_size
  have hhead := hs.head_length
  have hextsAt : (offerHello B name pub random32 sessionId).extsAt =
    4 + (offerHello B name pub random32 sessionId).head.length + 2 := rfl
  have hat := (offerHello B name pub random32 sessionId).exts_at
  have hsidAt : At (offerHello B name pub random32 sessionId).encode 39 sessionId :=
    HelloParts.sessionId_at hrandom
  have hparse := @clientHelloParse_encode B _ hs rfl
  have hsidMax : (offerHello B name pub random32 sessionId).sessionId.length ≤ 32 := hsid
  have hciphers : (offerHello B name pub random32 sessionId).ciphers.length = 2 := rfl
  generalize (offerHello B name pub random32 sessionId).encode = msg at *
  generalize (offerHello B name pub random32 sessionId).extsAt = p at *
  obtain ⟨n, hn⟩ : ∃ n, msg.length = n + 5 := ⟨msg.length - 5, by omega⟩
  obtain ⟨q, seen, hcommon, hread⟩ := offerExts_read (n := n)
    { r := .upTo msg p
      out :=
        { sessionId := some 39, sessionIdLen := sessionId.length,
          cipher := cipherAes128GcmSha256 } }
    (by omega) rfl hat hsize.symm hname hpub rfl rfl
  rw [← hn] at hread
  obtain ⟨hsigAt, hpubAt⟩ := commonExts_at hcommon
  have hlen : ((offeredSchemes B).flatMap u16).length < 2 ^ 16 := by
    have hcount := offeredSchemes_length B
    rw [flatMap_u16_length]
    omega
  have hpass : ∀ {c : Prop} [Decidable c] {e : Err} {ch : ClientHello}, ¬ c →
      (failIf c e >>= fun _ => pure ch) = .ok ch := by
    intro c _ e ch hc
    have hgo : failIf c e = .ok () := failIf_eq_ok.2 hc
    rw [hgo]
    rfl
  refine ⟨_, hparse.trans ((congrArg (· >>= _) hread).trans (hpass ?_)), ?_⟩
  · simp [ClientHelloExts.withCommon, ClientHello.withShare, hpub, cipherAes128GcmSha256]
  · exact ⟨⟨rfl, 39, rfl, hsidAt⟩, ⟨rfl, rfl, rfl, _, rfl, hpubAt⟩, rfl, rfl,
      ClientHello.hasSigAlg_iff (offeredSchemes_lt B) hlen rfl rfl hsigAt⟩

end Offered

/-- What the certificate client writes, the server's parser reads as what was offered. -/
theorem offer_decoded (B : Build) (random32 sessionId pub : Bytes) (serverName : Option CStr)
    (cap : Nat) (hrandom : random32.length = 32) (hsid : sessionId.length ≤ 32)
    (hpub : pub.length = B.group.pubSz)
    (hname : ((serverName.map Subtype.val).getD []).length ≤ 255) :
    (cap < (offerHello B ((serverName.map Subtype.val).getD [])
      pub random32 sessionId).encode.length ∧
      clientHelloBuildEx B cap random32 sessionId sessionId.length pub serverName =
        .error .invalidArg) ∨
    ∃ msg ch, clientHelloBuildEx B cap random32 sessionId sessionId.length pub serverName =
    .ok msg ∧
      msg.length ≤ cap ∧ clientHelloParse B msg = .ok ch ∧ OfferDecoded B msg sessionId pub ch := by
  generalize hnameEq : (serverName.map Subtype.val).getD [] = name at hname ⊢
  obtain ⟨ch, hparse, hdecoded⟩ :=
    @offer_parsed B name pub random32 sessionId hrandom hsid hpub hname
  have hlen := (offerHello_sized hrandom hsid hpub hname).encode_lt
  obtain ⟨F, hF, hbuild⟩ := @clientHelloBuildEx_appends B name pub random32 sessionId hrandom
  generalize (offerHello B name pub random32 sessionId).encode = msg at *
  have hwritten : if msg.length ≤ cap then F (.init cap) = .wrote cap msg
      else (F (.init cap)).err = true := hF.init hlen
  have hchecks : ¬ (pub.length ≠ B.group.pubSz ∨ sessionId.length > 32 ∨ name.length > 255) := by
    omega
  rw [hbuild cap serverName hnameEq, if_neg hchecks]
  by_cases hroom : msg.length ≤ cap
  · rw [if_pos hroom] at hwritten
    refine .inr ⟨msg, ch, ?_, hroom, hparse, hdecoded⟩
    rw [hwritten]
    rfl
  · rw [if_neg hroom] at hwritten
    exact .inl ⟨Nat.not_le.1 hroom, if_pos hwritten⟩

theorem offer_decoded_sample : ∃ msg ch,
    clientHelloBuildEx Sample.platform.build 512 (zeros 32) (be 32 7) 32 (be 32 9)
      (some ⟨[104, 46, 105], by decide⟩) = .ok msg ∧ msg.length ≤ 512 ∧
        clientHelloParse Sample.platform.build msg = .ok ch ∧
          OfferDecoded Sample.platform.build msg (be 32 7) (be 32 9) ch := by
  rcases offer_decoded Sample.platform.build (zeros 32) (be 32 7) (be 32 9)
    (some ⟨[104, 46, 105], by decide⟩) 512 (by decide) (by decide) (by decide) (by decide)
    with ⟨hfull, -⟩ | hread
  · exact absurd hfull (by decide +kernel)
  · exact hread

end WolfNano
