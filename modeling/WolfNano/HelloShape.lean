/-
The extensions of a ClientHello: what the server's parser accepts, and when the vectors
inside fill what holds them.
-/
import WolfNano.HelloWalk
import WolfNano.Sample

namespace WolfNano

open Duplex

/-- An extension. -/
structure HelloExt where
  type : Nat
  body : Bytes
  deriving DecidableEq

def HelloExt.encode (e : HelloExt) : Bytes := u16 e.type ++ vec16 e.body

theorem HelloExt.encode_length (e : HelloExt) : e.encode.length = 4 + e.body.length := by
  rw [encode, List.length_append, vec16_length, u16_length]
  omega

/-- The vectors of an extension the server interprets fill it, and whole elements fill
them. -/
def HelloExt.WellFormed (e : HelloExt) : Prop :=
  (e.type = extKeyShare →
    ∃ shares : List KeyShareEntry, e.body = vec16 (shares.flatMap KeyShareEntry.encode)) ∧
  (e.type = extSigAlgs → ∃ list, e.body = vec16 list) ∧
  (e.type = extSupportedGrp → ∃ groups : List Nat, e.body = vec16 (groups.flatMap u16)) ∧
  (e.type = extSupportedVer → ∃ versions : List Nat, e.body = vec8 (versions.flatMap u16)) ∧
  (e.type = extPskKexModes → ∃ modes, e.body = vec8 modes) ∧
  (e.type = extPreShared → ∃ (ids : List PskIdentity) (binders : List Bytes),
    e.body = vec16 (ids.flatMap PskIdentity.encode) ++ vec16 (binders.flatMap vec8))

/-- The declared length of the key shares is the length of what follows it; those of the
groups and of the versions are even. -/
def HelloExt.Fits (e : HelloExt) : Prop :=
  (e.type = extKeyShare → ofBE (e.body.take 2) + 2 = e.body.length) ∧
  (e.type = extSupportedGrp → ofBE (e.body.take 2) % 2 = 0) ∧
  (e.type = extSupportedVer → ofBE (e.body.take 1) % 2 = 0)

/-- What the parser has read of an extension it accepts. -/
structure HelloExt.Walked (e : HelloExt) : Prop where
  body_lt : e.body.length < 2 ^ 16
  shares : e.type = extKeyShare → ∃ (n : Nat) (shares : List KeyShareEntry), n < 2 ^ 16 ∧
    e.body = u16 n ++ shares.flatMap KeyShareEntry.encode
  schemes : e.type = extSigAlgs → ∃ list, e.body = vec16 list
  groups : e.type = extSupportedGrp → ∃ (n : Nat) (groups : List Nat), n < 2 ^ 16 ∧
    groups.length = n / 2 ∧ e.body = u16 n ++ groups.flatMap u16
  versions : e.type = extSupportedVer → ∃ (n : Nat) (versions : List Nat), n < 2 ^ 8 ∧
    versions.length = n / 2 ∧ e.body = UInt8.ofNat n :: versions.flatMap u16
  modes : e.type = extPskKexModes → ∃ modes, e.body = vec8 modes
  preShared : e.type = extPreShared → ∃ (ids : List PskIdentity) (binders : List Bytes),
    e.body = vec16 (ids.flatMap PskIdentity.encode) ++ vec16 (binders.flatMap vec8)

theorem flatMap_u16_length (vs : List Nat) : (vs.flatMap u16).length = 2 * vs.length := by
  induction vs with
  | nil => rfl
  | cons v vs ih =>
      rw [List.flatMap_cons, List.length_append, ih, u16_length, List.length_cons]
      omega

theorem ofBE_take_vec16 {b : Bytes} (h : b.length < 2 ^ 16) :
    ofBE ((vec16 b).take 2) = b.length :=
  ofBE_u16 h

theorem ofBE_octet {n : Nat} (h : n < 2 ^ 8) (rest : Bytes) :
    ofBE ((UInt8.ofNat n :: rest).take 1) = n := by
  simp only [ofBE, List.take_succ_cons, List.take_zero, List.foldl_cons, List.foldl_nil,
    UInt8.toNat_ofNat']
  omega

/-- Of what the parser accepts, the three declared lengths decide. -/
theorem HelloExt.Walked.wellFormed_iff {e : HelloExt} (h : e.Walked) :
    e.WellFormed ↔ e.Fits := by
  have hlt := h.body_lt
  constructor
  · rintro ⟨hshares, -, hgroups, hversions, -, -⟩
    refine ⟨fun ht => ?_, fun ht => ?_, fun ht => ?_⟩
    · obtain ⟨shares, hbody⟩ := hshares ht
      rw [hbody, vec16_length] at hlt
      rw [hbody, ofBE_take_vec16 (by omega), vec16_length]
      omega
    · obtain ⟨groups, hbody⟩ := hgroups ht
      rw [hbody, vec16_length] at hlt
      rw [hbody, ofBE_take_vec16 (by omega), flatMap_u16_length]
      omega
    · obtain ⟨n, versions, hn, hcount, hwalk⟩ := h.versions ht
      obtain ⟨versions', hbody⟩ := hversions ht
      have hheads := hwalk.symm.trans hbody
      rw [vec8] at hheads
      have hlen := congrArg List.length (List.cons.inj hheads).2
      rw [flatMap_u16_length, flatMap_u16_length] at hlen
      rw [hbody, vec8, ofBE_octet (by rw [flatMap_u16_length]; omega), flatMap_u16_length]
      omega
  · rintro ⟨hshares, hgroups, hversions⟩
    refine ⟨fun ht => ?_, h.schemes, fun ht => ?_, fun ht => ?_, h.modes, h.preShared⟩
    · obtain ⟨n, shares, hn, hbody⟩ := h.shares ht
      have hfit := hshares ht
      rw [hbody, List.take_append_of_le_length (by simp), List.take_of_length_le (by simp),
        ofBE_u16 hn, List.length_append, u16_length] at hfit
      refine ⟨shares, ?_⟩
      rw [hbody, vec16]
      congr 2
      omega
    · obtain ⟨n, groups, hn, hcount, hbody⟩ := h.groups ht
      have hfit := hgroups ht
      rw [hbody, List.take_append_of_le_length (by simp), List.take_of_length_le (by simp),
        ofBE_u16 hn] at hfit
      refine ⟨groups, ?_⟩
      rw [hbody, vec16, flatMap_u16_length]
      congr 2
      omega
    · obtain ⟨n, versions, hn, hcount, hbody⟩ := h.versions ht
      have hfit := hversions ht
      rw [hbody, ofBE_octet hn] at hfit
      refine ⟨versions, ?_⟩
      rw [hbody, vec8, flatMap_u16_length]
      congr 2
      omega

/-! ### One extension -/

/-- `out` with the first identity and the first binder of a pre_shared_key whose body is at
`q`. -/
def ClientHello.withPsk (out : ClientHello) (q : Nat) (ids : List PskIdentity)
    (binders : List Bytes) : ClientHello :=
  let trunc := q + (vec16 (ids.flatMap PskIdentity.encode)).length
  { ({ out.withIdentity 0 (q + 2) ids with binderTruncLen := trunc } : ClientHello).withBinder 0
      (trunc + 2) binders with havePsk := true }

/-- A slice that was recorded lies in the message. -/
def Within (msg : Bytes) (off : Option Nat) (len : Nat) : Prop :=
  ∀ o, off = some o → o + len ≤ msg.length

/-- The recorded slices lie in the message. -/
structure ClientHello.Inside (msg : Bytes) (out : ClientHello) : Prop where
  sessionId : Within msg out.sessionId out.sessionIdLen
  keyShare : Within msg out.keyShare out.keyShareLen
  pskIdentity : Within msg out.pskIdentity out.pskIdentityLen
  binder : Within msg out.binder out.binderLen
  sigAlgs : Within msg out.sigAlgs out.sigAlgsLen

/-- What the loop's locals are after the body of `e`, which stands at `q`. -/
structure BodyRead (msg : Bytes) (q : Nat) (e : HelloExt) (st st' : ClientHelloExts) : Prop where
  walked : e.Walked
  inMsg : At msg q e.body
  reader : st'.r = .upTo msg (q + e.body.length)
  seenExt : st'.seenExt = st.seenExt
  inside : st.out.Inside msg → st'.out.Inside msg
  dhe : st'.havePskDhe = true → st.havePskDhe = true ∨
    e.type = extPskKexModes ∧ ∃ modes, e.body = vec8 modes ∧ 1 ∈ modes
  other : e.type ≠ extPreShared →
    st'.out.havePsk = st.out.havePsk ∧ st'.seenPsk = st.seenPsk
  psk : e.type = extPreShared → st'.seenPsk = true ∧
    ∃ (ids : List PskIdentity) (binders : List Bytes), ids ≠ [] ∧ ids.length = binders.length ∧
      e.body = vec16 (ids.flatMap PskIdentity.encode) ++ vec16 (binders.flatMap vec8) ∧
      st'.out = st.out.withPsk q ids binders

section Walk

variable {msg : Bytes} (hmsg : msg.length < 2 ^ 31)

include hmsg

theorem readPreShared_upTo {out : ClientHello} {q eEnd : Nat} (hq : q ≤ msg.length)
    (h : (readPreShared out (.upTo msg q) eEnd).2.err = false) :
    ∃ (ids : List PskIdentity) (binders : List Bytes), ids ≠ [] ∧ ids.length = binders.length ∧
      At msg q (vec16 (ids.flatMap PskIdentity.encode) ++ vec16 (binders.flatMap vec8)) ∧
      eEnd = q + (vec16 (ids.flatMap PskIdentity.encode) ++ vec16 (binders.flatMap vec8)).length ∧
      readPreShared out (.upTo msg q) eEnd = (out.withPsk q ids binders, .upTo msg eEnd) := by
  unfold readPreShared at h ⊢
  dsimp only at h ⊢
  obtain ⟨hcounts, hkeep⟩ := Reader.failWhen_noErr h
  rw [hkeep] at h ⊢
  have hbndLen := readBinders_noErr h
  obtain ⟨hbndEnd, hkeepBnd⟩ := Reader.failWhen_noErr hbndLen
  rw [hkeepBnd] at h hcounts hbndLen ⊢
  have hids := (Reader.uint_noErr hbndLen).1
  obtain ⟨hidsEnd, hkeepIds⟩ := Reader.endsAt_noErr hids
  rw [hkeepIds] at h hcounts hbndLen hbndEnd hids ⊢
  have hidsLen := readIdentities_noErr hids
  obtain ⟨hidsIn, hkeepLen⟩ := Reader.failWhen_noErr hidsLen
  rw [hkeepLen] at h hcounts hbndLen hbndEnd hids hidsEnd hidsLen ⊢
  -- the identities
  obtain ⟨idsLen, hidsLt, hidsLenAt, hidsLenRead⟩ := Reader.u16_read hmsg hq hidsLen
  rw [hidsLenRead] at h hcounts hbndLen hbndEnd hids hidsEnd ⊢
  have hq₂ : q + 2 ≤ msg.length := hidsLenAt.1
  simp only [Reader.upTo_pos, add32_eq (show q + 2 + idsLen < 2 ^ 32 by omega)]
    at h hcounts hbndLen hbndEnd hids hidsEnd ⊢
  obtain ⟨ids, hidsAt, hidsRead⟩ := readIdentities_upTo hmsg hq₂ (by omega) (by omega) hids
  rw [hidsRead] at h hcounts hbndLen hbndEnd hidsEnd ⊢
  simp only [Reader.upTo_pos] at h hcounts hbndLen hbndEnd hidsEnd ⊢
  have hidsFlat : (ids.flatMap PskIdentity.encode).length = idsLen := by omega
  have hvecIds : At msg q (vec16 (ids.flatMap PskIdentity.encode)) := by
    rw [vec16, hidsFlat]
    exact hidsLenAt.append hidsAt
  have htrunc : q + 2 + (ids.flatMap PskIdentity.encode).length =
      q + (vec16 (ids.flatMap PskIdentity.encode)).length := by
    rw [vec16_length]
    omega
  rw [htrunc] at h hcounts hbndLen hbndEnd ⊢
  -- the binders
  generalize hT : q + (vec16 (ids.flatMap PskIdentity.encode)).length = trunc at *
  obtain ⟨bndsLen, hbndsLt, hbndsLenAt, hbndsLenRead⟩ :=
    Reader.u16_read (p := trunc) hmsg (hT ▸ hvecIds.1) hbndLen
  rw [hbndsLenRead] at h hcounts hbndEnd ⊢
  have hT₂ : trunc + 2 ≤ msg.length := hbndsLenAt.1
  simp only [Reader.upTo_pos, add32_eq (show trunc + 2 + bndsLen < 2 ^ 32 by omega)]
    at h hcounts hbndEnd ⊢
  obtain ⟨binders, hbndsAt, hbndsRead⟩ := readBinders_upTo hmsg hT₂ (by omega) (by omega) h
  rw [hbndsRead] at hcounts ⊢
  simp only [Reader.upTo_pos, Nat.zero_add, Bool.or_eq_false_iff, bne_eq_false_iff_eq,
    beq_eq_false_iff_ne] at hcounts hbndEnd
  obtain ⟨⟨hend, hnonempty⟩, hcount⟩ := hcounts
  have hbndsFlat : (binders.flatMap vec8).length = bndsLen := by omega
  have hvecBnds : At msg trunc (vec16 (binders.flatMap vec8)) := by
    rw [vec16, hbndsFlat]
    exact hbndsLenAt.append hbndsAt
  refine ⟨ids, binders, ?_, hcount, ?_, ?_, ?_⟩
  · rintro rfl
    exact hnonempty rfl
  · refine hvecIds.append ?_
    rw [hT]
    exact hvecBnds
  · rw [List.length_append, ← Nat.add_assoc, hT, vec16_length]
    omega
  · rw [hend, hbndEnd, ClientHello.withPsk, hT]

omit hmsg in
theorem withPsk_inside {out : ClientHello} {q : Nat} {ids : List PskIdentity}
    {binders : List Bytes} (hids : ids ≠ []) (hcount : ids.length = binders.length)
    (hAt : At msg q (vec16 (ids.flatMap PskIdentity.encode) ++ vec16 (binders.flatMap vec8)))
    (h : out.Inside msg) : (out.withPsk q ids binders).Inside msg := by
  obtain ⟨id, ids, rfl⟩ := List.exists_cons_of_ne_nil hids
  obtain ⟨binder, binders, rfl⟩ : ∃ b bs, binders = b :: bs := by
    cases binders with
    | nil => cases hcount
    | cons b bs => exact ⟨b, bs, rfl⟩
  have hroom := hAt.1
  simp only [List.flatMap_cons, List.length_append, vec16_length, vec8_length,
    PskIdentity.encode_length] at hroom
  refine ⟨h.sessionId, h.keyShare, ?_, ?_, h.sigAlgs⟩
  · rintro o ho
    obtain rfl : q + 2 + 2 = o := Option.some.inj ho
    show q + 2 + 2 + id.identity.length ≤ msg.length
    omega
  · rintro o ho
    obtain rfl := Option.some.inj ho
    show q + (vec16 ((id :: ids).flatMap PskIdentity.encode)).length + 2 + 1 + binder.length ≤
      msg.length
    simp only [List.flatMap_cons, List.length_append, vec16_length, PskIdentity.encode_length]
    omega

theorem clientHelloExtBody_read {group et el q : Nat} (st : ClientHelloExts)
    (hr : st.r = .upTo msg q) (hq : q ≤ msg.length) (hel : el < 2 ^ 16)
    (herr : (clientHelloExtBody group st et el (q + el)).r.err = false)
    (hpos : (clientHelloExtBody group st et el (q + el)).r.pos = q + el) :
    ∃ body : Bytes, body.length = el ∧
      BodyRead msg q ⟨et, body⟩ st (clientHelloExtBody group st et el (q + el)) := by
  unfold clientHelloExtBody at herr hpos ⊢
  rw [hr] at herr hpos ⊢
  by_cases hshare : et = extKeyShare
  · subst hshare
    simp only [if_pos] at herr hpos ⊢
    have hvecErr := readShares_noErr herr
    obtain ⟨hin, hkeep⟩ := Reader.failWhen_noErr hvecErr
    rw [hkeep] at herr hpos hvecErr ⊢
    obtain ⟨n, hn, hnAt, hnRead⟩ := Reader.u16_read hmsg hq hvecErr
    rw [hnRead] at herr hpos ⊢
    simp only [Reader.upTo_pos, add32_eq (show q + 2 + n < 2 ^ 32 by omega)] at herr hpos ⊢
    have hq₂ : q + 2 ≤ msg.length := hnAt.1
    obtain ⟨shares, hAt, -, hread, hout⟩ := readShares_upTo hmsg hq₂ (by omega) herr
    rw [hread] at hpos ⊢
    rw [Reader.upTo_pos] at hpos
    have hlen : (u16 n ++ shares.flatMap KeyShareEntry.encode).length = el := by
      rw [List.length_append, u16_length]
      omega
    refine ⟨u16 n ++ shares.flatMap KeyShareEntry.encode, hlen, ?_, ?_, ?_, rfl, ?_, .inl, ?_, ?_⟩
    · refine ⟨hlen ▸ hel, fun _ => ⟨n, shares, hn, rfl⟩, ?_, ?_, ?_, ?_, ?_⟩
      all_goals exact fun ht => absurd ht (by dsimp only; decide)
    · exact hnAt.append hAt
    · rw [hlen, hpos]
    · intro hinside
      rcases hout with heq | ⟨off, len, hbound, heq⟩
      · rw [heq]
        exact hinside
      · rw [heq]
        refine ⟨hinside.1, ?_, hinside.3, hinside.4, hinside.5⟩
        rintro o ho
        obtain rfl := Option.some.inj ho
        exact hbound
    · intro _
      rcases hout with heq | ⟨off, len, hbound, heq⟩
      · rw [heq]
        exact ⟨rfl, rfl⟩
      · rw [heq]
        exact ⟨rfl, rfl⟩
    · exact fun ht => absurd ht (by dsimp only; decide)
  rw [if_neg hshare] at herr hpos ⊢
  by_cases hsig : et = extSigAlgs
  · subst hsig
    simp only [if_pos] at herr hpos ⊢
    obtain ⟨n, hn, hnAt, hnRead⟩ := Reader.u16_read hmsg hq (Reader.bytes_noErr herr).1
    rw [hnRead] at herr hpos ⊢
    obtain ⟨list, hlist, hAt, hread⟩ :=
      Reader.bytes_read (p := q + 2) hmsg hnAt.1 (Nat.lt_trans hn (by decide)) herr
    dsimp only at hpos ⊢
    rw [hread] at hpos ⊢
    rw [Reader.upTo_pos] at hpos
    have hlen : (vec16 list).length = el := by
      rw [vec16_length]
      omega
    have hvec : At msg q (vec16 list) := by
      rw [vec16, hlist]
      exact hnAt.append hAt
    refine ⟨vec16 list, hlen, ?_, hvec, ?_, rfl, ?_, .inl, fun _ => ⟨rfl, rfl⟩, ?_⟩
    · refine ⟨hlen ▸ hel, ?_, fun _ => ⟨list, rfl⟩, ?_, ?_, ?_, ?_⟩
      all_goals exact fun ht => absurd ht (by dsimp only; decide)
    · rw [hlen, ← hpos]
    · intro hinside
      refine ⟨hinside.1, hinside.2, hinside.3, hinside.4, ?_⟩
      rintro o ho
      obtain rfl := Option.some.inj ho
      rw [← hlist]
      exact hAt.1
    · exact fun ht => absurd ht (by dsimp only; decide)
  rw [if_neg hsig] at herr hpos ⊢
  by_cases hgroups : et = extSupportedGrp
  · subst hgroups
    simp only [if_pos] at herr hpos ⊢
    obtain ⟨n, hn, hnAt, hnRead⟩ := Reader.u16_read hmsg hq (readGroups_noErr herr)
    rw [hnRead] at herr hpos ⊢
    have hq₂ : q + 2 ≤ msg.length := hnAt.1
    simp only [Reader.upTo_pos, add32_eq (show q + 2 + n < 2 ^ 32 by omega)] at herr hpos ⊢
    obtain ⟨groups, hAt, hend, hle, hread⟩ := readGroups_upTo hmsg hq₂ (by omega) herr
    rw [hread] at hpos ⊢
    rw [Reader.upTo_pos] at hpos
    have hle := hle (by omega)
    have hlen : (u16 n ++ groups.flatMap u16).length = el := by
      rw [List.length_append, u16_length, flatMap_u16_length]
      omega
    refine ⟨u16 n ++ groups.flatMap u16, hlen, ?_, hnAt.append hAt, ?_, rfl, id, .inl,
      fun _ => ⟨rfl, rfl⟩, ?_⟩
    · refine ⟨hlen ▸ hel, ?_, ?_, fun _ => ⟨n, groups, hn, by omega, rfl⟩, ?_, ?_, ?_⟩
      all_goals exact fun ht => absurd ht (by dsimp only; decide)
    · rw [hlen, ← hpos]
    · exact fun ht => absurd ht (by dsimp only; decide)
  rw [if_neg hgroups] at herr hpos ⊢
  by_cases hversions : et = extSupportedVer
  · subst hversions
    simp only [if_pos] at herr hpos ⊢
    obtain ⟨n, hn, hnAt, hnRead⟩ := Reader.u8_read (readVersions_noErr herr)
    rw [hnRead] at herr hpos ⊢
    obtain ⟨versions, hAt, hcount, hread⟩ :=
      readVersions_upTo (p := q + 1) hmsg hnAt.1 (Nat.zero_le n) hn (by omega) herr
    dsimp only at hpos ⊢
    rw [hread] at hpos ⊢
    rw [Reader.upTo_pos] at hpos
    have hlen : (UInt8.ofNat n :: versions.flatMap u16).length = el := by
      rw [List.length_cons, flatMap_u16_length]
      omega
    refine ⟨UInt8.ofNat n :: versions.flatMap u16, hlen, ?_, hnAt.append hAt, ?_, rfl, id, .inl,
      fun _ => ⟨rfl, rfl⟩, ?_⟩
    · refine ⟨hlen ▸ hel, ?_, ?_, ?_, fun _ => ⟨n, versions, hn, hcount, rfl⟩, ?_, ?_⟩
      all_goals exact fun ht => absurd ht (by dsimp only; decide)
    · rw [hlen, ← hpos]
    · exact fun ht => absurd ht (by dsimp only; decide)
  rw [if_neg hversions] at herr hpos ⊢
  by_cases hmodes : et = extPskKexModes
  · subst hmodes
    simp only [if_pos] at herr hpos ⊢
    obtain ⟨n, hn, hnAt, hnRead⟩ := Reader.u8_read (readPskModes_noErr herr)
    rw [hnRead] at herr hpos ⊢
    obtain ⟨modes, hAt, hcount, hread, hdhe⟩ :=
      readPskModes_upTo (p := q + 1) hnAt.1 (Nat.zero_le n) hn (by omega) herr
    dsimp only at hpos hdhe ⊢
    rw [hread] at hpos ⊢
    rw [Reader.upTo_pos] at hpos
    have hvec : At msg q (vec8 modes) := by
      rw [vec8, hcount]
      exact hnAt.append hAt
    have hlen : (vec8 modes).length = el := by
      rw [vec8_length]
      omega
    refine ⟨vec8 modes, hlen, ?_, hvec, ?_, rfl, id, ?_, fun _ => ⟨rfl, rfl⟩, ?_⟩
    · refine ⟨hlen ▸ hel, ?_, ?_, ?_, ?_, fun _ => ⟨modes, rfl⟩, ?_⟩
      all_goals exact fun ht => absurd ht (by dsimp only; decide)
    · rw [hlen, ← hpos]
    · intro htrue
      rcases hdhe htrue with hbefore | hmem
      · exact .inl hbefore
      · exact .inr ⟨rfl, modes, rfl, hmem⟩
    · exact fun ht => absurd ht (by dsimp only; decide)
  rw [if_neg hmodes] at herr hpos ⊢
  by_cases hpsk : et = extPreShared
  · subst hpsk
    simp only [if_pos] at herr hpos ⊢
    obtain ⟨ids, binders, hids, hcount, hAt, hend, hread⟩ := readPreShared_upTo hmsg hq herr
    rw [hread]
    have hlen : (vec16 (ids.flatMap PskIdentity.encode) ++
        vec16 (binders.flatMap vec8)).length = el := by omega
    refine ⟨_, hlen, ?_, hAt, ?_, rfl, withPsk_inside hids hcount hAt, .inl, ?_, ?_⟩
    · refine ⟨hlen ▸ hel, ?_, ?_, ?_, ?_, ?_, fun _ => ⟨ids, binders, rfl⟩⟩
      all_goals exact fun ht => absurd ht (by dsimp only; decide)
    · rw [hlen]
    · exact fun ht => absurd rfl ht
    · exact fun _ => ⟨rfl, ids, binders, hids, hcount, rfl, rfl⟩
  · rw [if_neg hpsk] at herr hpos ⊢
    obtain ⟨body, hbody, hAt, hread⟩ :=
      Reader.bytes_read hmsg hq (Nat.lt_trans hel (by decide)) herr
    dsimp only
    rw [hread]
    refine ⟨body, hbody, ?_, hAt, rfl, rfl, id, .inl, fun _ => ⟨rfl, rfl⟩, ?_⟩
    · exact ⟨hbody ▸ hel, fun ht => absurd ht hshare, fun ht => absurd ht hsig,
        fun ht => absurd ht hgroups, fun ht => absurd ht hversions, fun ht => absurd ht hmodes,
        fun ht => absurd ht hpsk⟩
    · exact fun ht => absurd ht hpsk

/-! ### The list of extensions -/

/-- One round of the loop reads one extension. -/
theorem clientHelloExt_read {group p extEnd : Nat} {st st' : ClientHelloExts}
    (hr : st.r = .upTo msg p) (hp : p ≤ msg.length) (h : clientHelloExt group st extEnd = .ok st') :
    ∃ e : HelloExt, At msg p e.encode ∧ p + e.encode.length ≤ extEnd ∧
      st'.r = .upTo msg (p + e.encode.length) ∧ e.type < 2 ^ 16 ∧ e.type ∉ st.seenExt ∧
      st'.seenExt = st.seenExt ++ [e.type] ∧ st.seenPsk = false ∧
      BodyRead msg (p + 4) e st { st' with seenExt := st.seenExt } := by
  unfold clientHelloExt at h
  rw [hr] at h
  dsimp only at h
  split at h
  · cases h
  rename_i hguard
  simp only [not_or, Bool.not_eq_true] at hguard
  obtain ⟨herr, hin, hpsk, hfresh, -⟩ := hguard
  obtain ⟨et, het, htAt, htRead⟩ := Reader.u16_read hmsg hp (Reader.uint_noErr herr).1
  rw [htRead] at h herr hin hfresh
  obtain ⟨el, hel, hlAt, hlRead⟩ := Reader.u16_read (p := p + 2) hmsg htAt.1 herr
  dsimp only at h herr hin hfresh
  rw [hlRead] at h hin
  have hq : p + 4 ≤ msg.length := hlAt.1
  rw [Nat.add_assoc p 2 2] at h hin
  simp only [Reader.upTo_pos, add32_eq (show p + (2 + 2) + el < 2 ^ 32 by omega)] at h hin
  split at h
  · cases h
  rename_i hend
  obtain ⟨hbodyErr, hbodyEnd⟩ := not_or.1 hend
  obtain ⟨body, hbody, hread⟩ :=
    clientHelloExtBody_read (q := p + 4) hmsg { st with r := .upTo msg (p + 4) } rfl hq hel
      (Bool.eq_false_iff.2 hbodyErr) (not_not.1 hbodyEnd)
  generalize clientHelloExtBody group { st with r := .upTo msg (p + 4) } et el (p + 4 + el) = st₂
    at h hread
  cases h
  have hencLen : p + (HelloExt.encode ⟨et, body⟩).length = p + 4 + body.length := by
    rw [HelloExt.encode_length, Nat.add_assoc]
  refine ⟨⟨et, body⟩, ?_, ?_, ?_, het, hfresh, ?_, hpsk, ?_⟩
  · rw [HelloExt.encode, vec16, hbody]
    exact htAt.append (hlAt.append hread.inMsg)
  · rw [hencLen, hbody]
    omega
  · rw [hencLen]
    exact hread.reader
  · show st₂.seenExt ++ [et] = st.seenExt ++ [et]
    rw [hread.seenExt]
  · exact ⟨hread.walked, hread.inMsg, hread.reader, rfl, hread.inside, hread.dhe, hread.other,
      hread.psk⟩

/-- What the loop has read when it ends. -/
structure ExtsRead (msg : Bytes) (p : Nat) (exts : List HelloExt) (st st' : ClientHelloExts) :
    Prop where
  inMsg : At msg p (exts.flatMap HelloExt.encode)
  walked : ∀ e ∈ exts, e.Walked ∧ e.type < 2 ^ 16
  inside : st.out.Inside msg → st'.out.Inside msg
  dhe : st'.havePskDhe = true → st.havePskDhe = true ∨
    ∃ e ∈ exts, e.type = extPskKexModes ∧ ∃ modes, e.body = vec8 modes ∧ 1 ∈ modes
  /-- Nothing follows pre_shared_key. -/
  last : st.seenPsk = true → exts = [] ∧ st' = st
  psk : st.out.havePsk = false → st'.out.havePsk = true →
    ∃ (pre : List HelloExt) (psk : HelloExt) (ids : List PskIdentity) (binders : List Bytes)
      (out : ClientHello), exts = pre ++ [psk] ∧ psk.type = extPreShared ∧ ids ≠ [] ∧
      ids.length = binders.length ∧
      psk.body = vec16 (ids.flatMap PskIdentity.encode) ++ vec16 (binders.flatMap vec8) ∧
      st'.out = out.withPsk (p + (pre.flatMap HelloExt.encode).length + 4) ids binders

theorem clientHelloExts_read {group n p extEnd : Nat} {st st' : ClientHelloExts}
    (hr : st.r = .upTo msg p) (hp : p ≤ extEnd) (hend : extEnd ≤ msg.length)
    (hfuel : extEnd < p + n) (h : clientHelloExts group n st extEnd = .ok st') :
    ∃ exts : List HelloExt, p + (exts.flatMap HelloExt.encode).length = extEnd ∧
      ExtsRead msg p exts st st' := by
  induction n generalizing st p with
  | zero => omega
  | succ n ih =>
      unfold clientHelloExts at h
      by_cases hmore : st.r.pos < extEnd ∧ st.r.err = false
      · rw [if_pos hmore] at h
        obtain ⟨st₁, hone, hrest⟩ := except_bind_eq_ok.1 h
        obtain ⟨e, hAt, hin, hr₁, htype, -, -, hpsk, hbody⟩ :=
          clientHelloExt_read hmsg hr (by omega) hone
        have hlen := e.encode_length
        obtain ⟨exts, hlast, hexts⟩ := ih hr₁ hin (by omega) hrest
        refine ⟨e :: exts, ?_, ?_, ?_, ?_, ?_, ?_, ?_⟩
        · rw [List.flatMap_cons, List.length_append, ← Nat.add_assoc]
          exact hlast
        · rw [List.flatMap_cons]
          exact hAt.append hexts.inMsg
        · intro e' he'
          rcases List.mem_cons.1 he' with rfl | htail
          · exact ⟨hbody.walked, htype⟩
          · exact hexts.walked e' htail
        · exact fun hinside => hexts.inside (hbody.inside hinside)
        · intro htrue
          rcases hexts.dhe htrue with hbefore | ⟨e', he', hmodes⟩
          · rcases hbody.dhe hbefore with hbefore | hmodes
            · exact .inl hbefore
            · exact .inr ⟨e, List.mem_cons_self .., hmodes⟩
          · exact .inr ⟨e', List.mem_cons_of_mem _ he', hmodes⟩
        · exact fun hseen => absurd (hseen.symm.trans hpsk) (by decide)
        · intro hbefore hafter
          by_cases ht : e.type = extPreShared
          · obtain ⟨hseen, ids, binders, hids, hcount, hlists, hout⟩ := hbody.psk ht
            obtain ⟨rfl, rfl⟩ := hexts.last hseen
            exact ⟨[], e, ids, binders, st.out, rfl, ht, hids, hcount, hlists, hout⟩
          · obtain ⟨hsame, -⟩ := hbody.other ht
            obtain ⟨pre, psk, ids, binders, out, rfl, ht', hids, hcount, hlists, hout⟩ :=
              hexts.psk (hsame.trans hbefore) hafter
            refine ⟨e :: pre, psk, ids, binders, out, rfl, ht', hids, hcount, hlists, ?_⟩
            rw [hout, List.flatMap_cons, List.length_append, ← Nat.add_assoc]
      · rw [if_neg hmore] at h
        cases h
        rw [hr] at hmore
        have hstop : ¬ p < extEnd := fun hlt => hmore ⟨hlt, rfl⟩
        refine ⟨[], by simp; omega, At.nil (by omega), ?_, id, .inl, fun _ => ⟨rfl, rfl⟩, ?_⟩
        · exact fun e he => absurd he List.not_mem_nil
        · exact fun hbefore hafter => absurd (hbefore.symm.trans hafter) (by decide)

end Walk

/-! ### The message -/

/-- The parts of a ClientHello. -/
structure HelloParts where
  random : Bytes
  sessionId : Bytes
  ciphers : Bytes
  exts : List HelloExt
  deriving DecidableEq

/-- The body of a ClientHello up to its extensions. -/
def HelloParts.head (h : HelloParts) : Bytes :=
  u16 0x0303 ++ h.random ++ vec8 h.sessionId ++ vec16 h.ciphers ++ [1, 0]

def HelloParts.body (h : HelloParts) : Bytes :=
  h.head ++ vec16 (h.exts.flatMap HelloExt.encode)

def HelloParts.encode (h : HelloParts) : Bytes := [1] ++ u24 h.body.length ++ h.body

/-- Every part has a length its field can hold. -/
structure HelloParts.Sized (h : HelloParts) : Prop where
  random : h.random.length = 32
  sessionId : h.sessionId.length ≤ 32
  ciphers : h.ciphers.length < 2 ^ 16
  exts : ∀ e ∈ h.exts, e.type < 2 ^ 16 ∧ e.body.length < 2 ^ 16
  extsLen : (h.exts.flatMap HelloExt.encode).length < 2 ^ 16

/-- Where the extensions of a message of these parts begin. -/
def HelloParts.extsAt (h : HelloParts) : Nat := 4 + h.head.length + 2

/-- What is known of a message that parsed. -/
structure HelloParsed (B : Build) (msg : Bytes) (ch : ClientHello) (h : HelloParts) : Prop where
  sized : h.Sized
  encode : h.encode = msg
  length_lt : msg.length < 2 ^ 24 + 4
  walked : ∀ e ∈ h.exts, e.Walked
  inside : ch.Inside msg
  psk : ch.havePsk = true → ch.binderLen = 32 ∧
    (∃ e ∈ h.exts, e.type = extPskKexModes ∧ ∃ modes, e.body = vec8 modes ∧ 1 ∈ modes) ∧
    ∃ (pre : List HelloExt) (psk : HelloExt) (ids : List PskIdentity) (binders : List Bytes)
      (out : ClientHello), h.exts = pre ++ [psk] ∧ psk.type = extPreShared ∧ ids ≠ [] ∧
      ids.length = binders.length ∧
      psk.body = vec16 (ids.flatMap PskIdentity.encode) ++ vec16 (binders.flatMap vec8) ∧
      ch = out.withPsk (h.extsAt + (pre.flatMap HelloExt.encode).length + 4) ids binders

/-- A message that parsed is the encoding of its parts. -/
theorem clientHelloParse_ok {B : Build} {msg : Bytes} {ch : ClientHello}
    (h : clientHelloParse B msg = .ok ch) : ∃ parts, HelloParsed B msg ch parts := by
  let type := (Reader.init msg).u8
  let hsLen := type.2.u24
  let lver := hsLen.2.u16
  let random := lver.2.bytes 32
  let sidLen := random.2.u8
  let sid := sidLen.2.bytes sidLen.1
  let csLen := sid.2.u16
  let cipher := readCiphers (csLen.1 + 1) 0 csLen.1 0 csLen.2
  let compLen := cipher.2.u8
  let comp := compLen.2.u8
  let vecLen := comp.2.u16
  have hdef : clientHelloParse B msg =
      failIf (type.1 ≠ 1) .unexpectedMsg >>= fun _ =>
      failIf (add32 hsLen.2.pos hsLen.1 ≠ msg.length) .decode >>= fun _ =>
      failIf (lver.1 ≠ 0x0303 ∨ sidLen.1 > 32 ∨ csLen.1 % 2 ≠ 0) .decode >>= fun _ =>
      failIf (compLen.1 ≠ 1 ∨ comp.1 ≠ 0) .decode >>= fun _ =>
      failIf (vecLen.2.err = true ∨ add32 vecLen.2.pos vecLen.1 ≠ msg.length) .decode >>= fun _ =>
      clientHelloExts B.group.id msg.length
        { r := vecLen.2
          out := { sessionId := sid.1, sessionIdLen := sidLen.1, cipher := cipher.1 } }
        (add32 vecLen.2.pos vecLen.1) >>= fun st =>
      failIf (st.out.cipher = 0 ∨ st.haveTls13 = false ∨ st.haveGroups = false ∨
        st.groupOffered = false ∨
        (st.out.haveKeyShare = true ∧ st.out.keyShareLen ≠ B.group.pubSz) ∨
        (st.out.havePsk = true ∧ (st.out.binderLen ≠ 32 ∨ st.havePskDhe = false)))
        .illegalParam >>= fun _ => pure st.out := rfl
  rw [hdef] at h
  simp only [except_bind_eq_ok, except_pure_eq_ok, failIf_eq_ok] at h
  obtain ⟨_, htype, _, hlength, _, hbounds, _, hcomp, _, hvec, st, hexts, _, hfinal, rfl⟩ := h
  obtain ⟨herr, hextEnd⟩ := not_or.1 hvec
  have hvecErr : vecLen.2.err = false := Bool.eq_false_iff.2 herr
  have hcompErr : comp.2.err = false := (Reader.uint_noErr hvecErr).1
  have hcompLenErr : compLen.2.err = false := (Reader.u8_noErr hcompErr).1
  have hcipherErr : cipher.2.err = false := (Reader.u8_noErr hcompLenErr).1
  have hcsLenErr : csLen.2.err = false := readCiphers_noErr hcipherErr
  have hsidErr : sid.2.err = false := (Reader.uint_noErr hcsLenErr).1
  have hsidLenErr : sidLen.2.err = false := (Reader.bytes_noErr hsidErr).1
  have hrandomErr : random.2.err = false := (Reader.u8_noErr hsidLenErr).1
  have hlverErr : lver.2.err = false := (Reader.bytes_noErr hrandomErr).1
  have hhsLenErr : hsLen.2.err = false := (Reader.uint_noErr hlverErr).1
  have htypeErr : type.2.err = false := (Reader.uint_noErr hhsLenErr).1
  -- forward, with the place each part stands at
  obtain ⟨t, -, htAt, htRead⟩ := @Reader.u8_read msg 0 htypeErr
  have htypeEq : type = (t, .upTo msg 1) := htRead
  have hhsLenEq : hsLen = (Reader.upTo msg 1).u24 := congrArg (fun x => x.2.u24) htypeEq
  obtain ⟨n, hn, hnAt, hnRead⟩ := @Reader.u24_read msg 1 (by decide) (hhsLenEq ▸ hhsLenErr)
  replace hhsLenEq := hhsLenEq.trans hnRead
  rw [htypeEq] at htype
  rw [hhsLenEq] at hlength
  have hlen : 4 + n = msg.length := (add32_eq (show 4 + n < 2 ^ 32 by omega)).symm.trans
    (not_not.1 hlength)
  have hmsg : msg.length < 2 ^ 31 := by omega
  have hlverEq : lver = (Reader.upTo msg 4).u16 := congrArg (fun x => x.2.u16) hhsLenEq
  obtain ⟨l, hl, hlAt, hlRead⟩ := Reader.u16_read hmsg (by omega) (hlverEq ▸ hlverErr)
  replace hlverEq := hlverEq.trans hlRead
  have hrandomEq : random = (Reader.upTo msg 6).bytes 32 := congrArg (fun x => x.2.bytes 32) hlverEq
  obtain ⟨rnd, hrnd, hrndAt, hrndRead⟩ :=
    Reader.bytes_read hmsg hlAt.1 (by decide) (hrandomEq ▸ hrandomErr)
  rw [hrnd] at hrndRead
  replace hrandomEq := hrandomEq.trans hrndRead
  have hsidLenEq : sidLen = (Reader.upTo msg 38).u8 := congrArg (fun x => x.2.u8) hrandomEq
  obtain ⟨s, hs, hsAt, hsRead⟩ := Reader.u8_read (hsidLenEq ▸ hsidLenErr)
  replace hsidLenEq := hsidLenEq.trans hsRead
  have hsidEq : sid = (Reader.upTo msg 39).bytes s := congrArg (fun x => x.2.bytes x.1) hsidLenEq
  obtain ⟨sess, hsess, hsessAt, hsessRead⟩ :=
    Reader.bytes_read hmsg hsAt.1 (Nat.lt_trans hs (by decide)) (hsidEq ▸ hsidErr)
  replace hsidEq := hsidEq.trans hsessRead
  have hcsLenEq : csLen = (Reader.upTo msg (39 + sess.length)).u16 :=
    congrArg (fun x => x.2.u16) hsidEq
  obtain ⟨cs, hcs, hcsAt, hcsRead⟩ := Reader.u16_read hmsg hsessAt.1 (hcsLenEq ▸ hcsLenErr)
  replace hcsLenEq := hcsLenEq.trans hcsRead
  rw [hlverEq, hsidLenEq, hcsLenEq] at hbounds
  obtain ⟨hver, hrest⟩ := not_or.1 hbounds
  obtain ⟨hsidMax, heven⟩ := not_or.1 hrest
  have hcipherEq : cipher =
      readCiphers (cs + 1) 0 cs 0 (.upTo msg (39 + sess.length + 2)) :=
    congrArg (fun x => readCiphers (x.1 + 1) 0 x.1 0 x.2) hcsLenEq
  obtain ⟨ciphers, hciphersAt, hciphers, hciphersRead⟩ :=
    readCiphers_upTo (p := 39 + sess.length + 2) hmsg hcsAt.1 (Nat.zero_le cs) hcs
      (not_not.1 heven) (by omega) (hcipherEq ▸ hcipherErr)
  have hcipherEnd : cipher.2 = .upTo msg (39 + sess.length + 2 + ciphers.length) :=
    (congrArg Prod.snd hcipherEq).trans hciphersRead
  have hcompLenEq : compLen = (Reader.upTo msg (39 + sess.length + 2 + ciphers.length)).u8 :=
    congrArg Reader.u8 hcipherEnd
  obtain ⟨cl, hcl, hclAt, hclRead⟩ := Reader.u8_read (hcompLenEq ▸ hcompLenErr)
  replace hcompLenEq := hcompLenEq.trans hclRead
  have hcompEq : comp = (Reader.upTo msg (39 + sess.length + 2 + ciphers.length + 1)).u8 :=
    congrArg (fun x => x.2.u8) hcompLenEq
  obtain ⟨cm, hcm, hcmAt, hcmRead⟩ := Reader.u8_read (hcompEq ▸ hcompErr)
  replace hcompEq := hcompEq.trans hcmRead
  rw [hcompLenEq, hcompEq] at hcomp
  obtain ⟨hclOne, hcmZero⟩ := not_or.1 hcomp
  have hvecEq : vecLen = (Reader.upTo msg (39 + sess.length + 2 + ciphers.length + 1 + 1)).u16 :=
    congrArg (fun x => x.2.u16) hcompEq
  obtain ⟨v, hv, hvAt, hvRead⟩ := Reader.u16_read hmsg hcmAt.1 (hvecEq ▸ hvecErr)
  replace hvecEq := hvecEq.trans hvRead
  -- the extensions
  generalize hQ : 39 + sess.length + 2 + ciphers.length + 1 + 1 = Q at hvAt hvRead hvecEq
  have hroom : Q + 2 ≤ msg.length := hvAt.1
  rw [not_not.1 hextEnd] at hexts
  rw [hvecEq] at hextEnd
  have hvecEnd : Q + 2 + v = msg.length := (add32_eq (show Q + 2 + v < 2 ^ 32 by omega)).symm.trans
    (not_not.1 hextEnd)
  obtain ⟨exts, hextsLen, hread⟩ := clientHelloExts_read (p := Q + 2) hmsg
    (congrArg Prod.snd hvecEq) hroom (Nat.le_refl _) (by omega) hexts
  obtain rfl : t = 1 := not_not.1 htype
  obtain rfl : l = 0x0303 := not_not.1 hver
  obtain rfl : cl = 1 := not_not.1 hclOne
  obtain rfl : cm = 0 := not_not.1 hcmZero
  have hflat : (exts.flatMap HelloExt.encode).length = v := by omega
  let parts : HelloParts := ⟨rnd, sess, ciphers, exts⟩
  have hhead : parts.head.length = Q - 4 := by
    simp only [HelloParts.head, List.length_append, u16_length, vec8_length, vec16_length, hrnd,
      List.length_cons, List.length_nil, parts]
    omega
  have hsess39 : At msg 38 (vec8 sess) := by
    rw [vec8, hsess]
    exact hsAt.append_at hsessAt rfl
  have hciphers16 : At msg (39 + sess.length) (vec16 ciphers) := by
    rw [vec16, hciphers]
    exact hcsAt.append_at hciphersAt rfl
  have hexts16 : At msg Q (vec16 (exts.flatMap HelloExt.encode)) := by
    rw [vec16, hflat]
    exact hvAt.append_at hread.inMsg rfl
  have hheadAt : At msg 4 parts.head := by
    refine ((((hlAt.append_at hrndAt rfl).append_at hsess39 ?_).append_at hciphers16 ?_).append_at
      (hclAt.append_at hcmAt rfl) ?_)
    · rw [List.length_append, hrnd, u16_length]
    · simp only [List.length_append, hrnd, u16_length, vec8_length]
      omega
    · simp only [List.length_append, hrnd, u16_length, vec8_length, vec16_length]
      omega
  have hbodyAt : At msg 4 parts.body := hheadAt.append_at hexts16 (by omega)
  have hbodyLen : parts.body.length = n := by
    rw [HelloParts.body, List.length_append, hhead, vec16_length, hflat]
    omega
  have hencode : parts.encode = msg := by
    refine At.eq_self ?_ ?_
    · rw [HelloParts.encode, hbodyLen]
      exact (htAt.append_at hnAt rfl).append_at hbodyAt rfl
    · rw [HelloParts.encode, List.length_append, hbodyLen]
      exact hlen
  have hsidIn : ({ sessionId := sid.1, sessionIdLen := sidLen.1, cipher := cipher.1 } :
      ClientHello).Inside msg := by
    refine ⟨?_, ?_, ?_, ?_, ?_⟩
    · rintro o ho
      obtain rfl : 39 = o := by
        rw [hsidEq] at ho
        exact Option.some.inj ho
      rw [hsidLenEq]
      show 39 + s ≤ msg.length
      rw [← hsess]
      exact hsessAt.1
    all_goals exact fun o ho => nomatch ho
  refine ⟨parts, ⟨hrnd, ?_, hciphers ▸ hcs, ?_, by rw [hflat]; exact hv⟩, hencode, by omega,
    fun e he => (hread.walked e he).1, hread.inside hsidIn, ?_⟩
  · show sess.length ≤ 32
    rw [hsess]
    exact Nat.not_lt.1 hsidMax
  · exact fun e he => ⟨(hread.walked e he).2, (hread.walked e he).1.body_lt⟩
  · intro hpsk
    obtain ⟨pre, psk, ids, binders, out, hsplit, ht, hids, hcount, hlists, hout⟩ :=
      hread.psk rfl hpsk
    have hchecks : ¬ (st.out.binderLen ≠ 32 ∨ st.havePskDhe = false) := by
      intro hbad
      exact hfinal (.inr (.inr (.inr (.inr (.inr ⟨hpsk, hbad⟩)))))
    obtain ⟨hbinderLen, hdhe⟩ := not_or.1 hchecks
    refine ⟨not_not.1 hbinderLen, ?_, pre, psk, ids, binders, out, hsplit, ht, hids, hcount,
      hlists, ?_⟩
    · rcases hread.dhe (Bool.not_eq_false _ ▸ hdhe) with hbefore | hoffered
      · cases hbefore
      · exact hoffered
    · rw [hout, HelloParts.extsAt, hhead]
      congr 2
      omega

/-! ### One reading of a message -/

theorem vec8_append_inj {a b r s : Bytes} (ha : a.length < 2 ^ 8) (hb : b.length < 2 ^ 8)
    (h : vec8 a ++ r = vec8 b ++ s) : a = b ∧ r = s := by
  rw [vec8, vec8, List.cons_append, List.cons_append, List.cons.injEq] at h
  have hlen := congrArg UInt8.toNat h.1
  rw [UInt8.toNat_ofNat', UInt8.toNat_ofNat', Nat.mod_eq_of_lt ha, Nat.mod_eq_of_lt hb] at hlen
  exact List.append_inj h.2 hlen

theorem vec16_append_inj {a b r s : Bytes} (ha : a.length < 2 ^ 16) (hb : b.length < 2 ^ 16)
    (h : vec16 a ++ r = vec16 b ++ s) : a = b ∧ r = s := by
  rw [vec16, vec16, List.append_assoc, List.append_assoc] at h
  obtain ⟨hu16, hrest⟩ := List.append_inj h rfl
  have hlen := congrArg ofBE hu16
  rw [ofBE_u16 ha, ofBE_u16 hb] at hlen
  exact List.append_inj hrest hlen

theorem u16_inj {m n : Nat} (hm : m < 2 ^ 16) (hn : n < 2 ^ 16) (h : u16 m = u16 n) : m = n := by
  have hval := congrArg ofBE h
  rwa [ofBE_u16 hm, ofBE_u16 hn] at hval

theorem exts_encode_inj {exts exts' : List HelloExt}
    (hs : ∀ e ∈ exts, e.type < 2 ^ 16 ∧ e.body.length < 2 ^ 16)
    (hs' : ∀ e ∈ exts', e.type < 2 ^ 16 ∧ e.body.length < 2 ^ 16)
    (h : exts.flatMap HelloExt.encode = exts'.flatMap HelloExt.encode) : exts = exts' := by
  have hpos : ∀ (e : HelloExt) (rest : Bytes), e.encode ++ rest ≠ [] := by
    intro e rest hnil
    have hlen := congrArg List.length hnil
    rw [List.length_append, e.encode_length] at hlen
    exact absurd hlen (by simp)
  induction exts generalizing exts' with
  | nil =>
      cases exts' with
      | nil => rfl
      | cons e' exts' => exact absurd h.symm (hpos e' _)
  | cons e exts ih =>
      cases exts' with
      | nil => exact absurd h (hpos e _)
      | cons e' exts' =>
          rw [List.flatMap_cons, List.flatMap_cons, HelloExt.encode, HelloExt.encode,
            List.append_assoc, List.append_assoc] at h
          obtain ⟨ht, hbody⟩ := hs e (List.mem_cons_self ..)
          obtain ⟨ht', hbody'⟩ := hs' e' (List.mem_cons_self ..)
          obtain ⟨htypes, hrest⟩ := List.append_inj h rfl
          obtain ⟨hbodies, htail⟩ := vec16_append_inj hbody hbody' hrest
          have he : e = e' := by
            cases e
            cases e'
            exact HelloExt.mk.injEq .. ▸ ⟨u16_inj ht ht' htypes, hbodies⟩
          rw [he, ih (fun e he => hs e (List.mem_cons_of_mem _ he))
            (fun e he => hs' e (List.mem_cons_of_mem _ he)) htail]

/-- A message has one reading as parts. -/
theorem HelloParts.encode_inj {h h' : HelloParts} (hs : h.Sized) (hs' : h'.Sized)
    (heq : h.encode = h'.encode) : h = h' := by
  rw [encode, encode, List.append_assoc, List.append_assoc] at heq
  obtain ⟨-, hbody⟩ := List.append_inj (List.append_cancel_left heq) rfl
  simp only [body, head, List.append_assoc] at hbody
  obtain ⟨hrandom, hrest⟩ :=
    List.append_inj (List.append_cancel_left hbody) (hs.random.trans hs'.random.symm)
  obtain ⟨hsid, hrest⟩ := vec8_append_inj (Nat.lt_of_le_of_lt hs.sessionId (by decide))
    (Nat.lt_of_le_of_lt hs'.sessionId (by decide)) hrest
  obtain ⟨hciphers, hrest⟩ := vec16_append_inj hs.ciphers hs'.ciphers hrest
  have hexts := List.append_cancel_left hrest
  rw [← List.append_nil (vec16 _), ← List.append_nil (vec16 (h'.exts.flatMap _))] at hexts
  obtain ⟨hflat, -⟩ := vec16_append_inj hs.extsLen hs'.extsLen hexts
  have hexts := exts_encode_inj hs.exts hs'.exts hflat
  cases h
  cases h'
  exact HelloParts.mk.injEq .. ▸ ⟨hrandom, hsid, hciphers, hexts⟩

/-! ### The vectors of an accepted message -/

/-- Of a message that is accepted, every vector fills what holds it exactly when the declared
lengths of the key shares, of the groups and of the versions do. -/
theorem hello_vectors_fill {B : Build} {msg : Bytes} {ch : ClientHello}
    (h : clientHelloParse B msg = .ok ch) :
    (∃ parts : HelloParts, parts.Sized ∧ parts.encode = msg) ∧
      ∀ parts : HelloParts, parts.Sized → parts.encode = msg →
        ((∀ e ∈ parts.exts, e.WellFormed) ↔ ∀ e ∈ parts.exts, e.Fits) := by
  obtain ⟨parts, hparts⟩ := clientHelloParse_ok h
  refine ⟨⟨parts, hparts.sized, hparts.encode⟩, ?_⟩
  intro parts' hsized hencode
  obtain rfl := HelloParts.encode_inj hparts.sized hsized (hparts.encode.trans hencode.symm)
  constructor
  · exact fun hall e he => (hparts.walked e he).wellFormed_iff.1 (hall e he)
  · exact fun hall e he => (hparts.walked e he).wellFormed_iff.2 (hall e he)

/-- A ClientHello with one key share of 36 octets, declared as `n`. -/
def Sample.declared (n : Nat) : HelloParts where
  random := zeros 32
  sessionId := []
  ciphers := u16 cipherAes128GcmSha256
  exts :=
    [⟨extSupportedVer, [2, 3, 4]⟩, ⟨extSupportedGrp, [0, 2, 0, 29]⟩,
      ⟨extKeyShare, u16 n ++ u16 29 ++ vec16 (zeros 32)⟩]

theorem Sample.declared_sized (n : Nat) : (Sample.declared n).Sized := by
  refine ⟨zeros_length 32, Nat.zero_le _, show 2 < 2 ^ 16 by decide, ?_, show 57 < 2 ^ 16 by decide⟩
  intro e he
  simp only [Sample.declared, List.mem_cons, List.not_mem_nil, or_false] at he
  rcases he with rfl | rfl | rfl
  · decide
  · decide
  · exact ⟨show extKeyShare < 2 ^ 16 by decide, show 38 < 2 ^ 16 by decide⟩

theorem hello_vectors_fill_declared : ∃ ch,
    clientHelloParse Sample.platform.build (Sample.declared 36).encode = .ok ch ∧
      ∀ e ∈ (Sample.declared 36).exts, e.WellFormed := by
  have haccepted :
      (clientHelloParse Sample.platform.build (Sample.declared 36).encode).toOption.isSome =
      true := by
    decide +kernel
  cases hparse : clientHelloParse Sample.platform.build (Sample.declared 36).encode with
  | error e =>
      rw [hparse] at haccepted
      cases haccepted
  | ok ch =>
      refine ⟨ch, rfl, ((hello_vectors_fill hparse).2 _ (Sample.declared_sized 36) rfl).2 ?_⟩
      intro e he
      simp only [Sample.declared, List.mem_cons, List.not_mem_nil, or_false] at he
      rcases he with rfl | rfl | rfl
      · exact ⟨by decide, by decide, by decide⟩
      · exact ⟨by decide, by decide, by decide⟩
      · exact ⟨fun _ => by decide +kernel, by dsimp only; decide, by dsimp only; decide⟩

/-- A key share declared as one octet long overruns its vector and is accepted. -/
theorem hello_share_overruns : ¬ ∀ (B : Build) (msg : Bytes) (ch : ClientHello),
    clientHelloParse B msg = .ok ch → ∀ parts : HelloParts, parts.Sized → parts.encode = msg →
      ∀ e ∈ parts.exts, e.WellFormed := by
  intro hall
  have haccepted :
      (clientHelloParse Sample.platform.build (Sample.declared 1).encode).toOption.isSome =
      true := by
    decide +kernel
  cases hparse : clientHelloParse Sample.platform.build (Sample.declared 1).encode with
  | error e =>
      rw [hparse] at haccepted
      cases haccepted
  | ok ch =>
      have hshare := hall _ _ ch hparse _ (Sample.declared_sized 1) rfl
        ⟨extKeyShare, u16 1 ++ u16 29 ++ vec16 (zeros 32)⟩ (.tail _ (.tail _ (.head _)))
      obtain ⟨shares, hbody⟩ := hshare.1 rfl
      have hlen : 38 = 2 + (shares.flatMap KeyShareEntry.encode).length :=
        (congrArg List.length hbody).trans (vec16_length _)
      have hdeclared := ofBE_take_vec16 (b := shares.flatMap KeyShareEntry.encode) (by omega)
      rw [← hbody] at hdeclared
      have hone : 1 = (shares.flatMap KeyShareEntry.encode).length := hdeclared
      omega

end WolfNano
