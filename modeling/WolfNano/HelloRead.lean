/-
The server's parser on what the encoders write: each extension body, and the loop.
-/
import WolfNano.HelloBuild

namespace WolfNano

open Duplex

namespace Reader

variable {msg : Bytes} {p : Nat}

/-- The reader on a message it has read up to `p`: a byte that stands there is read and
passed. -/
theorem u8_at {v : Nat} (hv : v < 2 ^ 8) (h : At msg p [UInt8.ofNat v]) :
    (upTo msg p).u8 = (v, upTo msg (p + 1)) := by
  have hget := (At.cons_iff.1 h).1
  have hroom : p + 1 ≤ msg.length := h.1
  rw [u8_upTo, if_pos hroom, List.getD_eq_getElem?_getD, hget, Option.getD_some,
    UInt8.toNat_ofNat', Nat.mod_eq_of_lt hv]

/-- Three bytes that stand there. -/
theorem u24_at {v : Nat} (hp : p + 3 < 2 ^ 32) (hv : v < 2 ^ 24) (h : At msg p (Duplex.u24 v)) :
    (upTo msg p).u24 = (v, upTo msg (p + 3)) := by
  have hroom : p + 3 ≤ msg.length := h.1
  have hslice : slice msg p 3 = Duplex.u24 v := h.2
  unfold u24 uint
  rw [upTo_pos, add32_eq hp, if_pos (by simp [hroom])]
  rw [upTo_buf, hslice, ofBE_u24 hv]
  rfl

variable (hmsg : msg.length < 2 ^ 31)

include hmsg

/-- Two bytes that stand there. -/
theorem u16_at {v : Nat} (hv : v < 2 ^ 16) (h : At msg p (Duplex.u16 v)) :
    (upTo msg p).u16 = (v, upTo msg (p + 2)) := by
  have hroom : p + 2 ≤ msg.length := h.1
  have hslice : slice msg p 2 = Duplex.u16 v := h.2
  rw [u16_upTo hmsg (by omega), if_pos hroom, hslice, ofBE_u16 hv]

/-- A field that stands there is returned as the slice it is, and passed. -/
theorem bytes_at {b : Bytes} {n : Nat} (hn : b.length = n) (h : At msg p b) :
    (upTo msg p).bytes n = (some p, upTo msg (p + n)) := by
  have hroom : p + n ≤ msg.length := hn ▸ h.1
  unfold bytes
  rw [upTo_pos, add32_eq (by omega), if_pos (by simp [hroom])]
  rfl

end Reader

/-! ### The body of an extension -/

section Bodies

variable {msg : Bytes} {q group el eEnd : Nat} {st : ClientHelloExts} (hmsg : msg.length < 2 ^ 31)
  (hr : st.r = .upTo msg q)

include hmsg hr

/-- The parser passes the server name over: a server does not look at it. -/
theorem serverName_body {body : Bytes} (h : At msg q body) (hel : body.length = el) :
    clientHelloExtBody group st extServerName el eEnd = { st with r := .upTo msg (q + el) } := by
  have hdef : clientHelloExtBody group st extServerName el eEnd =
      { st with r := (st.r.bytes el).2 } := rfl
  rw [hdef, hr, Reader.bytes_at hmsg hel h]

/-- The supported_versions extension of a client that offers TLS 1.3 and nothing else. -/
theorem versions_body (h : At msg q (vec8 (u16 0x0304))) :
    clientHelloExtBody group st extSupportedVer el eEnd =
      { st with haveTls13 := true, r := .upTo msg (q + 3) } := by
  have hcount := Reader.u8_at (v := 2) (by decide) (At.left (b := [UInt8.ofNat 2]) h)
  have hversion := Reader.u16_at hmsg (v := 0x0304) (by decide) (At.right (b := [UInt8.ofNat 2]) h)
  have hloop : readVersions 3 0 2 st.haveTls13 (.upTo msg (q + 1)) = (true, .upTo msg (q + 3)) := by
    have hone : (Reader.upTo msg (q + 1)).u16 = (0x0304, .upTo msg (q + 3)) := hversion
    simp [readVersions, hone]
  have hdef : clientHelloExtBody group st extSupportedVer el eEnd =
      let count := st.r.u8
      let loop := readVersions (count.1 + 1) 0 count.1 st.haveTls13 count.2
      { st with haveTls13 := loop.1, r := loop.2 } := rfl
  rw [hdef, hr, hcount]
  dsimp only
  rw [hloop]

/-- The supported_groups extension with the group of the server alone. -/
theorem groups_body (hgroup : group < 2 ^ 16) (h : At msg q (vec16 (u16 group))) :
    clientHelloExtBody group st extSupportedGrp el eEnd =
      { st with haveGroups := true, groupOffered := true, r := .upTo msg (q + 4) } := by
  have hroom : q + 4 ≤ msg.length := h.1
  have hlen := Reader.u16_at hmsg (v := 2) (by decide) (At.left (b := u16 2) h)
  have hone : (Reader.upTo msg (q + 2)).u16 = (group, .upTo msg (q + 4)) :=
    Reader.u16_at hmsg hgroup (At.right (b := u16 2) h)
  have hloop : readGroups group 3 (q + 4) st.groupOffered (.upTo msg (q + 2)) =
      (true, .upTo msg (q + 4)) := by
    have hfirst : add32 (q + 2) 2 ≤ q + 4 := by
      rw [add32_eq (by omega)]
    have hlast : ¬ add32 (q + 4) 2 ≤ q + 4 := by
      rw [add32_eq (by omega)]
      omega
    simp [readGroups, hone, hfirst, hlast]
  have hend : add32 (q + 2) 2 = q + 4 := add32_eq (by omega)
  have hdef : clientHelloExtBody group st extSupportedGrp el eEnd =
      let len := st.r.u16
      let loop := readGroups group (len.1 + 1) (add32 len.2.pos len.1) st.groupOffered len.2
      { st with haveGroups := true, groupOffered := loop.1, r := loop.2 } := rfl
  rw [hdef, hr, hlen]
  dsimp only [Reader.upTo_pos]
  rw [hend, hloop]

/-- The signature_algorithms extension is not decoded, its list is remembered for later.
-/
theorem sigAlgs_body {list : Bytes} (hlist : list.length < 2 ^ 16) (h : At msg q (vec16 list)) :
    clientHelloExtBody group st extSigAlgs el eEnd =
      { st with
        out := { st.out with sigAlgs := some (q + 2), sigAlgsLen := list.length }
        r := .upTo msg (q + 2 + list.length) } := by
  have hlen := Reader.u16_at hmsg hlist (At.left (b := u16 list.length) h)
  have hread : (Reader.upTo msg (q + 2)).bytes list.length =
      (some (q + 2), .upTo msg (q + 2 + list.length)) :=
    Reader.bytes_at hmsg rfl (At.right (b := u16 list.length) h)
  have hdef : clientHelloExtBody group st extSigAlgs el eEnd =
      let len := st.r.u16
      let list := len.2.bytes len.1
      { st with out := { st.out with sigAlgs := list.1, sigAlgsLen := len.1 }, r := list.2 } := rfl
  rw [hdef, hr, hlen]
  dsimp only
  rw [hread]

/-- The key_share extension with one share, of the group of the server: the slice of the
share is remembered. -/
theorem share_body {pub : Bytes} (hgroup : group < 2 ^ 16) (hpub : 4 + pub.length < 2 ^ 16)
    (heEnd : eEnd = q + (6 + pub.length))
    (h : At msg q (vec16 (KeyShareEntry.encode ⟨group, pub⟩))) :
    clientHelloExtBody group st extKeyShare el eEnd =
      { st with
        out := st.out.withShare group (q + 6) pub.length
        r := .upTo msg (q + 6 + pub.length) } := by
  have hentry := KeyShareEntry.encode_length ⟨group, pub⟩
  have hroom := h.1
  rw [vec16_length, hentry] at hroom
  dsimp only at hentry hroom
  rw [vec16, hentry] at h
  have hvec := Reader.u16_at hmsg hpub (At.left (b := u16 (4 + pub.length)) h)
  have hinner : At msg (q + 2) (u16 group ++ (u16 pub.length ++ pub)) :=
    At.right (b := u16 (4 + pub.length)) h
  have hgroupRead := Reader.u16_at hmsg hgroup hinner.left
  have hlenRead := Reader.u16_at hmsg (v := pub.length) (by omega) hinner.right.left
  have hpubRead := Reader.bytes_at (n := pub.length) hmsg rfl hinner.right.right
  have hend : add32 (q + 2) (4 + pub.length) = q + 6 + pub.length := by
    rw [add32_eq (by omega)]
    omega
  have hloop : readShares group (4 + pub.length + 1) (q + 6 + pub.length) st.out
      (.upTo msg (q + 2)) =
      (st.out.withShare group (q + 6) pub.length, .upTo msg (q + 6 + pub.length)) := by
    have hmore : q + 2 < q + 6 + pub.length := by omega
    simp only [u16_length] at hgroupRead hlenRead hpubRead
    rw [show 4 + pub.length + 1 = 3 + pub.length + 1 + 1 by omega]
    simp [readShares, hmore, hgroupRead, hlenRead, hpubRead, ClientHello.withShare]
  have hdef : clientHelloExtBody group st extKeyShare el eEnd =
      let vec := st.r.u16
      let ksEnd := add32 vec.2.pos vec.1
      let loop := readShares group (vec.1 + 1) ksEnd st.out (vec.2.failWhen (ksEnd > eEnd))
      { st with out := loop.1, r := loop.2 } := rfl
  have hkeep : (Reader.upTo msg (q + 2)).failWhen (add32 (q + 2) (4 + pub.length) > eEnd) =
      .upTo msg (q + 2) := by
    rw [hend]
    exact if_neg (by simp; omega)
  rw [hdef, hr, hvec]
  show { st with
      out := (readShares group (4 + pub.length + 1) (add32 (q + 2) (4 + pub.length)) st.out
        ((Reader.upTo msg (q + 2)).failWhen (add32 (q + 2) (4 + pub.length) > eEnd))).1
      r := (readShares group (4 + pub.length + 1) (add32 (q + 2) (4 + pub.length)) st.out
        ((Reader.upTo msg (q + 2)).failWhen (add32 (q + 2) (4 + pub.length) > eEnd))).2 } = _
  rw [hkeep, hend, hloop]

omit hmsg in
/-- The psk_key_exchange_modes extension with psk_dhe_ke alone. -/
theorem modes_body (h : At msg q (vec8 [1])) :
    clientHelloExtBody group st extPskKexModes el eEnd =
      { st with havePskDhe := true, r := .upTo msg (q + 2) } := by
  have hcount := Reader.u8_at (v := 1) (by decide) (At.left (b := [UInt8.ofNat 1]) h)
  have hmode : (Reader.upTo msg (q + 1)).u8 = (1, .upTo msg (q + 2)) :=
    Reader.u8_at (v := 1) (by decide) (At.right (b := [UInt8.ofNat 1]) h)
  have hloop : readPskModes 2 0 1 st.havePskDhe (.upTo msg (q + 1)) =
      (true, .upTo msg (q + 2)) := by
    simp [readPskModes, hmode]
  have hdef : clientHelloExtBody group st extPskKexModes el eEnd =
      let count := st.r.u8
      let loop := readPskModes (count.1 + 1) 0 count.1 st.havePskDhe count.2
      { st with havePskDhe := loop.1, r := loop.2 } := rfl
  rw [hdef, hr, hcount]
  dsimp only
  rw [hloop]

/-- `out` with the one identity and its binder of a pre_shared_key whose body is at `q`. -/
def ClientHello.withOnePsk (out : ClientHello) (q idLen : Nat) : ClientHello :=
  { out with
    pskIdentity := some (q + 4), pskIdentityLen := idLen, binderTruncLen := q + 8 + idLen
    binder := some (q + 11 + idLen), binderLen := 32, havePsk := true }

/-- The pre_shared_key extension with one identity and one binder: both slices are
remembered, and the binders begin where the identities end. -/
theorem psk_body {identity binder : Bytes} (hpos : 1 ≤ identity.length)
    (hid : identity.length + 6 < 2 ^ 16) (hbinder : binder.length = 32)
    (heEnd : eEnd = q + (43 + identity.length)) (h : At msg q (pskOfferBody identity binder)) :
    clientHelloExtBody group st extPreShared el eEnd =
      { st with
        seenPsk := true
        out := st.out.withOnePsk q identity.length
        r := .upTo msg (q + (43 + identity.length)) } := by
  have hread : readPreShared st.out (.upTo msg q) eEnd =
      (st.out.withOnePsk q identity.length, .upTo msg (q + (43 + identity.length))) := by
    have hroom := h.1
    have hzeros : (zeros 4).length = 4 := rfl
    simp only [pskOfferBody, List.length_append, vec16_length, vec8_length, hbinder,
      hzeros] at hroom
    have hidsLen : (vec16 identity ++ zeros 4).length = identity.length + 6 := by
      rw [List.length_append, vec16_length, hzeros]
      omega
    have hids : At msg q (vec16 (vec16 identity ++ zeros 4)) := h.left
    have hbnds := h.right
    rw [vec16_length, hidsLen] at hbnds
    rw [vec16, hidsLen] at hids
    -- the identities
    have hlen := Reader.u16_at hmsg (by omega) hids.left
    have hone : At msg (q + 2) (u16 identity.length ++ (identity ++ zeros 4)) := by
      have hright := hids.right
      rw [vec16, List.append_assoc] at hright
      exact hright
    have hidLen := Reader.u16_at hmsg (v := identity.length) (by omega) hone.left
    have hidRead := Reader.bytes_at (n := identity.length) hmsg rfl hone.right.left
    have hage := Reader.bytes_at (n := 4) hmsg rfl hone.right.right
    simp only [u16_length] at hidLen hidRead hage
    have hidsEnd : add32 (q + 2) (identity.length + 6) = q + 8 + identity.length := by
      rw [add32_eq (by omega)]
      omega
    have hageEnd : q + 2 + 2 + identity.length + 4 = q + 8 + identity.length := by omega
    rw [hageEnd] at hage
    -- the binders
    have hbndsAt : At msg (q + 8 + identity.length) (u16 33 ++ ([UInt8.ofNat 32] ++ binder)) := by
      have hplace : q + (2 + (identity.length + 6)) = q + 8 + identity.length := by omega
      rw [hplace, vec16, vec8_length, hbinder, vec8, hbinder] at hbnds
      exact hbnds
    have hbndsLen := Reader.u16_at hmsg (v := 33) (by decide) hbndsAt.left
    have hbndLen := Reader.u8_at (v := 32) (by decide) hbndsAt.right.left
    have hbnd := Reader.bytes_at (n := 32) hmsg hbinder hbndsAt.right.right
    simp only [u16_length, List.length_singleton] at hbndLen hbnd
    have hbndEnd : add32 (q + 8 + identity.length + 2) 33 = eEnd := by
      rw [add32_eq (by omega)]
      omega
    have hidsLoop : readIdentities (identity.length + 6 + 1) (q + 8 + identity.length) 0 st.out
        (.upTo msg (q + 2)) = (1, { st.out with
          pskIdentity := some (q + 4), pskIdentityLen := identity.length },
          .upTo msg (q + 8 + identity.length)) := by
      have hmore : q + 2 < q + 8 + identity.length := by omega
      have hne : identity.length ≠ 0 := by omega
      rw [show identity.length + 6 + 1 = identity.length + 5 + 1 + 1 by omega]
      simp [readIdentities, hmore, hidLen, hidRead, hage, hne, Reader.failWhen]
    have hbndsLoop : ∀ out : ClientHello, readBinders (33 + 1) eEnd 0 out
        (.upTo msg (q + 8 + identity.length + 2)) = (1, { out with
          binder := some (q + 11 + identity.length), binderLen := 32 }, .upTo msg eEnd) := by
      intro out
      have hmore : q + 8 + identity.length + 2 < eEnd := by omega
      have hat : q + 8 + identity.length + 2 + 1 = q + 11 + identity.length := by omega
      have hlast : q + 11 + identity.length + 32 = eEnd := by omega
      rw [hat] at hbndLen hbnd
      rw [hlast] at hbnd
      simp [readBinders, hmore, hbndLen, hbnd]
    have hidsIn : decide (q + 8 + identity.length > eEnd) = false := by
      rw [decide_eq_false_iff_not]
      omega
    have hfinal : q + (43 + identity.length) = eEnd := heEnd.symm
    simp [readPreShared, hlen, hidsEnd, hidsIn, hidsLoop, hbndsLen, hbndEnd, hbndsLoop, hfinal,
      Reader.failWhen, Reader.endsAt, ClientHello.withOnePsk]
  have hdef : clientHelloExtBody group st extPreShared el eEnd =
      let read := readPreShared st.out st.r eEnd
      { st with seenPsk := true, out := read.1, r := read.2 } := rfl
  rw [hdef, hr, hread]

end Bodies

/-! ### The loop -/

section Loop

variable {msg : Bytes} {p group : Nat} {st st' : ClientHelloExts} (hmsg : msg.length < 2 ^ 31)
  (hr : st.r = .upTo msg p)

include hmsg hr

/-- One round: the body of an extension of a new type is read to its end. -/
theorem clientHelloExts_step {n : Nat} {e : HelloExt} (hat : At msg p e.encode)
    (htype : e.type < 2 ^ 16) (hbody : e.body.length < 2 ^ 16) (hpsk : st.seenPsk = false)
    (hfresh : e.type ∉ st.seenExt) (hcount : st.seenExt.length < 40)
    (hread : clientHelloExtBody group { st with r := .upTo msg (p + 4) } e.type e.body.length
      (p + 4 + e.body.length) = st') (hend : st'.r = .upTo msg (p + 4 + e.body.length)) :
    clientHelloExts group (n + 1) st msg.length =
      clientHelloExts group n { st' with seenExt := st'.seenExt ++ [e.type] } msg.length := by
  have hroom := hat.1
  rw [e.encode_length] at hroom
  have ht := Reader.u16_at hmsg htype (At.left (b := u16 e.type) hat)
  have hl : (Reader.upTo msg (p + 2)).u16 = (e.body.length, .upTo msg (p + 4)) :=
    Reader.u16_at hmsg hbody (At.left (b := u16 e.body.length) (At.right (b := u16 e.type) hat))
  have heEnd : add32 (p + 4) e.body.length = p + 4 + e.body.length := add32_eq (by omega)
  have hone : clientHelloExt group st msg.length =
      .ok { st' with seenExt := st'.seenExt ++ [e.type] } := by
    unfold clientHelloExt
    rw [hr, ht]
    simp only [hl, Reader.upTo_pos, Reader.upTo_err, heEnd, hread]
    rw [if_neg, if_neg]
    · rw [hend]
      simp
    · simp only [Bool.false_eq_true, hpsk, false_or, not_or]
      exact ⟨by omega, hfresh, by omega⟩
  rw [clientHelloExts, hr, if_pos ⟨by rw [Reader.upTo_pos]; omega, rfl⟩, hone]
  rfl

omit hmsg in
/-- At the end of the block the loop is done. -/
theorem clientHelloExts_done {n : Nat} (hp : p = msg.length) :
    clientHelloExts group n st msg.length = .ok st := by
  cases n with
  | zero => rfl
  | succ n =>
      unfold clientHelloExts
      rw [if_neg]
      rw [hr, Reader.upTo_pos]
      omega

end Loop

/-- The four extensions both clients offer. -/
def commonExts (group : Nat) (schemes : List Nat) (pub : Bytes) : List HelloExt :=
  [⟨extSupportedVer, vec8 (u16 0x0304)⟩, ⟨extSupportedGrp, vec16 (u16 group)⟩,
    ⟨extSigAlgs, vec16 (schemes.flatMap u16)⟩,
    ⟨extKeyShare, vec16 (KeyShareEntry.encode ⟨group, pub⟩)⟩]

/-- What the parser has found when it is past them. -/
def ClientHelloExts.withCommon (st : ClientHelloExts) (msg : Bytes) (p group sigLen pubLen : Nat) :
    ClientHelloExts :=
  { st with
    r := .upTo msg (p + 31 + sigLen + pubLen)
    out := ({ st.out with sigAlgs := some (p + 21), sigAlgsLen := sigLen } : ClientHello).withShare
      group (p + 31 + sigLen) pubLen
    seenExt := st.seenExt ++ [extSupportedVer, extSupportedGrp, extSigAlgs, extKeyShare]
    haveTls13 := true
    haveGroups := true
    groupOffered := true }

theorem commonExts_length (group : Nat) (schemes : List Nat) (pub : Bytes) :
    ((commonExts group schemes pub).flatMap HelloExt.encode).length =
      31 + (schemes.flatMap u16).length + pub.length := by
  simp only [commonExts, List.flatMap_cons, List.flatMap_nil, List.append_nil, List.length_append,
    HelloExt.encode_length, vec16_length, vec8_length, u16_length, KeyShareEntry.encode_length]
  omega

/-- The loop over the extensions every hello of this client has, one step for each of
them. -/
theorem commonExts_read {msg pub : Bytes} {p n group : Nat} {schemes : List Nat}
    {st : ClientHelloExts} (hmsg : msg.length < 2 ^ 31) (hr : st.r = .upTo msg p)
    (hat : At msg p ((commonExts group schemes pub).flatMap HelloExt.encode))
    (hgroup : group < 2 ^ 16) (hschemes : (schemes.flatMap u16).length + 2 < 2 ^ 16)
    (hpub : pub.length + 6 < 2 ^ 16) (hpsk : st.seenPsk = false) (hcount : st.seenExt.length < 36)
    (hfresh : ∀ t ∈ [extSupportedVer, extSupportedGrp, extSigAlgs, extKeyShare], t ∉ st.seenExt) :
    clientHelloExts group (n + 4) st msg.length =
      clientHelloExts group n (st.withCommon msg p group (schemes.flatMap u16).length pub.length)
        msg.length := by
  have hentry := KeyShareEntry.encode_length ⟨group, pub⟩
  dsimp only at hentry
  simp only [commonExts, List.flatMap_cons, List.flatMap_nil, List.append_nil] at hat
  have hver := hat.left
  have hgrpRest : At msg (p + 7) _ := hat.right
  have hgrp := hgrpRest.left
  have hsigRest : At msg (p + 15) _ := hgrpRest.right
  have hsig := hsigRest.left
  have hshare := hsigRest.right
  rw [HelloExt.encode_length, vec16_length,
    show ∀ k, p + 15 + (4 + (2 + k)) = p + 21 + k from fun k => by omega] at hshare
  have hbody : ∀ {e : HelloExt} {q : Nat}, At msg q e.encode → At msg (q + 4) e.body :=
    fun {e q} h => At.right (b := u16 e.body.length) (At.right (b := u16 e.type) h)
  have hgrpFresh := hfresh extSupportedGrp (by simp)
  have hsigFresh := hfresh extSigAlgs (by simp)
  have hshareFresh := hfresh extKeyShare (by simp)
  refine (clientHelloExts_step (n := n + 3) hmsg hr hver (by decide) (by decide)
    hpsk (hfresh _ (by simp)) (by omega) (versions_body hmsg rfl (hbody hver)) rfl).trans ?_
  refine (clientHelloExts_step (n := n + 2) (p := p + 7) hmsg ?_ hgrp ?_ ?_ ?_ ?_ ?_
    (groups_body hmsg rfl hgroup (hbody hgrp)) ?_).trans ?_
  · rfl
  · exact show extSupportedGrp < 2 ^ 16 by decide
  · exact show 4 < 2 ^ 16 by decide
  · exact hpsk
  · simp only [List.mem_append, List.mem_singleton, not_or]
    exact ⟨hgrpFresh, by decide⟩
  · simp only [List.length_append, List.length_singleton]
    omega
  · rfl
  refine (clientHelloExts_step (n := n + 1) (p := p + 15) hmsg ?_ hsig ?_ ?_ ?_ ?_ ?_
    (sigAlgs_body hmsg rfl (by omega) (hbody hsig)) ?_).trans ?_
  · rfl
  · exact show extSigAlgs < 2 ^ 16 by decide
  · rw [vec16_length]
    omega
  · exact hpsk
  · simp only [List.mem_append, List.mem_singleton, not_or]
    exact ⟨⟨hsigFresh, by decide⟩, by decide⟩
  · simp only [List.length_append, List.length_singleton]
    omega
  · dsimp only
    rw [vec16_length, ← Nat.add_assoc]
  refine (clientHelloExts_step (n := n) (p := p + 21 + (schemes.flatMap u16).length) hmsg ?_ hshare
    ?_ ?_ ?_ ?_ ?_ (share_body hmsg rfl hgroup (by omega) ?_ (hbody hshare)) ?_).trans ?_
  · rfl
  · exact show extKeyShare < 2 ^ 16 by decide
  · rw [vec16_length, hentry]
    omega
  · exact hpsk
  · simp only [List.mem_append, List.mem_singleton, not_or]
    exact ⟨⟨⟨hshareFresh, by decide⟩, by decide⟩, by decide⟩
  · simp only [List.length_append, List.length_singleton]
    omega
  · rw [vec16_length, hentry]
    omega
  · dsimp only
    rw [vec16_length, hentry]
    congr 1
    omega
  refine congrArg (fun s => clientHelloExts group n s msg.length) ?_
  simp only [ClientHelloExts.withCommon, ClientHello.withShare, List.append_assoc, List.cons_append,
    List.nil_append, show p + 15 + 4 + 2 = p + 21 from by omega,
    show p + 21 + (schemes.flatMap u16).length + 4 + 6 = p + 31 + (schemes.flatMap u16).length
      from by omega]

/-! ### The message -/

section Message

variable {B : Build} {h : HelloParts}

theorem HelloParts.Sized.head_length (hs : h.Sized) :
    h.head.length = 37 + h.sessionId.length + h.ciphers.length + 2 := by
  have hrandom := hs.random
  simp only [HelloParts.head, List.length_append, u16_length, vec8_length, vec16_length,
    List.length_cons, List.length_nil]
  omega

theorem HelloParts.encode_size :
    h.encode.length = h.extsAt + (h.exts.flatMap HelloExt.encode).length := by
  simp only [HelloParts.encode, HelloParts.body, HelloParts.extsAt, List.length_append,
    List.length_singleton, u24_length, vec16_length]
  omega

theorem HelloParts.Sized.encode_lt (hs : h.Sized) : h.encode.length < 2 ^ 32 := by
  have hhead := hs.head_length
  have hsid := hs.sessionId
  have hciphers := hs.ciphers
  have hexts := hs.extsLen
  rw [h.encode_size, HelloParts.extsAt]
  omega

theorem HelloParts.exts_at : At h.encode h.extsAt (h.exts.flatMap HelloExt.encode) := by
  refine At.of_eq_append ([1] ++ u24 h.body.length ++ h.head ++
    u16 (h.exts.flatMap HelloExt.encode).length) [] ?_ ?_
  · simp only [encode, body.eq_1 h, vec16, List.append_assoc, List.append_nil]
  · simp only [List.length_append, List.length_singleton, u24_length, u16_length, extsAt]

theorem HelloParts.sessionId_at (hrandom : h.random.length = 32) :
    At h.encode 39 h.sessionId := by
  refine At.of_eq_append ([1] ++ u24 h.body.length ++ u16 0x0303 ++ h.random ++
    [UInt8.ofNat h.sessionId.length]) (vec16 h.ciphers ++ [1, 0] ++
      vec16 (h.exts.flatMap HelloExt.encode)) ?_ ?_
  · simp only [encode, body.eq_1 h, head, vec8, List.append_assoc]
    rfl
  · simp only [List.length_append, List.length_singleton, u24_length, u16_length, hrandom]

/-- With one cipher suite, ours, the parser gets to the extensions. -/
theorem clientHelloParse_encode (hs : h.Sized) (hciphers : h.ciphers = u16 cipherAes128GcmSha256) :
    clientHelloParse B h.encode = (do
      let st ← clientHelloExts B.group.id h.encode.length
        { r := .upTo h.encode h.extsAt
          out :=
            { sessionId := some 39, sessionIdLen := h.sessionId.length
              cipher := cipherAes128GcmSha256 } } h.encode.length
      failIf (st.out.cipher = 0 ∨ st.haveTls13 = false ∨ st.haveGroups = false ∨
        st.groupOffered = false ∨
        (st.out.haveKeyShare = true ∧ st.out.keyShareLen ≠ B.group.pubSz) ∨
        (st.out.havePsk = true ∧ (st.out.binderLen ≠ 32 ∨ st.havePskDhe = false))) .illegalParam
      pure st.out) := by
  have hrandom := hs.random
  have hsid := hs.sessionId
  have hexts := hs.extsLen
  have hsize := h.encode_size
  have hhead := hs.head_length
  rw [hciphers, u16_length] at hhead
  have hextsAt : h.extsAt = 47 + h.sessionId.length := by
    rw [HelloParts.extsAt, hhead]
    omega
  have hmsg : h.encode.length < 2 ^ 31 := by omega
  have hbodyLen : h.body.length + 4 = h.encode.length := by
    simp only [HelloParts.encode, List.length_append, List.length_singleton, u24_length]
    omega
  generalize hmsgEq : h.encode = msg at hsize hmsg hbodyLen ⊢
  -- where the parts stand
  have hall : At msg 0 ([UInt8.ofNat 1] ++ (u24 h.body.length ++ (u16 0x0303 ++ (h.random ++
      ([UInt8.ofNat h.sessionId.length] ++ (h.sessionId ++ (u16 2 ++ (u16 cipherAes128GcmSha256 ++
        ([UInt8.ofNat 1] ++ ([UInt8.ofNat 0] ++
          (u16 (h.exts.flatMap HelloExt.encode).length ++
            h.exts.flatMap HelloExt.encode))))))))))) := by
    have heq : h.encode = _ := (List.append_assoc ..).trans (congrArg (fun b =>
      [UInt8.ofNat 1] ++ (u24 h.body.length ++ b)) (show h.body = u16 0x0303 ++ (h.random ++
      ([UInt8.ofNat h.sessionId.length] ++ (h.sessionId ++ (u16 2 ++ (u16 cipherAes128GcmSha256 ++
        ([UInt8.ofNat 1] ++ ([UInt8.ofNat 0] ++
          (u16 (h.exts.flatMap HelloExt.encode).length ++
            h.exts.flatMap HelloExt.encode)))))))) by
        rw [HelloParts.body, HelloParts.head, hciphers]
        simp only [vec8, vec16, u16_length, List.append_assoc]
        rfl))
    rw [← heq, hmsgEq]
    exact ⟨by omega, List.take_length⟩
  generalize hsidEq : h.sessionId.length = n at *
  generalize hflat : h.exts.flatMap HelloExt.encode = exts at *
  have htype : (Reader.init msg).u8 = (1, .upTo msg 1) := Reader.u8_at (by decide) hall.left
  have hlen : (Reader.upTo msg 1).u24 = (h.body.length, .upTo msg 4) :=
    Reader.u24_at (by decide) (by omega) hall.right.left
  have hlver : (Reader.upTo msg 4).u16 = (0x0303, .upTo msg 6) :=
    Reader.u16_at hmsg (by decide) hall.right.right.left
  have hrnd : (Reader.upTo msg 6).bytes 32 = (some 6, .upTo msg 38) :=
    Reader.bytes_at hmsg hrandom hall.right.right.right.left
  have hrest := hall.right.right.right.right
  rw [hrandom] at hrest
  have hsidLen : (Reader.upTo msg 38).u8 = (n, .upTo msg 39) := Reader.u8_at (by omega) hrest.left
  have hsess : (Reader.upTo msg 39).bytes n = (some 39, .upTo msg (39 + n)) :=
    Reader.bytes_at hmsg hsidEq hrest.right.left
  have hafter : At msg (39 + n) _ := hsidEq ▸ hrest.right.right
  obtain ⟨p, hp⟩ : ∃ p, p = 39 + n := ⟨_, rfl⟩
  rw [← hp] at hsess hafter
  have hcs : (Reader.upTo msg p).u16 = (2, .upTo msg (p + 2)) :=
    Reader.u16_at hmsg (by decide) hafter.left
  have hcipher : (Reader.upTo msg (p + 2)).u16 = (cipherAes128GcmSha256, .upTo msg (p + 4)) :=
    Reader.u16_at hmsg (by decide) hafter.right.left
  have hloop : readCiphers 3 0 2 0 (.upTo msg (p + 2)) =
      (cipherAes128GcmSha256, .upTo msg (p + 4)) := by
    simp [readCiphers, hcipher]
  have hcompLen : (Reader.upTo msg (p + 4)).u8 = (1, .upTo msg (p + 5)) :=
    Reader.u8_at (by decide) hafter.right.right.left
  have hcomp : (Reader.upTo msg (p + 5)).u8 = (0, .upTo msg (p + 6)) :=
    Reader.u8_at (by decide) hafter.right.right.right.left
  have hvec : (Reader.upTo msg (p + 6)).u16 = (exts.length, .upTo msg (p + 8)) :=
    Reader.u16_at hmsg hexts hafter.right.right.right.right.left
  have hhsEnd : add32 4 h.body.length = msg.length := by
    rw [add32_eq (by omega)]
    omega
  have hextEnd : add32 (p + 8) exts.length = msg.length := by
    rw [add32_eq (by omega)]
    omega
  have hplace : h.extsAt = p + 8 := by omega
  have hnot : ¬ n > 32 := Nat.not_lt.2 hsid
  rw [hplace]
  have hpass : ∀ {c : Prop} [Decidable c] {e : Err}, ¬ c → failIf c e = .ok () :=
    failIf_eq_ok.2
  simp only [clientHelloParse, htype, hlen, hlver, hrnd, hsidLen, hsess, hcs, hloop, hcompLen,
    hcomp, hvec, Reader.upTo_pos, Reader.upTo_err, hhsEnd, hextEnd]
  rw [hpass, hpass, hpass, hpass, hpass]
  · rfl
  all_goals simp
  omega

end Message

end WolfNano
