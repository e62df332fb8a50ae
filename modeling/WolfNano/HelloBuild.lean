/-
The two ClientHello encoders: what they write, and when it does not fit.
-/
import WolfNano.Writing
import WolfNano.HelloShape

namespace WolfNano

open Duplex

namespace Writer.Appends

theorem of_eq {f : Writer → Writer} {a b : Bytes} (h : Appends f a) (heq : a = b) : Appends f b :=
  heq ▸ h

/-- What a writer that starts empty has at the end. -/
theorem init {f : Writer → Writer} {b : Bytes} (h : Appends f b) (hb : b.length < 2 ^ 32)
    {cap : Nat} : if b.length ≤ cap then f (.init cap) = wrote cap b
      else (f (.init cap)).err = true := by
  have hsize : ([] : Bytes).length + b.length < 2 ^ 32 := by
    rw [List.length_nil, Nat.zero_add]
    exact hb
  by_cases hroom : b.length ≤ cap
  · rw [if_pos hroom, init_wrote, h.fits cap [] hsize (by simpa using hroom), List.nil_append]
  · rw [if_neg hroom, init_wrote]
    exact h.full cap [] hsize (Nat.zero_le _) (by simpa using hroom)

end Writer.Appends

theorem KeyShareEntry.encode_length (s : KeyShareEntry) : s.encode.length = 4 + s.key.length := by
  rw [encode, List.length_append, vec16_length, u16_length]
  omega

theorem keyShareExt_encode (group : Nat) (pub : Bytes) :
    HelloExt.encode ⟨extKeyShare, vec16 (KeyShareEntry.encode ⟨group, pub⟩)⟩ =
      u16 extKeyShare ++ u16 (6 + pub.length) ++ u16 (4 + pub.length) ++ u16 group ++
        u16 pub.length ++ pub := by
  have hentry := KeyShareEntry.encode_length ⟨group, pub⟩
  have hbody : (vec16 (KeyShareEntry.encode ⟨group, pub⟩)).length = 6 + pub.length := by
    rw [vec16_length, hentry, ← Nat.add_assoc]
  show u16 extKeyShare ++ (u16 (vec16 (KeyShareEntry.encode ⟨group, pub⟩)).length ++
    (u16 (KeyShareEntry.encode ⟨group, pub⟩).length ++ (u16 group ++ (u16 pub.length ++ pub)))) = _
  rw [hbody, hentry]
  simp only [List.append_assoc]

/-! ### The certificate client -/

section Offer

variable (B : Build) (name pub : Bytes)

/-- The extensions a certificate client offers; server_name when there is a name. -/
def offerExts : List HelloExt :=
  (if name.length > 0 then [⟨extServerName, vec16 (0 :: vec16 name)⟩] else []) ++
    [⟨extSupportedVer, vec8 (u16 0x0304)⟩, ⟨extSupportedGrp, vec16 (u16 B.group.id)⟩,
      ⟨extSigAlgs, vec16 ((offeredSchemes B).flatMap u16)⟩,
      ⟨extKeyShare, vec16 (KeyShareEntry.encode ⟨B.group.id, pub⟩)⟩]

def offerHello (random32 sessionId : Bytes) : HelloParts :=
  ⟨random32, sessionId, u16 cipherAes128GcmSha256, offerExts B name pub⟩

end Offer

section Encoders

variable {B : Build} {name pub random32 sessionId : Bytes}

open Writer.Appends in
/-- The calls of `wn_ClientHello_Build_ex` write the encoding of the parts. -/
theorem clientHelloBuildEx_appends (hrandom : random32.length = 32) :
    ∃ F : Writer → Writer, Writer.Appends F (offerHello B name pub random32 sessionId).encode ∧
      ∀ (cap : Nat) (serverName : Option CStr), (serverName.map Subtype.val).getD [] = name →
        clientHelloBuildEx B cap random32 sessionId sessionId.length pub serverName =
          if pub.length ≠ B.group.pubSz ∨ sessionId.length > 32 ∨ name.length > 255 then
            .error .invalidArg
          else if (F (.init cap)).err then .error .invalidArg else .ok (F (.init cap)).buf := by
  have hrandomBytes := bytes random32
  rw [hrandom] at hrandomBytes
  have hsid : Writer.Appends (fun w =>
      if sessionId.length > 0 then w.bytes (some sessionId) sessionId.length else w) sessionId := by
    by_cases hpos : sessionId.length > 0
    · simp only [if_pos hpos]
      exact bytes sessionId
    · simp only [if_neg hpos]
      obtain rfl : sessionId = [] := List.length_eq_zero_iff.1 (Nat.eq_zero_of_not_pos hpos)
      exact nil
  have hname : Writer.Appends (fun w =>
      if name.length > 0 then
        (((w.u16s [extServerName, 2 + 1 + 2 + name.length, 1 + 2 + name.length]).u8 0).u16
          name.length).bytes (some name) name.length
      else w)
      (if name.length > 0 then HelloExt.encode ⟨extServerName, vec16 (0 :: vec16 name)⟩
        else []) := by
    by_cases hpos : name.length > 0
    · simp only [if_pos hpos]
      refine ((((u16s _).comp (u8 0)).comp (u16 _)).comp (bytes name)).of_eq ?_
      have hlist : (0 :: vec16 name).length = 1 + 2 + name.length := by
        rw [List.length_cons, vec16_length]
        omega
      have hbody : (vec16 (0 :: vec16 name)).length = 2 + 1 + 2 + name.length := by
        rw [vec16_length, hlist]
        omega
      show _ = Duplex.u16 extServerName ++ (Duplex.u16 (vec16 (0 :: vec16 name)).length ++
        (Duplex.u16 (0 :: vec16 name).length ++ (0 :: vec16 name)))
      rw [hbody, hlist]
      rfl
    · simp only [if_neg hpos]
      exact nil
  have hversions := (((u16s [extSupportedVer, 3]).comp (u8 2)).comp (u16 0x0304)).of_eq
    (b := HelloExt.encode ⟨extSupportedVer, vec8 (Duplex.u16 0x0304)⟩) rfl
  have hgroups := (u16s [extSupportedGrp, 4, 2, B.group.id]).of_eq
    (b := HelloExt.encode ⟨extSupportedGrp, vec16 (Duplex.u16 B.group.id)⟩) rfl
  have hschemes :=
    ((Writer.Appends.u16 extSigAlgs).comp (block 2 (block 2 (u16s (offeredSchemes B))))).of_eq
      (b := HelloExt.encode ⟨extSigAlgs, vec16 ((offeredSchemes B).flatMap Duplex.u16)⟩) (by
      rw [be_two, be_two]
      rfl)
  have hshare := ((u16s [extKeyShare, 2 + 2 + 2 + pub.length, 2 + 2 + pub.length, B.group.id,
    pub.length]).comp (bytes pub)).of_eq
    (b := HelloExt.encode ⟨extKeyShare, vec16 (KeyShareEntry.encode ⟨B.group.id, pub⟩)⟩) (by
      rw [keyShareExt_encode]
      rfl)
  have hexts := block 2 ((((hname.comp hversions).comp hgroups).comp hschemes).comp hshare)
  have hbody :=
    block 3
      ((((((((Writer.Appends.u16 0x0303).comp hrandomBytes).comp (u8 sessionId.length)).comp
        hsid).comp (u16s [2, cipherAes128GcmSha256])).comp (u8 1)).comp (u8 0)).comp hexts)
  refine ⟨_, ((u8 1).comp hbody).of_eq ?_, ?_⟩
  · rw [be_two, be_three]
    have hflat : (offerExts B name pub).flatMap HelloExt.encode =
        (if name.length > 0 then HelloExt.encode ⟨extServerName, vec16 (0 :: vec16 name)⟩
          else []) ++
          HelloExt.encode ⟨extSupportedVer, vec8 (Duplex.u16 0x0304)⟩ ++
          HelloExt.encode ⟨extSupportedGrp, vec16 (Duplex.u16 B.group.id)⟩ ++
          HelloExt.encode ⟨extSigAlgs, vec16 ((offeredSchemes B).flatMap Duplex.u16)⟩ ++
          HelloExt.encode ⟨extKeyShare, vec16 (KeyShareEntry.encode ⟨B.group.id, pub⟩)⟩ := by
      rw [offerExts, List.flatMap_append]
      simp only [List.flatMap_cons, List.flatMap_nil, List.append_nil, List.append_assoc]
      refine congrArg (· ++ _) ?_
      split
      · simp
      · rfl
    rw [← hflat]
    have hcontents : (offerHello B name pub random32 sessionId).body =
        Duplex.u16 0x0303 ++ random32 ++ [UInt8.ofNat sessionId.length] ++ sessionId ++
          [2, cipherAes128GcmSha256].flatMap Duplex.u16 ++ [UInt8.ofNat 1] ++ [UInt8.ofNat 0] ++
            vec16 ((offerExts B name pub).flatMap HelloExt.encode) := by
      simp [HelloParts.body, HelloParts.head, offerHello, vec8, vec16]
    rw [HelloParts.encode, hcontents]
    exact (List.append_assoc ..).symm
  · rintro cap serverName rfl
    rfl

end Encoders

/-! ### The PSK client -/

/-- The schemes a PSK client offers. -/
def pskSchemes (B : Build) : List Nat :=
  (B.mldsa.map MldsaLevel.scheme).toList ++ [0x0807, 0x0403]

/-- The body of pre_shared_key: one identity of age 0, and its binder. -/
def pskOfferBody (identity binder : Bytes) : Bytes :=
  vec16 (vec16 identity ++ zeros 4) ++ vec16 (vec8 binder)

def pskOfferExts (B : Build) (pub identity binder : Bytes) : List HelloExt :=
  [⟨extSupportedVer, vec8 (u16 0x0304)⟩, ⟨extSupportedGrp, vec16 (u16 B.group.id)⟩,
    ⟨extSigAlgs, vec16 ((pskSchemes B).flatMap u16)⟩,
    ⟨extKeyShare, vec16 (KeyShareEntry.encode ⟨B.group.id, pub⟩)⟩,
    ⟨extPskKexModes, vec8 [1]⟩, ⟨extPreShared, pskOfferBody identity binder⟩]

def pskOffer (B : Build) (random32 sid pub identity binder : Bytes) : HelloParts :=
  ⟨random32, sid, u16 cipherAes128GcmSha256, pskOfferExts B pub identity binder⟩

section PskEncoder

variable {B : Build} {pub random32 sid identity : Bytes}

open Writer.Appends in
theorem pskSchemes_appends (B : Build) :
    Writer.Appends (fun w =>
      (match B.mldsa with
        | some level => (w.u16 13).u16s [8, 6, level.scheme]
        | none => (w.u16 13).u16s [6, 4]).u16s [0x0807, 0x0403])
      (HelloExt.encode ⟨extSigAlgs, vec16 ((pskSchemes B).flatMap Duplex.u16)⟩) := by
  unfold pskSchemes
  cases B.mldsa with
  | none =>
      exact (((Writer.Appends.u16 13).comp (u16s [6, 4])).comp (u16s [0x0807, 0x0403])).of_eq rfl
  | some level =>
      exact (((Writer.Appends.u16 13).comp (u16s [8, 6, level.scheme])).comp
        (u16s [0x0807, 0x0403])).of_eq rfl

open Writer.Appends in
/-- The calls of `build_client_hello` write the encoding of the parts, with a binder of zeros. -/
theorem buildClientHello_appends (hrandom : random32.length = 32) (hsid : sid.length = 32) :
    ∃ F T C : Writer → Writer,
      Writer.Appends F (pskOffer B random32 sid pub identity (zeros 32)).encode ∧
      (∃ b, Writer.Appends T b ∧
        b.length + 35 = (pskOffer B random32 sid pub identity (zeros 32)).encode.length) ∧
      (∃ b, Writer.Appends C b ∧
        b.length + 32 = (pskOffer B random32 sid pub identity (zeros 32)).encode.length) ∧
      ∀ w : Writer, buildClientHello B w random32 sid pub B.group.id identity =
        ⟨F w, (T w).len, (C w).len⟩ := by
  have hrandomBytes := bytes random32
  rw [hrandom] at hrandomBytes
  have hsidBytes := bytes sid
  rw [hsid] at hsidBytes
  have hversions := (((u16s [43, 3]).comp (u8 2)).comp (u16 0x0304)).of_eq
    (b := HelloExt.encode ⟨extSupportedVer, vec8 (Duplex.u16 0x0304)⟩) rfl
  have hgroups := (u16s [10, 4, 2, B.group.id]).of_eq
    (b := HelloExt.encode ⟨extSupportedGrp, vec16 (Duplex.u16 B.group.id)⟩) rfl
  have hschemes := pskSchemes_appends B
  have hshare := ((u16s [51, 6 + pub.length, 4 + pub.length, B.group.id, pub.length]).comp
    (bytes pub)).of_eq
      (b := HelloExt.encode ⟨extKeyShare, vec16 (KeyShareEntry.encode ⟨B.group.id, pub⟩)⟩) (by
        rw [keyShareExt_encode]
        rfl)
  have hmodes := (((u16s [45, 2]).comp (u8 1)).comp (u8 1)).of_eq
    (b := HelloExt.encode ⟨extPskKexModes, vec8 [1]⟩) rfl
  have hids := (block 2 (((Writer.Appends.u16 identity.length).comp (bytes identity)).comp
    (u16s [0, 0]))).of_eq (b := vec16 (vec16 identity ++ zeros 4)) (by
      rw [be_two]
      rfl)
  have hbinders := (((Writer.Appends.u16 33).comp (u8 32)).comp (blanks (List.range 32))).of_eq
    (b := vec16 (vec8 (zeros 32))) rfl
  have hpsk := ((Writer.Appends.u16 41).comp (block 2 (hids.comp hbinders))).of_eq
    (b := HelloExt.encode ⟨extPreShared, pskOfferBody identity (zeros 32)⟩) (by
      rw [be_two]
      rfl)
  have hbefore := (((hversions.comp hgroups).comp hschemes).comp hshare).comp hmodes
  have hexts := (block 2 (hbefore.comp hpsk)).of_eq
    (b := vec16 ((pskOfferExts B pub identity (zeros 32)).flatMap HelloExt.encode)) (by
      rw [be_two]
      refine congrArg vec16 ?_
      simp only [pskOfferExts, List.flatMap_cons, List.flatMap_nil, List.append_nil,
        List.append_assoc])
  have hhead := (((((((Writer.Appends.u16 0x0303).comp hrandomBytes).comp (u8 32)).comp
    hsidBytes).comp (u16s [2, 0x1301])).comp (u8 1)).comp (u8 0)).of_eq
      (b := (pskOffer B random32 sid pub identity (zeros 32)).head) (by
      simp [HelloParts.head, pskOffer, vec8, vec16, hsid]
      rfl)
  have hall := ((u8 1).comp (block 3 (hhead.comp hexts))).of_eq
    (b := (pskOffer B random32 sid pub identity (zeros 32)).encode) (by
      rw [be_three]
      exact (List.append_assoc ..).symm)
  -- with the length fields that are open still zero
  have htrunc := ((((((u8 1).comp (lenStart 3)).comp hhead).comp (lenStart 2)).comp hbefore).comp
    (Writer.Appends.u16 41)).comp (lenStart 2) |>.comp hids
  have hbinderOff := htrunc.comp ((Writer.Appends.u16 33).comp (u8 32))
  have hlength : (pskOffer B random32 sid pub identity (zeros 32)).encode.length =
      4 + ((pskOffer B random32 sid pub identity (zeros 32)).head.length +
        (2 + ((pskOfferExts B pub identity (zeros 32)).flatMap HelloExt.encode).length)) := by
    simp only [HelloParts.encode, HelloParts.body, List.length_append, vec16_length]
    rfl
  have hzeros : ∀ n, (zeros n).length = n := fun n => List.length_replicate
  refine ⟨_, _, _, hall, ⟨_, htrunc, ?_⟩, ⟨_, hbinderOff, ?_⟩, fun w => rfl⟩
  all_goals
    rw [hlength, pskOfferExts]
    simp only [List.length_append, List.flatMap_cons, List.flatMap_nil, List.length_nil,
      HelloExt.encode_length, List.length_singleton, hzeros, u16_length, vec16_length, vec8_length,
      pskOfferBody]
    omega

end PskEncoder

end WolfNano
