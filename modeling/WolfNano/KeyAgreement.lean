/-
A provider that two peers can agree over: no call of a handshake fails, and what one side
computes from its key and the other's share, the other computes from its own.
-/
import WolfNano.RetryRules

namespace WolfNano

open Duplex

/-- A key that was made on a curve, and its public value. -/
def Platform.DhPair (P : Platform) (c : Curve) (k : P.DhKey) (pub : Bytes) : Prop :=
  (∃ g g', P.dhMake c g = some (k, g')) ∧ P.dhPublic c k = some pub

/-- A KEM key that was made, and its public key. -/
def Platform.KemPair (P : Platform) (k : P.KemKey) (pub : Bytes) : Prop :=
  (∃ g g', P.kemMake g = some (k, g')) ∧ P.kemPublic k = some pub

/-- No wc_* call of a PSK handshake fails. -/
structure Platform.HandshakeOk (P : Platform) : Prop extends P.RecordOk, P.HashOk where
  rng : ∀ g n, (P.rngBlock g n).isSome = true
  hashInit : P.hashInit .sha256 = true
  extract : ∀ salt ikm, (P.hkdfExtract .sha256 salt ikm).isSome = true
  hmac : ∀ key msg, (P.hmac .sha256 key msg).isSome = true
  dhInit : ∀ c, P.dhInit c = true
  dhMake : ∀ c g, (P.dhMake c g).isSome = true
  dhPublic : ∀ c g k g', P.dhMake c g = some (k, g') → (P.dhPublic c k).isSome = true
  dhShared : ∀ c k pub k' pub', P.DhPair c k pub → P.DhPair c k' pub' →
    (P.dhShared c k pub').isSome = true
  kemInit : P.kemInit = true
  kemMake : ∀ g, (P.kemMake g).isSome = true
  kemPublic : ∀ g k g', P.kemMake g = some (k, g') → (P.kemPublic k).isSome = true
  kemEncap : ∀ k pub g, P.KemPair k pub → (P.kemEncap pub g).isSome = true
  kemDecap : ∀ k pub g ct ss g', P.KemPair k pub → P.kemEncap pub g = some ((ct, ss), g') →
    (P.kemDecap k ct).isSome = true

/-- Key agreement commutes. -/
structure Platform.KeysAgree (P : Platform) : Prop where
  dh : ∀ c k pub k' pub', P.DhPair c k pub → P.DhPair c k' pub' →
    P.dhShared c k pub' = P.dhShared c k' pub
  kem : ∀ k pub g ct ss g' ss', P.KemPair k pub → P.kemEncap pub g = some ((ct, ss), g') →
    P.kemDecap k ct = some ss' → ss' = ss

variable {P : Platform}

/-- A key share that was made, with the share its owner sends. -/
inductive KeyShare.Made : KeyShare P → Bytes → Prop
  | plain {k : P.DhKey} {pub : Bytes} (hgroup : P.build.group ≠ .x25519mlkem768)
      (hk : P.DhPair (dhCurve P) k pub) : Made ⟨P.build.group.id, none, some k⟩ pub
  | hybrid {kem : P.KemKey} {x : P.DhKey} {kemPub xPub : Bytes}
      (hgroup : P.build.group = .x25519mlkem768) (hkem : P.KemPair kem kemPub)
      (hx : P.DhPair .x25519 x xPub) :
      Made ⟨P.build.group.id, some kem, some x⟩ (kemPub ++ xPub)

theorem dhCurve_hybrid (hgroup : P.build.group = .x25519mlkem768) : dhCurve P = .x25519 := by
  unfold dhCurve
  rw [hgroup]

theorem dhCurve_pubSz (hgroup : P.build.group ≠ .x25519mlkem768) :
    (dhCurve P).pubSz = P.build.group.srvShareSz := by
  unfold dhCurve
  cases hg : P.build.group with
  | x25519 => rfl
  | secp256r1 => rfl
  | x25519mlkem768 => exact absurd hg hgroup

section Shares

variable (hP : P.HandshakeOk)
include hP

theorem dhGenerate_pair (rng : P.Rng) : ∃ k pub rng', dhGenerate P rng = .ok (k, pub, rng') ∧
    P.DhPair (dhCurve P) k pub := by
  obtain ⟨⟨k, rng'⟩, hmake⟩ := Option.isSome_iff_exists.1 (hP.dhMake (dhCurve P) rng)
  obtain ⟨pub, hpub⟩ := Option.isSome_iff_exists.1 (hP.dhPublic (dhCurve P) rng k rng' hmake)
  refine ⟨k, pub, rng', ?_, ⟨rng, rng', hmake⟩, hpub⟩
  exact except_bind_eq_ok.2 ⟨_, orCrypto_eq_ok.2 hmake,
    except_bind_eq_ok.2 ⟨_, orCrypto_eq_ok.2 hpub, rfl⟩⟩

theorem kemGenerate_pair (rng : P.Rng) : ∃ k pub rng', P.kemMake rng = some (k, rng') ∧
    P.kemPublic k = some pub ∧ P.KemPair k pub := by
  obtain ⟨⟨k, rng'⟩, hmake⟩ := Option.isSome_iff_exists.1 (hP.kemMake rng)
  obtain ⟨pub, hpub⟩ := Option.isSome_iff_exists.1 (hP.kemPublic rng k rng' hmake)
  exact ⟨k, pub, rng', hmake, hpub, ⟨rng, rng', hmake⟩, hpub⟩

theorem keyShareInit_ok : keyShareInit P P.build.group.id = .ok ⟨P.build.group.id, none, none⟩ := by
  unfold keyShareInit
  rw [if_neg (not_not.2 rfl)]
  cases P.build.group with
  | x25519mlkem768 => rfl
  | x25519 => exact if_pos (hP.dhInit _)
  | secp256r1 => exact if_pos (hP.dhInit _)

theorem hybridClientKeyShare_made (hgroup : P.build.group = .x25519mlkem768) (rng : P.Rng) :
    ∃ ks pub rng', hybridClientKeyShare P P.build.group.id rng = .ok (ks, pub, rng') ∧
      ks.Made pub := by
  obtain ⟨kem, kemPub, rng₁, hmake, hpub, hkem⟩ := kemGenerate_pair hP rng
  obtain ⟨x, xPub, rng₂, hgen, hx⟩ := dhGenerate_pair hP rng₁
  rw [dhCurve_hybrid hgroup] at hx
  refine ⟨_, _, rng₂, ?_, .hybrid hgroup hkem hx⟩
  unfold hybridClientKeyShare
  refine except_bind_eq_ok.2 ⟨(), if_pos hP.kemInit, ?_⟩
  refine except_bind_eq_ok.2 ⟨_, orCrypto_eq_ok.2 hmake, ?_⟩
  refine except_bind_eq_ok.2 ⟨_, orCrypto_eq_ok.2 hpub, ?_⟩
  refine except_bind_eq_ok.2 ⟨(), if_pos (hP.dhInit _), ?_⟩
  exact except_bind_eq_ok.2 ⟨_, hgen, rfl⟩

theorem keyShareGenerate_made (rng : P.Rng) : ∃ ks pub rng',
    keyShareGenerate P ⟨P.build.group.id, none, none⟩ rng = .ok (ks, pub, rng') ∧ ks.Made pub := by
  unfold keyShareGenerate
  rw [if_neg (not_not.2 rfl)]
  by_cases hgroup : P.build.group = .x25519mlkem768
  · obtain ⟨ks, pub, rng', hmade⟩ := hybridClientKeyShare_made hP hgroup rng
    refine ⟨ks, pub, rng', ?_, hmade.2⟩
    rw [← hmade.1]
    rw [hgroup]
  · obtain ⟨k, pub, rng', hgen, hk⟩ := dhGenerate_pair hP rng
    refine ⟨_, pub, rng', ?_, .plain hgroup hk⟩
    split
    · contradiction
    · exact except_bind_eq_ok.2 ⟨_, hgen, rfl⟩

end Shares

/-- On one curve. -/
theorem keyShareShared_plain (hP : P.HandshakeOk) (hgroup : P.build.group ≠ .x25519mlkem768)
    {k k' : P.DhKey} {pub pub' : Bytes} (hk : P.DhPair (dhCurve P) k pub)
    (hk' : P.DhPair (dhCurve P) k' pub') : ∃ secret,
      P.dhShared (dhCurve P) k pub' = some secret ∧
        keyShareShared P ⟨P.build.group.id, none, some k⟩ pub' = .ok secret := by
  obtain ⟨secret, hsecret⟩ := Option.isSome_iff_exists.1 (hP.dhShared _ k pub k' pub' hk hk')
  have hlen : ¬ pub'.length ≠ (dhCurve P).pubSz := not_not.2 (P.dhPublic_length hk'.2)
  refine ⟨secret, hsecret, ?_⟩
  unfold keyShareShared
  rw [if_neg (not_not.2 rfl)]
  split
  · contradiction
  · rw [if_neg hlen, if_pos (hP.dhInit _)]
    exact except_bind_eq_ok.2 ⟨k, rfl, orCrypto_eq_ok.2 hsecret⟩

theorem plainShares_agree (hP : P.HandshakeOk) (hagree : P.KeysAgree)
    (hgroup : P.build.group ≠ .x25519mlkem768) {k : P.DhKey} {pub : Bytes}
    (hk : P.DhPair (dhCurve P) k pub) (rng : P.Rng) : ∃ srvPub secret rng',
      keyShareServerShare P ⟨P.build.group.id, none, none⟩ pub rng = .ok (srvPub, secret, rng') ∧
        srvPub.length = P.build.group.srvShareSz ∧
        keyShareShared P ⟨P.build.group.id, none, some k⟩ srvPub = .ok secret := by
  obtain ⟨ks', srvPub, rng', hgen, hmade'⟩ := keyShareGenerate_made hP rng
  cases hmade' with
  | hybrid h => exact absurd h hgroup
  | @plain k' _ _ hk' =>
      obtain ⟨secret, hsecret, hours⟩ := keyShareShared_plain hP hgroup hk hk'
      obtain ⟨secret', hsecret', htheirs⟩ := keyShareShared_plain hP hgroup hk' hk
      obtain rfl : secret = secret' := Option.some.inj
        (hsecret.symm.trans ((hagree.dh _ _ _ _ _ hk hk').trans hsecret'))
      have hlen : srvPub.length = (dhCurve P).pubSz := P.dhPublic_length hk'.2
      refine ⟨srvPub, secret, rng', ?_, hlen.trans (dhCurve_pubSz hgroup), hours⟩
      unfold keyShareServerShare
      split
      · contradiction
      · refine except_bind_eq_ok.2 ⟨_, hgen, ?_⟩
        exact except_bind_eq_ok.2 ⟨_, htheirs, rfl⟩

theorem hybridShares_agree (hP : P.HandshakeOk) (hagree : P.KeysAgree)
    (hgroup : P.build.group = .x25519mlkem768) {kem : P.KemKey} {x : P.DhKey} {kemPub xPub : Bytes}
    (hkem : P.KemPair kem kemPub) (hx : P.DhPair .x25519 x xPub) (rng : P.Rng) :
    ∃ srvPub secret rng', keyShareServerShare P ⟨P.build.group.id, none, none⟩
      (kemPub ++ xPub) rng =
        .ok (srvPub, secret, rng') ∧
      srvPub.length = P.build.group.srvShareSz ∧
      keyShareShared P ⟨P.build.group.id, some kem, some x⟩ srvPub = .ok secret := by
  have hkemPub : kemPub.length = 1184 := P.kemPublic_length hkem.2
  have hxPub : xPub.length = 32 := P.dhPublic_length hx.2
  obtain ⟨⟨⟨ct, ssKem⟩, rng₁⟩, hencap⟩ :=
    Option.isSome_iff_exists.1 (hP.kemEncap kem kemPub rng hkem)
  obtain ⟨y, yPub, rng₂, hgen, hy⟩ := dhGenerate_pair hP rng₁
  rw [dhCurve_hybrid hgroup] at hy
  obtain ⟨ssX, hssX⟩ := Option.isSome_iff_exists.1 (hP.dhShared _ y yPub x xPub hy hx)
  obtain ⟨ssKem', hdecap⟩ := Option.isSome_iff_exists.1
    (hP.kemDecap kem kemPub rng ct ssKem rng₁ hkem hencap)
  obtain rfl : ssKem' = ssKem := hagree.kem _ _ _ _ _ _ _ hkem hencap hdecap
  have hct : ct.length = 1088 := (P.kemEncap_length hencap).1
  have hyPub : yPub.length = 32 := P.dhPublic_length hy.2
  have hsize : (ct ++ yPub).length = 1088 + 32 := by rw [List.length_append, hct, hyPub]
  refine ⟨ct ++ yPub, ssKem' ++ ssX, rng₂, ?_, ?_, ?_⟩
  · have hpub : (kemPub ++ xPub).length = 1184 + 32 := by
      rw [List.length_append, hkemPub, hxPub]
    unfold keyShareServerShare
    rw [hgroup]
    dsimp only
    rw [if_neg (not_not.2 rfl)]
    unfold hybridServerRespond
    rw [if_neg (not_not.2 hpub), if_pos hP.kemInit, List.take_left' hkemPub,
      List.drop_left' hkemPub]
    refine except_bind_eq_ok.2 ⟨_, orCrypto_eq_ok.2 hencap, ?_⟩
    dsimp only
    rw [if_pos (hP.dhInit _)]
    refine except_bind_eq_ok.2 ⟨_, hgen, ?_⟩
    exact except_bind_eq_ok.2 ⟨_, orCrypto_eq_ok.2 hssX, rfl⟩
  · rw [hsize, hgroup]
    rfl
  · unfold keyShareShared
    rw [if_neg (not_not.2 rfl)]
    split
    · unfold hybridClientShared
      rw [if_neg (not_not.2 hsize), List.take_left' hct, List.drop_left' hct]
      refine except_bind_eq_ok.2 ⟨kem, rfl, ?_⟩
      refine except_bind_eq_ok.2 ⟨_, orCrypto_eq_ok.2 hdecap, ?_⟩
      rw [if_pos (hP.dhInit _)]
      refine except_bind_eq_ok.2 ⟨x, rfl, ?_⟩
      have hsame := (hagree.dh _ _ _ _ _ hx hy).trans hssX
      exact except_bind_eq_ok.2 ⟨_, orCrypto_eq_ok.2 hsame, rfl⟩
    · contradiction

/-- What the server answers a share with, and that both sides then have the same secret. -/
theorem keyShares_agree (hP : P.HandshakeOk) (hagree : P.KeysAgree) {ks : KeyShare P} {pub : Bytes}
    (hmade : ks.Made pub) (rng : P.Rng) : ∃ srvPub secret rng',
      keyShareServerShare P ⟨P.build.group.id, none, none⟩ pub rng = .ok (srvPub, secret, rng') ∧
        srvPub.length = P.build.group.srvShareSz ∧ keyShareShared P ks srvPub = .ok secret := by
  cases hmade with
  | plain hgroup hk => exact plainShares_agree hP hagree hgroup hk rng
  | hybrid hgroup hkem hx => exact hybridShares_agree hP hagree hgroup hkem hx rng

/-! ### The key schedule -/

section Schedule

variable (hP : P.HandshakeOk)
include hP

theorem Platform.HandshakeOk.extracted (salt ikm : Bytes) :
    ∃ prk, tls13Extract P salt ikm .sha256 = .ok prk := by
  obtain ⟨prk, hprk⟩ := Option.isSome_iff_exists.1 (hP.extract salt ikm)
  refine ⟨prk, ?_⟩
  have hdigest : ¬ digestSize P .sha256 = 0 := Nat.succ_ne_zero 31
  rw [tls13Extract, if_neg hdigest, hprk]
  rfl

theorem Platform.HandshakeOk.expanded {n : Nat} (hn : n ≤ 32) (secret info : Bytes)
    (label : String) :
    ∃ okm, tls13ExpandLabel P n secret label info .sha256 = .ok okm ∧ okm.length = n := by
  have hdigest : digestSize P .sha256 = 32 := rfl
  exact hP.toRecordOk.expandLabel (by omega) (by omega)

theorem Platform.HandshakeOk.derived (secret th : Bytes) (label : String) :
    ∃ okm, tls13DeriveSecret P secret label th 32 .sha256 = .ok okm := by
  obtain ⟨okm, hokm, -⟩ := hP.expanded (Nat.le_refl 32) secret th label
  have hsize : ¬ 32 ≠ digestSize P .sha256 := not_not.2 rfl
  refine ⟨okm, ?_⟩
  rw [tls13DeriveSecret, if_neg hsize]
  exact hokm

theorem Platform.HandshakeOk.finishedMac (key th : Bytes) :
    ∃ mac, tls13FinishedMac P key th 32 .sha256 = .ok mac := by
  obtain ⟨finishedKey, hkey, -⟩ := hP.expanded (Nat.le_refl 32) key [] "finished"
  obtain ⟨mac, hmac⟩ := Option.isSome_iff_exists.1 (hP.hmac finishedKey th)
  refine ⟨mac, ?_⟩
  have hsize : ¬ (32 = 0 ∨ 32 ≠ digestSize P .sha256) := by
    rintro (h | h)
    · cases h
    · exact h rfl
  rw [tls13FinishedMac, if_neg hsize]
  refine except_bind_eq_ok.2 ⟨finishedKey, hkey, ?_⟩
  rw [hmac]
  rfl

theorem Platform.HandshakeOk.transcriptHash (msg : Bytes) : ∃ hash, sha256Hash P msg = .ok hash ∧
    (⟨.sha256, msg⟩ : Transcript).getHash P = .ok hash := by
  obtain ⟨hash, hhash⟩ := hP.toHashOk.hashed msg
  exact ⟨hash, hhash, hhash⟩

/-- The keys the AEAD takes. -/
def HsKeys.Proper (keys : HsKeys) : Prop :=
  (TrafficKeys.mk keys.cHs keys.cKey keys.cIv).Proper ∧
    (TrafficKeys.mk keys.sHs keys.sKey keys.sIv).Proper

theorem Platform.HandshakeOk.hsKeys (early ecdhe emptyHash th : Bytes) :
    ∃ keys, deriveHsKeys P early ecdhe emptyHash th = .ok keys ∧ keys.Proper := by
  obtain ⟨derived, hderived⟩ := hP.derived early emptyHash "derived"
  obtain ⟨hs, hhs⟩ := hP.extracted derived ecdhe
  obtain ⟨cHs, hcHs⟩ := hP.derived hs th "c hs traffic"
  obtain ⟨sHs, hsHs⟩ := hP.derived hs th "s hs traffic"
  obtain ⟨cKey, hcKey, hcKeyLen⟩ := hP.expanded (show 16 ≤ 32 by decide) cHs [] "key"
  obtain ⟨cIv, hcIv, hcIvLen⟩ := hP.expanded (show 12 ≤ 32 by decide) cHs [] "iv"
  obtain ⟨sKey, hsKey, hsKeyLen⟩ := hP.expanded (show 16 ≤ 32 by decide) sHs [] "key"
  obtain ⟨sIv, hsIv, hsIvLen⟩ := hP.expanded (show 12 ≤ 32 by decide) sHs [] "iv"
  refine ⟨⟨hs, cHs, sHs, cKey, cIv, sKey, sIv⟩, ?_, ⟨hcKeyLen, hcIvLen⟩, hsKeyLen, hsIvLen⟩
  unfold deriveHsKeys
  refine except_bind_eq_ok.2 ⟨_, hderived, ?_⟩
  refine except_bind_eq_ok.2 ⟨_, hhs, ?_⟩
  refine except_bind_eq_ok.2 ⟨_, hcHs, ?_⟩
  refine except_bind_eq_ok.2 ⟨_, hsHs, ?_⟩
  refine except_bind_eq_ok.2 ⟨_, hcKey, ?_⟩
  refine except_bind_eq_ok.2 ⟨_, hcIv, ?_⟩
  refine except_bind_eq_ok.2 ⟨_, hsKey, ?_⟩
  exact except_bind_eq_ok.2 ⟨_, hsIv, rfl⟩

theorem Platform.HandshakeOk.appTraffic (master th : Bytes) (label : String) :
    ∃ t, appTraffic P master label th = .ok t ∧ t.Proper := by
  obtain ⟨secret, hsecret⟩ := hP.derived master th label
  obtain ⟨key, hkey, hkeyLen⟩ := hP.expanded (show 16 ≤ 32 by decide) secret [] "key"
  obtain ⟨iv, hiv, hivLen⟩ := hP.expanded (show 12 ≤ 32 by decide) secret [] "iv"
  refine ⟨⟨secret, key, iv⟩, ?_, hkeyLen, hivLen⟩
  refine except_bind_eq_ok.2 ⟨_, hsecret, ?_⟩
  refine except_bind_eq_ok.2 ⟨_, hkey, ?_⟩
  exact except_bind_eq_ok.2 ⟨_, hiv, rfl⟩

/-- The two ends of a handshake fill in their sessions alike. -/
theorem sessions_mirror (sess sess' : Session) (hs emptyHash th : Bytes)
    (scratchLen scratchLen' : Nat) :
    ∃ our peer : TrafficKeys, our.Proper ∧ peer.Proper ∧
      sessionEstablishClient P sess hs emptyHash (zeros 32) th scratchLen =
          (.ok (), .fresh our peer scratchLen) ∧
        sessionEstablish P .server sess' hs emptyHash (zeros 32) th scratchLen' =
          (.ok (), .fresh peer our scratchLen') := by
  obtain ⟨derived, hderived⟩ := hP.derived hs emptyHash "derived"
  obtain ⟨master, hmaster⟩ := hP.extracted derived (zeros 32)
  obtain ⟨our, hour, hourProper⟩ := hP.appTraffic master th "c ap traffic"
  obtain ⟨peer, hpeer, hpeerProper⟩ := hP.appTraffic master th "s ap traffic"
  refine ⟨our, peer, hourProper, hpeerProper, sessionEstablishWith_ok.2 ⟨our, peer, ?_, rfl⟩,
    sessionEstablishWith_ok.2 ⟨peer, our, ?_, rfl⟩⟩
  · refine except_bind_eq_ok.2 ⟨_, hderived, ?_⟩
    refine except_bind_eq_ok.2 ⟨_, hmaster, ?_⟩
    refine except_bind_eq_ok.2 ⟨_, hour, ?_⟩
    exact except_bind_eq_ok.2 ⟨_, hpeer, rfl⟩
  · refine except_bind_eq_ok.2 ⟨_, hderived, ?_⟩
    refine except_bind_eq_ok.2 ⟨_, hmaster, ?_⟩
    refine except_bind_eq_ok.2 ⟨_, hpeer, ?_⟩
    exact except_bind_eq_ok.2 ⟨_, hour, rfl⟩

end Schedule

/-- A record under proper keys is sealed, and opens to what it was. -/
theorem sealed_opens (hP : P.RecordOk) (hopens : P.OpensSealed) {t : TrafficKeys} (ht : t.Proper)
    (seq : UInt64) {contentType : UInt8} (htype : contentType ≠ 0) {content : Bytes}
    (hlen : content.length ≤ maxPlaintext) : ∃ rec,
      sealRecord P t.key t.iv seq contentType content = some rec ∧
        openRecord P t.key t.iv seq rec = .ok (contentType, content) := by
  have hnonce : (buildNonce t.iv seq).length = 12 := by
    simp [buildNonce, ht.2]
  obtain ⟨⟨ct, tag⟩, henc⟩ := Option.isSome_iff_exists.1 (hP.encrypt t.key (buildNonce t.iv seq)
    (recordHeader (content.length + 1 + recordTagSz)) (content ++ [contentType]) ht.1 hnonce
      (by simpa))
  have hseal := sealRecord_eq_some.2 ⟨hP.aesInit, hP.aesKey _ ht.1, ct, tag, henc, rfl⟩
  exact ⟨_, hseal, openRecord_sealRecord hopens htype hseal⟩

end WolfNano
