/-
The PSK binder: what the server's binder check covers of a ClientHello.
-/
import WolfNano.HelloShape
import WolfNano.ServerAuth

namespace WolfNano

open Duplex

/-- The pre_shared_key extension of `msg`, as `ch` reports it. -/
structure BinderCovers (msg : Bytes) (ch : ClientHello) (parts : HelloParts)
    (id : PskIdentity) (ids : List PskIdentity) (binder : Bytes) (binders : List Bytes) :
    Prop where
  sized : parts.Sized
  encode : parts.encode = msg
  /-- pre_shared_key is the last extension. -/
  last : ∃ pre : List HelloExt, parts.exts = pre ++ [⟨extPreShared,
    vec16 ((id :: ids).flatMap PskIdentity.encode) ++ vec16 ((binder :: binders).flatMap vec8)⟩]
  dheOffered : ∃ e ∈ parts.exts, e.type = extPskKexModes ∧
    ∃ modes, e.body = vec8 modes ∧ 1 ∈ modes
  trunc_le : ch.binderTruncLen ≤ msg.length
  count : ids.length = binders.length
  /-- From `binderTruncLen` on there are the binders and nothing else. -/
  rest : msg.drop ch.binderTruncLen = vec16 ((binder :: binders).flatMap vec8)
  binder : ch.binder = some (ch.binderTruncLen + 3) ∧ ch.binderLen = 32 ∧
    slice msg (ch.binderTruncLen + 3) 32 = binder
  identity : ∃ off, ch.pskIdentity = some off ∧ ch.pskIdentityLen = id.identity.length ∧
    slice msg off id.identity.length = id.identity ∧
    off + id.identity.length ≤ ch.binderTruncLen

theorem HelloParsed.covers {B : Build} {msg : Bytes} {ch : ClientHello} {parts : HelloParts}
    (h : HelloParsed B msg ch parts) (hpsk : ch.havePsk = true) :
    ∃ id ids binder binders, BinderCovers msg ch parts id ids binder binders := by
  obtain ⟨hbinderLen, hdhe, pre, ⟨type, body⟩, ids, binders, out, hexts, ht, hids, hcount, hlists,
    rfl⟩ := h.psk hpsk
  obtain ⟨id, ids, rfl⟩ := List.exists_cons_of_ne_nil hids
  obtain ⟨binder, binders, rfl⟩ : ∃ b bs, binders = b :: bs := by
    cases binders with
    | nil => cases hcount
    | cons b bs => exact ⟨b, bs, rfl⟩
  dsimp only at ht hlists
  subst ht hlists
  have hidsFlat : (id :: ids).flatMap PskIdentity.encode =
      u16 id.identity.length ++ id.identity ++ (id.age ++ ids.flatMap PskIdentity.encode) := by
    simp only [List.flatMap_cons, PskIdentity.encode, vec16, List.append_assoc]
  have hbndsFlat : (binder :: binders).flatMap vec8 =
      [UInt8.ofNat binder.length] ++ binder ++ binders.flatMap vec8 := rfl
  generalize hidentities : (id :: ids).flatMap PskIdentity.encode = identities at *
  generalize hbnds : (binder :: binders).flatMap vec8 = bnds at *
  let front := [1] ++ u24 parts.body.length ++ parts.head ++
    u16 (parts.exts.flatMap HelloExt.encode).length ++ pre.flatMap HelloExt.encode ++
    (u16 extPreShared ++ u16 (vec16 identities ++ vec16 bnds).length)
  have hflat : parts.exts.flatMap HelloExt.encode = pre.flatMap HelloExt.encode ++
      (u16 extPreShared ++ (u16 (vec16 identities ++ vec16 bnds).length ++
        (vec16 identities ++ vec16 bnds))) := by
    rw [hexts, List.flatMap_append, List.flatMap_singleton]
    rfl
  have hmsg : msg = front ++ vec16 identities ++ vec16 bnds := by
    have hall : ∀ flat, flat = pre.flatMap HelloExt.encode ++
        (u16 extPreShared ++ (u16 (vec16 identities ++ vec16 bnds).length ++
          (vec16 identities ++ vec16 bnds))) →
        [1] ++ u24 parts.body.length ++
          (parts.head ++ (u16 (parts.exts.flatMap HelloExt.encode).length ++ flat)) =
            front ++ vec16 identities ++ vec16 bnds := by
      rintro flat rfl
      simp only [front, List.append_assoc]
    exact h.encode.symm.trans (hall _ hflat)
  have hfront : front.length = parts.extsAt + (pre.flatMap HelloExt.encode).length + 4 := by
    simp only [front, List.length_append, u16_length, u24_length, List.length_singleton,
      HelloParts.extsAt]
  have htrunc : (out.withPsk front.length (id :: ids) (binder :: binders)).binderTruncLen =
      front.length + (vec16 identities).length := by
    rw [← hidentities]
    rfl
  rw [← hfront] at hbinderLen ⊢
  have hbinderLen : binder.length = 32 := hbinderLen
  refine ⟨id, ids, binder, binders, h.sized, h.encode, ⟨pre, ?_⟩, hdhe, ?_, ?_, ?_, ?_, ?_⟩
  · rw [hexts, hidentities, hbnds]
  · rw [htrunc, hmsg]
    simp
  · exact Nat.succ.inj hcount
  · rw [htrunc, hmsg, hbnds]
    exact List.drop_left' (List.length_append ..)
  · refine ⟨?_, hbinderLen, ?_⟩
    · rw [htrunc, ← hidentities]
      rfl
    · rw [htrunc]
      refine slice_eq_of_eq_append
        (front ++ vec16 identities ++ u16 bnds.length ++ [UInt8.ofNat binder.length])
        (binders.flatMap vec8) ?_ ?_ hbinderLen.symm
      · rw [hmsg, vec16.eq_def bnds]
        nth_rewrite 2 [hbndsFlat]
        simp only [List.append_assoc]
      · simp only [List.length_append, u16_length, List.length_singleton]
  · refine ⟨front.length + 4, rfl, rfl, ?_, ?_⟩
    · refine slice_eq_of_eq_append (front ++ u16 identities.length ++ u16 id.identity.length)
        (id.age ++ ids.flatMap PskIdentity.encode ++ vec16 bnds) ?_ ?_ rfl
      · rw [hmsg, vec16.eq_def identities]
        nth_rewrite 2 [hidsFlat]
        simp only [List.append_assoc]
      · simp only [List.length_append, u16_length]
    · rw [htrunc, vec16_length, hidsFlat]
      simp only [List.length_append, u16_length]
      omega

/-- What is reported of an accepted message lies in it; what is reported of a PSK is the first
identity and the first binder of its last extension, which `binderTruncLen` cuts before the
binders; and the server hashes the message up to there for the binder and the rest after it. -/
theorem binder_covers_hello {B : Build} {msg : Bytes} {ch : ClientHello}
    (h : clientHelloParse B msg = .ok ch) :
    ch.Inside msg ∧
    (ch.havePsk = true →
      ∃ parts id ids binder binders, BinderCovers msg ch parts id ids binder binders) ∧
    ∀ (P : Platform) (args : PskArgs) (emptyHash early : Bytes) (hello : Hello) (tc : Transcript),
      hello.msg = msg → hello.ch = ch →
      acceptBinder P args emptyHash hello = .ok (early, tc) →
      ch.havePsk = true ∧ tc.fed = hello.tc.fed ++ msg ∧
      ∃ key th, tls13DeriveSecret P early "ext binder" emptyHash 32 .sha256 = .ok key ∧
        (⟨hello.tc.digest, hello.tc.fed ++ msg.take ch.binderTruncLen⟩ : Transcript).getHash P =
          .ok th ∧
        tls13FinishedMac P key th 32 .sha256 = .ok (slice msg (ch.binderTruncLen + 3) 32) := by
  obtain ⟨parts, hparts⟩ := clientHelloParse_ok h
  refine ⟨hparts.inside, fun hpsk => ⟨parts, hparts.covers hpsk⟩, ?_⟩
  rintro P args emptyHash early ⟨msg, ch, tc₀, hrr⟩ tc rfl rfl haccept
  obtain ⟨⟨hpsk, -⟩, -, ⟨key, th, hkey, hth, hmac⟩, rfl⟩ := acceptBinder_feeds haccept
  obtain ⟨id, ids, binder, binders, hcovers⟩ := hparts.covers hpsk
  refine ⟨hpsk, rfl, key, th, hkey, hth, ?_⟩
  rw [hmac, helloBytes, hcovers.binder.1, Option.getD_some]

theorem binder_covers_hello_sample : ∃ ch,
    clientHelloParse Sample.platform.build (slice Sample.pskHello 5 201) = .ok ch ∧
    ch.havePsk = true ∧
      ∃ parts id ids binder binders,
        BinderCovers (slice Sample.pskHello 5 201) ch parts id ids binder binders := by
  have hhave : (clientHelloParse Sample.platform.build (slice Sample.pskHello 5 201)).toOption.map
      ClientHello.havePsk = some true := by
    decide +kernel
  cases hparse : clientHelloParse Sample.platform.build (slice Sample.pskHello 5 201) with
  | error e =>
      rw [hparse] at hhave
      cases hhave
  | ok ch =>
      rw [hparse] at hhave
      have hpsk : ch.havePsk = true := Option.some.inj hhave
      exact ⟨ch, rfl, hpsk, (binder_covers_hello hparse).2.1 hpsk⟩

end WolfNano
