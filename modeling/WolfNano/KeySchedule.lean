/-
The key schedule and the transcript hash, `wn_keyschedule.c` and
`wn_transcript.c`.
-/
import WolfNano.Seam

namespace WolfNano

open Duplex

variable (P : Platform)

/-- The bytes of a string literal of the source. -/
def ascii (s : String) : Bytes := s.toList.map fun c => UInt8.ofNat c.toNat

/-- `wn_DigestSize`: zero for a hash the schedule does not support. -/
def digestSize : Digest → Nat
  | .sha256 => 32
  | .sha384 => if P.build.sha384 then 48 else 0
  | _ => 0

/-- `wn_Tls13_Extract`; a NULL salt is the empty one. -/
def tls13Extract (salt ikm : Bytes) (digest : Digest) : Except Err Bytes :=
  if digestSize P digest = 0 then
    .error .invalidArg
  else
    (P.hkdfExtract digest salt ikm).elim (.error .crypto) .ok

/-- `wn_Tls13_ExpandLabel`. -/
def tls13ExpandLabel (okmLen : Nat) (secret : Bytes) (label : String)
    (info : Bytes) (digest : Digest) : Except Err Bytes :=
  if digestSize P digest = 0 then
    .error .invalidArg
  else
    (P.hkdfExpandLabel digest okmLen secret (ascii "tls13 ") (ascii label)
      info).elim (.error .crypto) .ok

/-- `wn_Tls13_DeriveSecret`. -/
def tls13DeriveSecret (secret : Bytes) (label : String) (transcriptHash : Bytes)
    (hashLen : Nat) (digest : Digest) : Except Err Bytes :=
  if hashLen ≠ digestSize P digest then
    .error .invalidArg
  else
    tls13ExpandLabel P hashLen secret label transcriptHash digest

/-- `wn_Tls13_FinishedMac`, also the PSK binder. -/
def tls13FinishedMac (baseKey transcriptHash : Bytes) (hashLen : Nat)
    (digest : Digest) : Except Err Bytes :=
  if hashLen = 0 ∨ hashLen ≠ digestSize P digest then
    .error .invalidArg
  else do
    let finishedKey ← tls13ExpandLabel P hashLen baseKey "finished" [] digest
    (P.hmac digest finishedKey transcriptHash).elim (.error .crypto) .ok

/-- A traffic secret with the record key and IV derived from it. -/
structure TrafficKeys where
  secret : Bytes
  key : Bytes
  iv : Bytes
  deriving DecidableEq

/-- `wn_Tls13_KeyUpdate`.  The three buffers are replaced one after the other,
so a failing step leaves the earlier replacements in place. -/
def tls13KeyUpdate (t : TrafficKeys) (digest : Digest) : Ret × TrafficKeys :=
  if digestSize P digest = 0 then
    (.error .invalidArg, t)
  else
    match tls13ExpandLabel P (digestSize P digest) t.secret "traffic upd" []
        digest with
    | .error e => (.error e, t)
    | .ok newSecret =>
        match tls13ExpandLabel P 16 newSecret "key" [] digest with
        | .error e => (.error e, { t with secret := newSecret })
        | .ok key =>
            match tls13ExpandLabel P 12 newSecret "iv" [] digest with
            | .error e => (.error e, { t with secret := newSecret, key := key })
            | .ok iv => (.ok (), { secret := newSecret, key := key, iv := iv })

/-! ### Lengths -/

section Lengths

variable {P} {n : Nat} {secret info okm : Bytes} {label : String} {digest : Digest}

theorem tls13ExpandLabel_length
    (h : tls13ExpandLabel P n secret label info digest = .ok okm) :
    okm.length = n := by
  unfold tls13ExpandLabel at h
  split at h
  · cases h
  · rcases hexpand : P.hkdfExpandLabel digest n secret (ascii "tls13 ") (ascii label)
      info with _ | okm'
    · rw [hexpand] at h
      cases h
    · rw [hexpand] at h
      cases h
      exact P.hkdfExpandLabel_length hexpand

theorem tls13FinishedMac_length {baseKey th mac : Bytes}
    (h : tls13FinishedMac P baseKey th 32 .sha256 = .ok mac) : mac.length = 32 := by
  unfold tls13FinishedMac at h
  split at h
  · cases h
  · obtain ⟨key, -, h⟩ := except_bind_eq_ok.1 h
    rcases hmac : P.hmac .sha256 key th with _ | mac'
    · rw [hmac] at h
      cases h
    · rw [hmac] at h
      cases h
      exact P.hmac_length hmac

theorem tls13ExpandLabel_error {e : Err}
    (h : tls13ExpandLabel P n secret label info digest = .error e) :
    e = .crypto ∨ e = .invalidArg := by
  unfold tls13ExpandLabel at h
  split at h
  · cases h
    exact .inr rfl
  · rcases hexpand : P.hkdfExpandLabel digest n secret (ascii "tls13 ") (ascii label)
      info with _ | okm'
    · rw [hexpand] at h
      cases h
      exact .inl rfl
    · rw [hexpand] at h
      cases h

/-- How an update can fail, and that the IV is untouched then. -/
theorem tls13KeyUpdate_error {t t' : TrafficKeys} {e : Err}
    (h : tls13KeyUpdate P t digest = (.error e, t')) :
    (e = .crypto ∨ e = .invalidArg) ∧ t'.iv = t.iv := by
  unfold tls13KeyUpdate at h
  split at h
  · cases h
    exact ⟨.inr rfl, rfl⟩
  · split at h
    · rename_i hsecret
      cases h
      exact ⟨tls13ExpandLabel_error hsecret, rfl⟩
    · split at h
      · rename_i hkey
        cases h
        exact ⟨tls13ExpandLabel_error hkey, rfl⟩
      · split at h
        · rename_i hiv
          cases h
          exact ⟨tls13ExpandLabel_error hiv, rfl⟩
        · cases h

/-- An update leaves an IV of the right length, also when it fails. -/
theorem tls13KeyUpdate_iv {t t' : TrafficKeys} {ret : Ret} (hiv : t.iv.length = 12)
    (h : tls13KeyUpdate P t digest = (ret, t')) : t'.iv.length = 12 := by
  unfold tls13KeyUpdate at h
  split at h
  · cases h; exact hiv
  · split at h
    · cases h; exact hiv
    · split at h
      · cases h; exact hiv
      · split at h
        · cases h; exact hiv
        · rename_i hok
          cases h
          exact tls13ExpandLabel_length hok

end Lengths

/-! ### Transcript -/

/-- `wn_Transcript`: the context of the running hash is what it has absorbed. -/
structure Transcript where
  digest : Digest
  fed : Bytes
  deriving DecidableEq

/-- The digests a transcript can run over. -/
def transcriptDigest (digest : Digest) : Bool :=
  digest == .sha256 || (digest == .sha384 && P.build.sha384)

/-- `wn_Transcript_Init`. -/
def transcriptInit (digest : Digest) : Except Err Transcript :=
  if transcriptDigest P digest then
    if P.hashInit digest then .ok ⟨digest, []⟩ else .error .crypto
  else
    .error .unsupported

/-- `wn_Transcript_Update`. -/
def Transcript.update (t : Transcript) (msg : Bytes) : Except Err Transcript :=
  if transcriptDigest P t.digest then
    if P.hashUpdate t.digest t.fed msg then
      .ok { t with fed := t.fed ++ msg }
    else
      .error .crypto
  else
    .error .unsupported

/-- `wn_Transcript_GetHash`. -/
def Transcript.getHash (t : Transcript) : Except Err Bytes :=
  if transcriptDigest P t.digest then
    (P.hash t.digest t.fed).elim (.error .crypto) .ok
  else
    .error .unsupported

/-- `wc_Sha256Hash`. -/
def sha256Hash (msg : Bytes) : Except Err Bytes :=
  (P.hash .sha256 msg).elim (.error .crypto) .ok

/-- An accepted update appends to what was absorbed. -/
theorem Transcript.update_eq {P : Platform} {t t' : Transcript} {msg : Bytes}
    (h : t.update P msg = .ok t') : t' = { t with fed := t.fed ++ msg } := by
  unfold Transcript.update at h
  split at h
  · split at h
    · exact (Except.ok.inj h).symm
    · cases h
  · cases h

end WolfNano
