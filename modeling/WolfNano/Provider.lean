/-
A provider whose calls do not fail.
-/
import WolfNano.Record
import WolfNano.KeySchedule

namespace WolfNano

open Duplex

/-- No wc_* call of the record layer or of a key update fails. -/
structure Platform.RecordOk (P : Platform) : Prop where
  aesInit : P.aesInit = true
  aesKey : ∀ key : Bytes, key.length = 16 → P.aesKey key = true
  encrypt : ∀ key nonce aad plain : Bytes, key.length = 16 → nonce.length = 12 →
    plain.length ≤ maxPlaintext + 1 → (P.gcmEncrypt key nonce aad plain).isSome = true
  expand : ∀ digest n secret protocol label info, digestSize P digest ≠ 0 →
    n ≤ 255 * digestSize P digest →
    (P.hkdfExpandLabel digest n secret protocol label info).isSome = true

section Provider

variable {P : Platform} {digest : Digest}

theorem digestSize_ge (h : digestSize P digest ≠ 0) : 32 ≤ digestSize P digest := by
  cases digest with
  | sha256 => exact Nat.le_refl 32
  | sha384 =>
      simp only [digestSize] at h ⊢
      split
      · omega
      · simp_all
  | none => exact absurd rfl h
  | sha512 => exact absurd rfl h

theorem Platform.RecordOk.expandLabel (hP : P.RecordOk) {n : Nat} {secret info : Bytes}
    {label : String} (hdigest : digestSize P digest ≠ 0)
    (hn : n ≤ 255 * digestSize P digest) :
    ∃ okm, tls13ExpandLabel P n secret label info digest = .ok okm ∧ okm.length = n := by
  obtain ⟨okm, hokm⟩ := Option.isSome_iff_exists.1
    (hP.expand digest n secret (ascii "tls13 ") (ascii label) info hdigest hn)
  refine ⟨okm, ?_, P.hkdfExpandLabel_length hokm⟩
  rw [tls13ExpandLabel, if_neg hdigest, hokm]
  rfl

/-- Keys of the size the AEAD takes. -/
def TrafficKeys.Proper (t : TrafficKeys) : Prop := t.key.length = 16 ∧ t.iv.length = 12

theorem Platform.RecordOk.keyUpdate (hP : P.RecordOk) (t : TrafficKeys)
    (hdigest : digestSize P digest ≠ 0) :
    ∃ t', tls13KeyUpdate P t digest = (.ok (), t') ∧ t'.Proper := by
  have hsize := digestSize_ge hdigest
  obtain ⟨secret, hsecret, -⟩ := @Platform.RecordOk.expandLabel P digest hP
    (digestSize P digest) t.secret [] "traffic upd" hdigest (by omega)
  obtain ⟨key, hkey, hkeyLen⟩ := @Platform.RecordOk.expandLabel P digest hP 16 secret [] "key"
    hdigest (by omega)
  obtain ⟨iv, hiv, hivLen⟩ := @Platform.RecordOk.expandLabel P digest hP 12 secret [] "iv"
    hdigest (by omega)
  refine ⟨⟨secret, key, iv⟩, ?_, hkeyLen, hivLen⟩
  rw [tls13KeyUpdate, if_neg hdigest]
  simp only [hsecret, hkey, hiv]

end Provider

end WolfNano
