/-
The key share, `wn_keyshare.c` and `wn_hybrid.c`.  One build supports one
group; the hybrid share is the ML-KEM part followed by the X25519 part, for the
shares and for the combined secret.
-/
import WolfNano.Seam

namespace WolfNano

open Duplex

variable (P : Platform)

/-- The private state of `wn_KeyShare`. -/
structure KeyShare where
  group : Nat
  kem : Option P.KemKey
  dh : Option P.DhKey

variable {P}

/-- An operation that draws from the generator and fails with
`WOLFNANO_E_CRYPTO`. -/
def orCrypto {α : Type} (x : Option α) : Except Err α :=
  x.elim (.error .crypto) .ok

theorem orCrypto_eq_ok {α : Type} {x : Option α} {a : α} : orCrypto x = .ok a ↔ x = some a := by
  cases x with
  | none =>
      constructor
      · intro h
        cases h
      · intro h
        cases h
  | some b => exact ⟨fun h => congrArg some (Except.ok.inj h),
      fun h => congrArg _ (Option.some.inj h)⟩

variable (P)

/-- The curve of the build's ECDHE share. -/
def dhCurve : Curve :=
  match P.build.group with
  | .secp256r1 => .p256
  | _ => .x25519

/-- `wn_KeyShare_Init`. -/
def keyShareInit (group : Nat) : Except Err (KeyShare P) :=
  if group ≠ P.build.group.id then
    .error .unsupported
  else
    match P.build.group with
    | .x25519mlkem768 => .ok ⟨group, none, none⟩
    | _ => if P.dhInit (dhCurve P) then .ok ⟨group, none, none⟩ else .error .crypto

/-- A fresh key on the build's curve and its public value. -/
def dhGenerate (rng : P.Rng) : Except Err (P.DhKey × Bytes × P.Rng) := do
  let (k, rng) ← orCrypto (P.dhMake (dhCurve P) rng)
  let pub ← orCrypto (P.dhPublic (dhCurve P) k)
  pure (k, pub, rng)

/-- `wn_Hybrid_ClientKeyShare`. -/
def hybridClientKeyShare (group : Nat) (rng : P.Rng) :
    Except Err (KeyShare P × Bytes × P.Rng) := do
  failUnless P.kemInit
  let (kem, rng) ← orCrypto (P.kemMake rng)
  let kemPub ← orCrypto (P.kemPublic kem)
  failUnless (P.dhInit .x25519)
  let (x, xPub, rng) ← dhGenerate P rng
  pure (⟨group, some kem, some x⟩, kemPub ++ xPub, rng)
where
  failUnless (b : Bool) : Except Err Unit := if b then .ok () else .error .crypto

/-- `wn_KeyShare_Generate`. -/
def keyShareGenerate (ks : KeyShare P) (rng : P.Rng) :
    Except Err (KeyShare P × Bytes × P.Rng) :=
  if ks.group ≠ P.build.group.id then
    .error .unsupported
  else
    match P.build.group with
    | .x25519mlkem768 => hybridClientKeyShare P ks.group rng
    | _ => do
        let (k, pub, rng) ← dhGenerate P rng
        pure ({ ks with dh := some k }, pub, rng)

/-- `wn_Hybrid_ClientShared`. -/
def hybridClientShared (ks : KeyShare P) (srvShare : Bytes) : Except Err Bytes :=
  if srvShare.length ≠ 1088 + 32 then
    .error .invalidArg
  else do
    let kem ← orCrypto ks.kem
    let ssKem ← orCrypto (P.kemDecap kem (srvShare.take 1088))
    if P.dhInit .x25519 then
      let x ← orCrypto ks.dh
      let ssX ← orCrypto (P.dhShared .x25519 x (srvShare.drop 1088))
      pure (ssKem ++ ssX)
    else
      .error .crypto

/-- `wn_KeyShare_Shared`. -/
def keyShareShared (ks : KeyShare P) (peerPub : Bytes) : Except Err Bytes :=
  if ks.group ≠ P.build.group.id then
    .error .unsupported
  else
    match P.build.group with
    | .x25519mlkem768 => hybridClientShared P ks peerPub
    | _ =>
        if peerPub.length ≠ (dhCurve P).pubSz then
          .error .invalidArg
        else if P.dhInit (dhCurve P) then do
          let k ← orCrypto ks.dh
          orCrypto (P.dhShared (dhCurve P) k peerPub)
        else
          .error .crypto

/-- `wn_Hybrid_ServerRespond`: the server share and the combined secret. -/
def hybridServerRespond (cliShare : Bytes) (rng : P.Rng) :
    Except Err (Bytes × Bytes × P.Rng) :=
  if cliShare.length ≠ 1184 + 32 then
    .error .invalidArg
  else if P.kemInit then do
    let ((ct, ssKem), rng) ← orCrypto (P.kemEncap (cliShare.take 1184) rng)
    if P.dhInit .x25519 then
      let (x, xPub, rng) ← dhGenerate P rng
      let ssX ← orCrypto (P.dhShared .x25519 x (cliShare.drop 1184))
      pure (ct ++ xPub, ssKem ++ ssX, rng)
    else
      .error .crypto
  else
    .error .crypto

/-- `wn_KeyShare_ServerShare`: the server share and the shared secret. -/
def keyShareServerShare (ks : KeyShare P) (peerShare : Bytes) (rng : P.Rng) :
    Except Err (Bytes × Bytes × P.Rng) :=
  match P.build.group with
  | .x25519mlkem768 =>
      if ks.group ≠ P.build.group.id then
        .error .unsupported
      else
        hybridServerRespond P peerShare rng
  | _ => do
      let (ks, srvPub, rng) ← keyShareGenerate P ks rng
      let secret ← keyShareShared P ks peerShare
      pure (srvPub, secret, rng)

end WolfNano
