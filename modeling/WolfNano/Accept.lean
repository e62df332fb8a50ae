/-
The server drivers, `wn_Accept_Psk_ex` and `wn_Accept_Cert_ex`, as sequences of
stages; most of the stages are shared.
-/
import WolfNano.CertMsg
import WolfNano.ConnectPsk

namespace WolfNano

open Duplex

/-- `WN_ACCEPT_SCRATCH_MIN`. -/
def acceptScratchMin (B : Build) : Nat := if B.group.pubSz > 512 then 4096 else 2048

/-- The synthetic `message_hash` message for a first ClientHello. -/
def messageHash (hash : Bytes) : Bytes := [0xFE, 0, 0, 32] ++ hash

/-- The bytes of a parsed ClientHello at an offset it reports. -/
def helloBytes (msg : Bytes) (off : Option Nat) (len : Nat) : Bytes :=
  slice msg (off.getD 0) len

variable (P : Platform)

/-- The ClientHello the server goes on with. -/
structure Hello where
  msg : Bytes
  ch : ClientHello
  tc : Transcript
  hrrDone : Bool

/-- `wn_Accept_MaybeHrr`: ask for a share once when the hello has none. -/
def acceptMaybeHrr (fuel scratchLen : Nat) (tc : Transcript) (msg : Bytes)
    (ch : ClientHello) : Shell (Bytes × ClientHello × Transcript) :=
  if ch.haveKeyShare then
    pure (msg, ch, tc)
  else do
    let hash ← Prog.lift (sha256Hash P msg)
    let tc ← Prog.lift (tc.update P (messageHash hash))
    let hrr ← Prog.lift (helloRetryRequestBuild 128
      (helloBytes msg ch.sessionId ch.sessionIdLen) ch.sessionIdLen ch.cipher
      P.build.group.id)
    let tc ← Prog.lift (tc.update P hrr)
    sendPlainRecord recHandshake hrr
    sendCcs
    let chHalf := scratchLen / 2
    let msg ← recvHandshake chHalf (scratchLen - chHalf) fuel []
    let ch ← Prog.lift (clientHelloParse P.build msg)
    -- the client ignored the retry
    Prog.failIf (ch.haveKeyShare = false) .illegalParam
    pure (msg, ch, tc)

/-- Receive and parse the ClientHello, with a retry where one is needed. -/
def acceptHello (fuel scratchLen : Nat) (tc : Transcript) : Shell Hello := do
  let chHalf := scratchLen / 2
  let msg ← recvHandshake chHalf (scratchLen - chHalf) fuel []
  let ch ← Prog.lift (clientHelloParse P.build msg)
  let hrrDone := !ch.haveKeyShare
  let (msg, ch, tc) ← acceptMaybeHrr P fuel scratchLen tc msg ch
  pure ⟨msg, ch, tc, hrrDone⟩

/-- What the server draws and hashes before it reads. -/
def serverStart (rng : P.Rng) :
    Except Err (Transcript × Bytes × Bytes × P.Rng) := do
  let tc ← transcriptInit P .sha256
  let emptyHash ← sha256Hash P []
  let (random32, rng) ← orCrypto (P.rngBlock rng 32)
  pure (tc, emptyHash, random32, rng)

/-- Our share, the ServerHello, and the one compatibility ChangeCipherSpec
unless it went out after the retry. -/
def sendServerHello (scratchLen : Nat) (random32 : Bytes) (hello : Hello)
    (tc : Transcript) (includePsk : Bool) (rng : P.Rng) :
    Shell (Transcript × Bytes × P.Rng) := do
  let ch := hello.ch
  let ks ← Prog.lift (keyShareInit P ch.group)
  let (srvPub, ecdhe, rng) ← Prog.lift (keyShareServerShare P ks
    (helloBytes hello.msg ch.keyShare ch.keyShareLen) rng)
  let sid := helloBytes hello.msg ch.sessionId ch.sessionIdLen
  let sh ← Prog.lift (serverHelloBuild scratchLen random32 sid ch.sessionIdLen
    ch.cipher ch.group srvPub 0 includePsk)
  let tc ← Prog.lift (tc.update P sh)
  sendPlainRecord recHandshake sh
  if hello.hrrDone then pure () else sendCcs
  pure (tc, ecdhe, rng)

/-- Receive and verify the client Finished; the record lies at the start of the
scratch, must fit `finCap` bytes of inner plaintext and is opened into `out`. -/
def recvClientFinished (scratchLen finCap : Nat) (out : OutRegion) (keys : HsKeys)
    (recvMac : Bytes) : Nat → Shell Unit
  | 0 => Prog.spin
  | fuel + 1 => do
      let rec ← recvRecord scratchLen
      if rec.isCcs then
        recvClientFinished scratchLen finCap out keys recvMac fuel
      else do
        Prog.failIf (rec.rtype ≠ recAppdata) .unexpectedMsg
        Prog.failIf (rec.bytes.length > finCap + recordHeaderSz + recordTagSz)
          .unexpectedMsg
        let (contentType, fin) ←
          recordUnprotectInto P out keys.cKey keys.cIv 0 rec.bytes
        -- the two middle length bytes of the message are not looked at
        Prog.failIf (contentType ≠ recHandshake ∨ fin.length ≠ 4 + 32 ∨
          fin.getD 0 0 ≠ hsFinished) .unexpectedMsg
        Prog.failIf (fin.drop 4 ≠ recvMac) .badMac

/-- The end of both servers: the session is filled in before the client's
Finished was seen, and wiped when that fails. -/
def establishServer (fuel : Nat) (sess : Session) (keys : HsKeys)
    (emptyHash th : Bytes) (scratchLen finCap : Nat) (out : OutRegion) :
    Proc Ev (Ret × Session) :=
  match sessionEstablish P .server sess keys.hs emptyHash (zeros 32) th
      scratchLen with
  | (.error e, _) => pure (.error e, .zero)
  | (.ok (), sess) => do
      Proc.emit (.writeKey sess.cKey sess.cIv)
      let fin : Shell Unit := do
        let recvMac ← Prog.lift (tls13FinishedMac P keys.cHs th 32 .sha256)
        recvClientFinished P scratchLen finCap out keys recvMac fuel
      match ← fin.run with
      | .error e => pure (.error e, .zero)
      | .ok () => pure (.ok (), sess)

/-! ### The PSK server -/

/-- `sizeof(flight)`. -/
def flightSz : Nat := 128

/-- The identity check and the PSK binder; the transcript takes the hello in two
pieces, up to the binders and the rest. -/
def acceptBinder (args : PskArgs) (emptyHash : Bytes) (hello : Hello) :
    Except Err (Bytes × Transcript) := do
  let ch := hello.ch
  failIf (ch.havePsk = false ∨ ch.pskIdentityLen ≠ args.identity.val.length ∨
    helloBytes hello.msg ch.pskIdentity ch.pskIdentityLen ≠ args.identity.val)
    .illegalParam
  let early ← tls13Extract P [] args.psk .sha256
  let binderKey ← tls13DeriveSecret P early "ext binder" emptyHash 32 .sha256
  let tc ← hello.tc.update P (hello.msg.take ch.binderTruncLen)
  let th ← tc.getHash P
  let mac ← tls13FinishedMac P binderKey th 32 .sha256
  failIf (mac ≠ helloBytes hello.msg ch.binder 32) .badMac
  let tc ← tc.update P (hello.msg.drop ch.binderTruncLen)
  pure (early, tc)

/-- EncryptedExtensions and Finished in one record. -/
def sendPskFlight (scratchLen : Nat) (keys : HsKeys) (tc : Transcript) :
    Shell Transcript := do
  let ee ← Prog.lift (encExtBuild flightSz)
  let tc ← Prog.lift (tc.update P ee)
  let th ← Prog.lift (tc.getHash P)
  let mac ← Prog.lift (tls13FinishedMac P keys.sHs th 32 .sha256)
  Prog.note (.copy flightSz ee.length 36)
  let fin := finishedMsg mac
  let tc ← Prog.lift (tc.update P fin)
  let rec ← recordProtect P scratchLen keys.sKey keys.sIv 0 recHandshake (ee ++ fin)
  sendRecord rec
  pure tc

/-- `wn_Accept_Psk_ex` up to the session. -/
def acceptPskBody (fuel : Nat) (rng : P.Rng) (args : PskArgs) :
    Shell (HsKeys × Bytes × Bytes) := do
  let (tc, emptyHash, random32, rng) ← Prog.lift (serverStart P rng)
  let hello ← acceptHello P fuel args.scratchLen tc
  let (early, tc) ← Prog.lift (acceptBinder P args emptyHash hello)
  let (tc, ecdhe, _) ←
    sendServerHello P args.scratchLen random32 hello tc true rng
  let th ← Prog.lift (tc.getHash P)
  let keys ← Prog.lift (deriveHsKeys P early ecdhe emptyHash th)
  Prog.note (.writeKey keys.sKey keys.sIv)
  let tc ← sendPskFlight P args.scratchLen keys tc
  let th ← Prog.lift (tc.getHash P)
  pure (keys, emptyHash, th)

/-- The argument checks of `wn_Accept_Psk_ex`. -/
def PskArgs.acceptOk (args : PskArgs) (B : Build) : Bool :=
  args.nonNull && args.psk.length != 0 && acceptScratchMin B ≤ args.scratchLen

/-- `wn_Accept_Psk_ex` on a caller's session. -/
def acceptPskEx (fuel : Nat) (rng : P.Rng) (args : PskArgs) (sess : Session) :
    Proc Ev (Ret × Session) :=
  if args.acceptOk P.build = false then
    pure (.error .invalidArg, sess)
  else do
    match ← (acceptPskBody P fuel rng args).run with
    | .error e => pure (.error e, .zero)
    | .ok (keys, emptyHash, th) =>
        establishServer P fuel sess keys emptyHash th args.scratchLen flightSz
          ⟨flightSz, none⟩

/-! ### The certificate server -/

/-- The arguments of `wn_Accept_Cert_ex`. -/
structure ServerCertArgs where
  certDer : Bytes
  keyDer : Bytes
  scheme : Nat
  scratchLen : Nat
  nonNull : Bool

/-- The half of `scratch` the flight is built in. -/
def ServerCertArgs.half (args : ServerCertArgs) : Nat := args.scratchLen / 2

/-- The other half, `enc`; the client's Finished is opened into it from a record
at the start of the scratch. -/
def ServerCertArgs.enc (args : ServerCertArgs) : OutRegion :=
  ⟨args.scratchLen - args.half, some args.half⟩

/-- EncryptedExtensions, Certificate, CertificateVerify and Finished, built in
the first half of `scratch` and protected into the second. -/
def sendCertFlight (args : ServerCertArgs) (keys : HsKeys) (tc : Transcript)
    (rng : P.Rng) : Shell Transcript := do
  let ee ← Prog.lift (encExtBuild args.half)
  let tc ← Prog.lift (tc.update P ee)
  let cert ← Prog.lift (serverCertBuild (args.half - ee.length) args.certDer)
  let tc ← Prog.lift (tc.update P cert)
  let flight := ee ++ cert
  let thCv ← Prog.lift (tc.getHash P)
  let cv ← Prog.lift (serverCertVerifySign P (args.half - flight.length)
    args.scheme args.keyDer thCv rng)
  let tc ← Prog.lift (tc.update P cv)
  let flight := flight ++ cv
  let th ← Prog.lift (tc.getHash P)
  let mac ← Prog.lift (tls13FinishedMac P keys.sHs th 32 .sha256)
  Prog.failIf (flight.length + 4 + 32 + recordHeaderSz + 1 + recordTagSz >
    args.half) .invalidArg
  Prog.note (.copy args.half flight.length 36)
  let fin := finishedMsg mac
  let tc ← Prog.lift (tc.update P fin)
  let rec ← recordProtect P (args.scratchLen - args.half) keys.sKey keys.sIv 0
    recHandshake (flight ++ fin)
  sendRecord rec
  pure tc

/-- `wn_Accept_Cert_ex` up to the session. -/
def acceptCertBody (fuel : Nat) (rng : P.Rng) (args : ServerCertArgs) :
    Shell (HsKeys × Bytes × Bytes) := do
  let (tc, emptyHash, random32, rng) ← Prog.lift (serverStart P rng)
  let hello ← acceptHello P fuel args.scratchLen tc
  -- the client did not offer our scheme
  Prog.failIf (hello.ch.hasSigAlg hello.msg args.scheme = false) .illegalParam
  let tc ← Prog.lift (hello.tc.update P hello.msg)
  let (tc, ecdhe, rng) ←
    sendServerHello P args.scratchLen random32 hello tc false rng
  let early ← Prog.lift (tls13Extract P [] (zeros 32) .sha256)
  let th ← Prog.lift (tc.getHash P)
  let keys ← Prog.lift (deriveHsKeys P early ecdhe emptyHash th)
  Prog.note (.writeKey keys.sKey keys.sIv)
  let tc ← sendCertFlight P args keys tc rng
  let th ← Prog.lift (tc.getHash P)
  pure (keys, emptyHash, th)

/-- The argument checks of `wn_Accept_Cert_ex`. -/
def ServerCertArgs.acceptOk (args : ServerCertArgs) : Bool :=
  args.nonNull && 4096 ≤ args.scratchLen

/-- `wn_Accept_Cert_ex` on a caller's session. -/
def acceptCertEx (fuel : Nat) (rng : P.Rng) (args : ServerCertArgs)
    (sess : Session) : Proc Ev (Ret × Session) :=
  if args.acceptOk = false then
    pure (.error .invalidArg, sess)
  else do
    match ← (acceptCertBody P fuel rng args).run with
    | .error e => pure (.error e, .zero)
    | .ok (keys, emptyHash, th) =>
        establishServer P fuel sess keys emptyHash th args.scratchLen args.half
          args.enc

end WolfNano
