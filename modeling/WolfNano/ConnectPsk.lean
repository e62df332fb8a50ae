/-
The PSK client driver, `wn_Connect_Psk_ex`, as a sequence of stages; the stages
that the certificate client runs too come first.
-/
import WolfNano.Handshake
import WolfNano.ClientHello
import WolfNano.KeyShare

namespace WolfNano

open Duplex

/-- Read records until one is not a ChangeCipherSpec. -/
def recvSkipCcs (cap : Nat) : Nat → Shell Rec
  | 0 => Prog.spin
  | fuel + 1 => do
      let rec ← recvRecord cap
      if rec.isCcs then recvSkipCcs cap fuel else pure rec

/-- The client's checks on a parsed ServerHello. -/
def serverHelloOk (B : Build) (sid : Bytes) (pskSelected : Int) (msg : Bytes)
    (sh : ServerHello) : Bool :=
  sh.keyShare.isSome &&
  sh.keyShareLen == B.group.srvShareSz &&
  sh.cipher == cipherAes128GcmSha256 &&
  sh.version == 0x0304 &&
  sh.group == B.group.id &&
  sh.pskSelected == pskSelected &&
  sh.sessionIdLen == 32 &&
  sh.sessionId.map (fun off => slice msg off 32) == some sid

/-- The server share of a ServerHello that passed the checks. -/
def ServerHello.share (sh : ServerHello) (msg : Bytes) : Bytes :=
  slice msg (sh.keyShare.getD 0) sh.keyShareLen

/-- The Finished message with this MAC. -/
def finishedMsg (mac : Bytes) : Bytes := [20, 0, 0, 32] ++ mac

/-- `WN_RECORD_HEADER_SZ + WN_RECORD_TAG_SZ` bytes around an inner plaintext. -/
def innerLen (rec : Rec) : Nat := rec.bytes.length - (recordHeaderSz + recordTagSz)

variable (P : Platform)

/-- The key material both clients draw before the ClientHello. -/
structure ClientStart where
  emptyHash : Bytes
  random32 : Bytes
  sid : Bytes
  ks : KeyShare P
  cliPub : Bytes
  tc : Transcript

def clientStart (rng : P.Rng) : Except Err (ClientStart P) := do
  let emptyHash ← sha256Hash P []
  let (random32, rng) ← orCrypto (P.rngBlock rng 32)
  let (sid, rng) ← orCrypto (P.rngBlock rng 32)
  let ks ← keyShareInit P P.build.group.id
  let (ks, cliPub, _) ← keyShareGenerate P ks rng
  let tc ← transcriptInit P .sha256
  pure ⟨emptyHash, random32, sid, ks, cliPub, tc⟩

/-- Read and check the ServerHello, and combine the shares. -/
def recvServerHello (fuel cap : Nat) (pskSelected : Int) (sid : Bytes)
    (ks : KeyShare P) (tc : Transcript) : Shell (Transcript × Bytes) := do
  let rec ← recvSkipCcs cap fuel
  Prog.failIf (rec.rtype ≠ recHandshake) .unexpectedMsg
  let msg := rec.fragment
  let sh ← Prog.lift (serverHelloParse msg)
  Prog.failIf (sh.isHelloRetry = true) .unsupported
  let tc ← Prog.lift (tc.update P msg)
  Prog.failIf (serverHelloOk P.build sid pskSelected msg sh = false) .illegalParam
  let ecdhe ← Prog.lift (keyShareShared P ks (sh.share msg))
  pure (tc, ecdhe)

/-- The client's Finished, protected with the handshake key at sequence 0. -/
def sendClientFinished (cap : Nat) (keys : HsKeys) (mac : Bytes) : Shell Unit := do
  let rec ← recordProtect P cap keys.cKey keys.cIv 0 recHandshake (finishedMsg mac)
  sendRecord rec

/-! ### The PSK client -/

/-- The arguments of `wn_Connect_Psk_ex` and `wn_Accept_Psk_ex`; `nonNull` says
that no pointer among them is NULL. -/
structure PskArgs where
  psk : Bytes
  identity : CStr
  scratchLen : Nat
  nonNull : Bool

/-- The binder over the ClientHello up to `truncOff`, and the early secret. -/
def pskBinder (psk emptyHash partialHello : Bytes) : Except Err (Bytes × Bytes) := do
  let early ← tls13Extract P [] psk .sha256
  let binderKey ← tls13DeriveSecret P early "ext binder" emptyHash 32 .sha256
  let th ← sha256Hash P partialHello
  let binder ← tls13FinishedMac P binderKey th 32 .sha256
  pure (early, binder)

/-- The ClientHello with its binder. -/
def pskClientHello (args : PskArgs) (st : ClientStart P) :
    Except Err (Bytes × Bytes) := do
  let hello := buildClientHello P.build (Writer.init args.scratchLen) st.random32
    st.sid st.cliPub P.build.group.id args.identity.val
  failIf (hello.w.err = true) .crypto
  let (early, binder) ← pskBinder P args.psk st.emptyHash
    (hello.w.buf.take hello.truncOff)
  pure (early, splice hello.w.buf hello.binderOff binder)

/-- The reassembly state of the PSK flight: the bytes of `plain`, the offset of
the next message, and what was seen. -/
structure PskFlight where
  acc : Bytes
  accOff : Nat
  sSeq : UInt64
  gotEE : Bool
  tc : Transcript
  deriving DecidableEq

/-- One complete message of the flight; `true` when it was a good Finished. -/
def pskFlightMsg (sHs : Bytes) (st : PskFlight) (msg : Bytes) :
    Except Err (PskFlight × Bool) :=
  let mType := msg.getD 0 0
  let body := msg.drop 4
  if mType = hsEncryptedExt then do
    failIf (st.gotEE = true) .unexpectedMsg
    checkEncExt body false
    let tc ← st.tc.update P msg
    pure ({ st with tc := tc, gotEE := true }, false)
  else if mType = hsFinished then do
    failIf (st.gotEE = false ∨ body.length ≠ 32) .badMac
    let th ← st.tc.getHash P
    let mac ← tls13FinishedMac P sHs th 32 .sha256
    failIf (mac ≠ body) .badMac
    let tc ← st.tc.update P msg
    pure ({ st with tc := tc }, true)
  else
    .error .unexpectedMsg

/-- `sizeof(plain)`. -/
def pskPlainSz : Nat := 512

/-- Parse the complete messages of the accumulator. -/
def pskFlightMsgs (sHs : Bytes) : Nat → PskFlight → Except Err (PskFlight × Bool)
  | 0, st => .ok (st, false)
  | fuel + 1, st =>
      if st.acc.length - st.accOff < 4 then
        .ok (st, false)
      else
        let mLen := hsMsgLen st.acc st.accOff
        if st.accOff + 4 + mLen > pskPlainSz then
          .error .decode
        else if st.accOff + 4 + mLen > st.acc.length then
          .ok (st, false)
        else do
          let msg := slice st.acc st.accOff (4 + mLen)
          let (st, fin) ←
            pskFlightMsg P sHs { st with accOff := st.accOff + 4 + mLen } msg
          if fin then pure (st, true) else pskFlightMsgs sHs fuel st

/-- The server's encrypted flight, record by record. -/
def pskFlight (scratchLen : Nat) (keys : HsKeys) : Nat → PskFlight →
    Shell PskFlight
  | 0, _ => Prog.spin
  | fuel + 1, st => do
      let rec ← recvRecord scratchLen
      if rec.isCcs then
        pskFlight scratchLen keys fuel st
      else do
        Prog.failIf (rec.rtype ≠ recAppdata) .unexpectedMsg
        -- the reassembled flight must fit `plain`
        Prog.failIf (rec.bytes.length < recordHeaderSz + recordTagSz ∨
          innerLen rec > pskPlainSz - st.acc.length) .decode
        let (contentType, plain) ← recordUnprotect P (pskPlainSz - st.acc.length)
          keys.sKey keys.sIv st.sSeq rec.bytes
        Prog.failIf (contentType ≠ recHandshake) .unexpectedMsg
        let acc := st.acc ++ plain
        let (st, fin) ← Prog.lift (pskFlightMsgs P keys.sHs acc.length
          { st with acc := acc, sSeq := st.sSeq + 1 })
        if fin then pure st else pskFlight scratchLen keys fuel st

/-- `wn_Connect_Psk_ex` up to the session: the keys, the hash of the empty
string and the transcript hash through the server Finished. -/
def connectPskBody (fuel : Nat) (rng : P.Rng) (args : PskArgs) :
    Shell (HsKeys × Bytes × Bytes) := do
  let st ← Prog.lift (clientStart P rng)
  let (early, hello) ← Prog.lift (pskClientHello P args st)
  let tc ← Prog.lift (st.tc.update P hello)
  sendPlainRecord recHandshake hello
  sendCcs
  let (tc, ecdhe) ← recvServerHello P fuel args.scratchLen 0 st.sid st.ks tc
  let th ← Prog.lift (tc.getHash P)
  let keys ← Prog.lift (deriveHsKeys P early ecdhe st.emptyHash th)
  Prog.note (.writeKey keys.cKey keys.cIv)
  let flight ← pskFlight P args.scratchLen keys fuel ⟨[], 0, 0, false, tc⟩
  let th ← Prog.lift (flight.tc.getHash P)
  let mac ← Prog.lift (tls13FinishedMac P keys.cHs th 32 .sha256)
  sendClientFinished P args.scratchLen keys mac
  pure (keys, st.emptyHash, th)

/-- The argument checks of `wn_Connect_Psk_ex`. -/
def PskArgs.connectOk (args : PskArgs) : Bool :=
  args.nonNull && args.psk.length != 0 && 2048 ≤ args.scratchLen &&
    args.identity.val.length ≤ 0xFFFF

/-- The end of both clients: fill in the session. -/
def establishClient (keys : HsKeys) (emptyHash th : Bytes) (scratchLen : Nat) :
    Proc Ev (Ret × Session) :=
  match sessionEstablishClient P .zero keys.hs emptyHash (zeros 32) th
      scratchLen with
  | (.error e, sess) => pure (.error e, sess)
  | (.ok (), sess) => do
      Proc.emit (.writeKey sess.cKey sess.cIv)
      pure (.ok (), sess)

/-- `wn_Connect_Psk_ex` on a caller's session. -/
def connectPskEx (fuel : Nat) (rng : P.Rng) (args : PskArgs) (sess : Session) :
    Proc Ev (Ret × Session) :=
  if args.connectOk = false then
    pure (.error .invalidArg, sess)
  else do
    match ← (connectPskBody P fuel rng args).run with
    | .error e => pure (.error e, .zero)
    | .ok (keys, emptyHash, th) =>
        establishClient P keys emptyHash th args.scratchLen

end WolfNano
