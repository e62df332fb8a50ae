/-
The certificate client driver, `wn_connect_cert_impl`.
-/
import WolfNano.CertMsg
import WolfNano.ConnectPsk

namespace WolfNano

open Duplex

/-- `WN_HS_ACC_SZ`. -/
def hsAccSz (B : Build) : Nat :=
  match B.mldsa with
  | some .l5 => 13312
  | some .l3 => 10240
  | some .l2 => 8192
  | none => 6144

/-- `WN_LEAF_SPKI_SZ`. -/
def leafSpkiSz (B : Build) : Nat :=
  match B.mldsa with
  | some .l5 => 3072
  | some .l3 => 2048
  | some .l2 => 2048
  | none => 1024

/-- `WN_CERT_IO_MIN`. -/
def certIoMin (B : Build) : Nat :=
  match B.mldsa with
  | some .l5 => 8192
  | _ => 4096

/-- `WN_CERT_SCRATCH_MIN`. -/
def certScratchMin (B : Build) : Nat := certIoMin B + hsAccSz B + leafSpkiSz B

/-- The arguments of `wn_connect_cert_impl` and the clock; `nonNull` says that
none of the other pointers is NULL. -/
structure CertArgs where
  anchor : Bytes
  scratchLen : Nat
  serverName : Option CStr
  pinnedKey : Option Bytes
  now : Int
  nonNull : Bool

/-- Whether the ClientHello carries a server_name. -/
def CertArgs.sniOffered (args : CertArgs) : Bool :=
  match args.serverName with
  | none => false
  | some name => !name.val.isEmpty

/-- The part of `scratch` records are read into. -/
def CertArgs.ioCap (args : CertArgs) (B : Build) : Nat :=
  args.scratchLen - (hsAccSz B + leafSpkiSz B)

/-- The accumulator, the offset of the next message, and what was learnt. -/
structure CertFlight where
  acc : Bytes
  off : Nat
  sSeq : UInt64
  seen : FlightSeen
  tc : Transcript
  spki : Bytes
  deriving DecidableEq

variable (P : Platform) (X : X509Backend)

/-- A Certificate message: the list must verify; the leaf key is kept. -/
def certFlightCertificate (args : CertArgs) (st : CertFlight) (body : Bytes) :
    Except Err CertFlight := do
  let certs ← parseCertList body
  let spki ← X.verifyChain certs args.anchor args.serverName args.pinnedKey
    args.now (leafSpkiSz P.build)
  pure { st with spki := spki }

/-- A CertificateVerify message over the transcript hash before it. -/
def certFlightVerify (st : CertFlight) (thCert body : Bytes) : Ret := do
  let (scheme, sig) ← parseCertVerify body
  failIf (st.seen.gotCert = false) .decode
  certVerify P X scheme st.spki thCert sig

/-- A Finished message over the transcript hash before it. -/
def certFlightFinished (sHs : Bytes) (st : CertFlight) (th body : Bytes) : Ret := do
  failIf (st.seen.gotCv = false) .unexpectedMsg
  let mac ← tls13FinishedMac P sHs th 32 .sha256
  failIf (body.length ≠ 32 ∨ mac ≠ body) .badMac

/-- The hash snapshot taken before the message enters the transcript; only
CertificateVerify and Finished need one. -/
def certFlightSnapshot (tc : Transcript) (mType : UInt8) : Except Err Bytes :=
  if mType = hsCertVerify ∨ mType = hsFinished then tc.getHash P else .ok []

/-- One complete message of the flight; `true` when it was a good Finished. -/
def certFlightMsg (args : CertArgs) (sHs : Bytes) (st : CertFlight) (msg : Bytes) :
    Except Err (CertFlight × Bool) := do
  let mType := msg.getD 0 0
  let body := msg.drop 4
  let seen ← flightOrder mType st.seen
  if mType = hsEncryptedExt then checkEncExt body args.sniOffered else pure ()
  let th ← certFlightSnapshot P st.tc mType
  let tc ← st.tc.update P msg
  let st := { st with seen := seen, tc := tc }
  if mType = hsCertificate then do
    let st ← certFlightCertificate P X args st body
    pure (st, false)
  else if mType = hsCertVerify then do
    certFlightVerify P X st th body
    pure (st, false)
  else if mType = hsFinished then do
    certFlightFinished P sHs st th body
    pure (st, true)
  else
    pure (st, false)

/-- Parse the complete messages of the accumulator. -/
def certFlightMsgs (args : CertArgs) (sHs : Bytes) :
    Nat → CertFlight → Except Err (CertFlight × Bool)
  | 0, st => .ok (st, false)
  | fuel + 1, st =>
      if st.acc.length - st.off < 4 then
        .ok (st, false)
      else
        let mLen := hsMsgLen st.acc st.off
        if st.off + 4 + mLen > st.acc.length then
          .ok (st, false)
        else do
          let msg := slice st.acc st.off (4 + mLen)
          let (st, fin) ← certFlightMsg P X args sHs st msg
          let st := { st with off := st.off + 4 + mLen }
          if fin then pure (st, true) else certFlightMsgs args sHs fuel st

/-- The server's encrypted flight, record by record. -/
def certFlight (args : CertArgs) (keys : HsKeys) : Nat → CertFlight →
    Shell CertFlight
  | 0, _ => Prog.spin
  | fuel + 1, st => do
      let rec ← recvRecord (args.ioCap P.build)
      if rec.isCcs then
        certFlight args keys fuel st
      else do
        Prog.failIf (rec.rtype ≠ recAppdata) .unexpectedMsg
        let (contentType, plain) ← recordUnprotect P
          (args.ioCap P.build - recordHeaderSz) keys.sKey keys.sIv st.sSeq rec.bytes
        Prog.failIf (contentType ≠ recHandshake) .unexpectedMsg
        Prog.failIf (st.acc.length + plain.length > hsAccSz P.build) .decode
        Prog.note (.copy (hsAccSz P.build) st.acc.length plain.length)
        let acc := st.acc ++ plain
        let (st, fin) ← Prog.lift (certFlightMsgs P X args keys.sHs acc.length
          { st with acc := acc, sSeq := st.sSeq + 1 })
        if fin then pure st else certFlight args keys fuel st

/-- `wn_connect_cert_impl` up to the handshake keys. -/
def connectCertHello (fuel : Nat) (rng : P.Rng) (args : CertArgs) :
    Shell (HsKeys × Bytes × Transcript) := do
  let st ← Prog.lift (clientStart P rng)
  let hello ← Prog.lift (clientHelloBuildEx P.build args.scratchLen st.random32
    st.sid 32 st.cliPub args.serverName)
  let tc ← Prog.lift (st.tc.update P hello)
  sendPlainRecord recHandshake hello
  sendCcs
  let (tc, ecdhe) ←
    recvServerHello P fuel (args.ioCap P.build) (-1) st.sid st.ks tc
  let th ← Prog.lift (tc.getHash P)
  let early ← Prog.lift (tls13Extract P [] (zeros 32) .sha256)
  let keys ← Prog.lift (deriveHsKeys P early ecdhe st.emptyHash th)
  Prog.note (.writeKey keys.cKey keys.cIv)
  pure (keys, st.emptyHash, tc)

/-- The flight and the MAC of our Finished: the transcript hash through the
server Finished, and the MAC. -/
def connectCertFlight (fuel : Nat) (args : CertArgs) (keys : HsKeys)
    (tc : Transcript) : Shell (Bytes × Bytes) := do
  let flight ← certFlight P X args keys fuel ⟨[], 0, 0, {}, tc, []⟩
  let th ← Prog.lift (flight.tc.getHash P)
  let mac ← Prog.lift (tls13FinishedMac P keys.cHs th 32 .sha256)
  pure (th, mac)

/-- `wn_SendAlert`, best effort, when the build sends alerts. -/
def sendAlert (keys : HsKeys) (seq : UInt64) (e : Err) : Proc Ev Unit :=
  if P.build.sendAlerts then do
    match ← (recordProtect P (5 + 2 + 1 + 16) keys.cKey keys.cIv seq recAlert
        [2, errToAlert e]).run with
    | .error _ => pure ()
    | .ok rec => do
        let _ ← Proc.write rec
        pure ()
  else
    pure ()

/-- The argument checks of `wn_connect_cert_impl`. -/
def CertArgs.connectOk (args : CertArgs) (B : Build) : Bool :=
  args.nonNull && certScratchMin B ≤ args.scratchLen

/-- `wn_connect_cert_impl` on a caller's session.  An alert is protected at
sequence 0 until our Finished takes that number. -/
def connectCertImpl (fuel : Nat) (rng : P.Rng) (args : CertArgs)
    (sess : Session) : Proc Ev (Ret × Session) :=
  if args.connectOk P.build = false then
    pure (.error .invalidArg, sess)
  else do
    match ← (connectCertHello P fuel rng args).run with
    | .error e => pure (.error e, .zero)
    | .ok (keys, emptyHash, tc) => do
        match ← (connectCertFlight P X fuel args keys tc).run with
        | .error e => do
            sendAlert P keys 0 e
            pure (.error e, .zero)
        | .ok (th, mac) => do
            match ← (sendClientFinished P args.scratchLen keys mac).run with
            | .error e => do
                sendAlert P keys 1 e
                pure (.error e, .zero)
            | .ok () => do
                match ← establishClient P keys emptyHash th args.scratchLen with
                | (.error e, sess) => do
                    sendAlert P keys 1 e
                    pure (.error e, sess)
                | (.ok (), sess) => pure (.ok (), sess)

end WolfNano
