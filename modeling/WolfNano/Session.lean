/-
The application-data session, `wn_session.c`.  A call returns its code and the
session it leaves behind; the caller's buffer for record framing is modelled by
its length, since no call reads what an earlier one left in it.
-/
import WolfNano.Record
import WolfNano.KeySchedule
import WolfNano.Wire

namespace WolfNano

open Duplex

/-- `wn_Session`.  The two flag bits are kept apart, and `io` says whether the
transport callbacks are set. -/
structure Session where
  io : Bool
  scratchLen : Nat
  cAppSecret : Bytes
  sAppSecret : Bytes
  cKey : Bytes
  cIv : Bytes
  sKey : Bytes
  sIv : Bytes
  cSeq : UInt64
  sSeq : UInt64
  digest : Digest
  established : Bool
  closed : Bool
  deriving DecidableEq

namespace Session

/-- The session `ForceZero` leaves. -/
def zero : Session where
  io := false
  scratchLen := 0
  cAppSecret := zeros 32
  sAppSecret := zeros 32
  cKey := zeros 16
  cIv := zeros 12
  sKey := zeros 16
  sIv := zeros 12
  cSeq := 0
  sSeq := 0
  digest := .none
  established := false
  closed := false

/-- Our write side. -/
def writeKeys (s : Session) : TrafficKeys := ⟨s.cAppSecret, s.cKey, s.cIv⟩

/-- The peer's write side. -/
def readKeys (s : Session) : TrafficKeys := ⟨s.sAppSecret, s.sKey, s.sIv⟩

def setWriteKeys (s : Session) (t : TrafficKeys) : Session :=
  { s with cAppSecret := t.secret, cKey := t.key, cIv := t.iv }

def setReadKeys (s : Session) (t : TrafficKeys) : Session :=
  { s with sAppSecret := t.secret, sKey := t.key, sIv := t.iv }

end Session

def hsNewSessionTicket : Nat := 4
def hsKeyUpdate : Nat := 24

def kuNotRequested : UInt8 := 0
def kuRequested : Nat := 1

variable (P : Platform)

/-- The message of `wn_session_send_key_update`. -/
def keyUpdateMsg (req : UInt8) : Bytes := [24, 0, 0, 1, req]

/-- The rotation at the end of `wn_session_send_key_update`.  The new write key
is observed also when deriving the IV failed after it was stored. -/
def rotateWrite (s : Session) : Proc Ev (Ret × Session) :=
  match tls13KeyUpdate P s.writeKeys s.digest with
  | (.ok (), t) => do
      Proc.emit (.writeKey t.key t.iv)
      pure (.ok (), { s.setWriteKeys t with cSeq := 0 })
  | (.error e, t) => do
      if t.key ≠ s.cKey then Proc.emit (.writeKey t.key t.iv) else pure ()
      pure (.error e, s.setWriteKeys t)

/-- `wn_session_send_key_update`, with its local record buffer of 27 bytes. -/
def sendKeyUpdate (s : Session) : Proc Ev (Ret × Session) := do
  match ← (recordProtect P (5 + 5 + 1 + 16) s.cKey s.cIv s.cSeq recHandshake
      (keyUpdateMsg kuNotRequested)).run with
  | .error e => pure (.error e, s)
  | .ok rec => do
      let s := { s with cSeq := s.cSeq + 1 }
      let r ← Proc.write rec
      if r ≠ rec.length then pure (.error .crypto, s) else rotateWrite P s

/-- One message of a post-handshake record. -/
def posthsMsg (s : Session) (r : Reader) : Proc Ev (Except Err Reader × Session) :=
  let (mType, r) := r.u8
  let (mLen, r) := r.u24
  if mType = hsNewSessionTicket then
    let (_, r) := r.bytes mLen
    pure (.ok r, s)
  else if mType = hsKeyUpdate then
    let (req, r) := r.u8
    if r.err = true ∨ mLen ≠ 1 ∨ req > kuRequested then
      pure (.error .decode, s)
    else
      match tls13KeyUpdate P s.readKeys s.digest with
      | (.error e, t) => pure (.error e, s.setReadKeys t)
      | (.ok (), t) =>
          let s := { s.setReadKeys t with sSeq := 0 }
          if req = kuRequested then do
            match ← sendKeyUpdate P s with
            | (.error e, s) => pure (.error e, s)
            | (.ok (), s) => pure (.ok r, s)
          else
            pure (.ok r, s)
  else
    pure (.error .unexpectedMsg, s)

/-- The loop of `wn_session_posths`; every message takes at least a byte. -/
def posthsLoop : Nat → Session → Reader → Proc Ev (Ret × Session)
  | 0, _, _ => .spin
  | fuel + 1, s, r =>
      if r.pos < r.buf.length then do
        match ← posthsMsg P s r with
        | (.error e, s) => pure (.error e, s)
        | (.ok r, s) =>
            if r.err then pure (.error .decode, s) else posthsLoop fuel s r
      else
        pure (.ok (), s)

/-- `wn_session_posths`. -/
def sessionPosths (s : Session) (msg : Bytes) : Proc Ev (Ret × Session) :=
  posthsLoop P (msg.length + 1) s (Reader.init msg)

/-- The state checks at the start of `wn_Send` and `wn_Recv`. -/
def Session.check (s : Session) : Ret :=
  if s.closed then .error .closed
  else if !s.established then .error .badState
  else .ok ()

/-- `WN_RECORD_HEADER_SZ + 1 + WN_RECORD_TAG_SZ`. -/
def recordOverhead : Nat := 5 + 1 + 16

/-- `wn_Send`; `none` is a NULL pointer. -/
def wnSend (s : Session) (data : Option Bytes) : Proc Ev (Ret × Session) :=
  match data, s.check with
  | none, _ => pure (.error .invalidArg, s)
  | some _, .error e => pure (.error e, s)
  | some data, .ok () =>
      if data.length > maxPlaintext ∨ s.scratchLen < recordOverhead ∨
          data.length > s.scratchLen - recordOverhead then
        pure (.error .invalidArg, s)
      else do
        match ← (recordProtect P s.scratchLen s.cKey s.cIv s.cSeq recAppdata
            data).run with
        | .error e => pure (.error e, s)
        | .ok rec => do
            let s := { s with cSeq := s.cSeq + 1 }
            let r ← Proc.write rec
            if r ≠ rec.length then pure (.error .crypto, s) else pure (.ok (), s)

/-- One record of the loop of `wn_Recv`: an error, application data for the
caller, or a record that was dealt with (`none`). -/
def recvOne (s : Session) (outCap : Nat) :
    Proc Ev (Except Err (Option Bytes) × Session) := do
  match ← (recvRecord s.scratchLen).run with
  | .error e => pure (.error e, s)
  | .ok rec =>
      -- a ChangeCipherSpec is only valid in the handshake
      if rec.isCcs then
        pure (.error .unexpectedMsg, s)
      else do
        match ← (recordUnprotect P (s.scratchLen - recordHeaderSz) s.sKey s.sIv
            s.sSeq rec.bytes).run with
        | .error e => pure (.error e, s)
        | .ok (contentType, plain) =>
            let s := { s with sSeq := s.sSeq + 1 }
            if contentType = recAppdata then
              if plain.length > outCap then
                pure (.error .invalidArg, s)
              else do
                Proc.emit (.copy outCap 0 plain.length)
                pure (.ok (some plain), s)
            else if contentType = recHandshake then do
              match ← sessionPosths P s plain with
              | (.error e, s) => pure (.error e, s)
              | (.ok (), s) => pure (.ok none, s)
            else if contentType = recAlert then
              if plain.length ≥ 2 ∧ plain.getD 1 0 = 0 then
                pure (.error .closed, { s with closed := true })
              else
                pure (.error .crypto, s)
            else
              pure (.error .unexpectedMsg, s)

/-- The loop of `wn_Recv`, up to the first error or application record. -/
def recvLoop : Nat → Session → Nat → Proc Ev (Except Err Bytes × Session)
  | 0, _, _ => .spin
  | fuel + 1, s, outCap => do
      match ← recvOne P s outCap with
      | (.error e, s) => pure (.error e, s)
      | (.ok (some plain), s) => pure (.ok plain, s)
      | (.ok none, s) => recvLoop fuel s outCap

/-- What `wn_Recv` leaves with its caller: the code, the output buffer and the
output length, and the session. -/
structure RecvOut where
  ret : Ret
  out : Option Bytes
  outLen : Option Nat
  s : Session

/-- The data a successful call returns: the first `*outLen` bytes of `out`. -/
def RecvOut.data (res : RecvOut) : Option Bytes :=
  match res.ret with
  | .error _ => none
  | .ok () => res.out.map fun buf => buf.take (res.outLen.getD 0)

/-- `wn_Recv`; `out` and `outLen` are the caller's buffer and variable before
the call, `none` for a NULL pointer. -/
def wnRecv (fuel : Nat) (s : Session) (out : Option Bytes) (outCap : Nat)
    (outLen : Option Nat) : Proc Ev RecvOut :=
  match out, outLen, s.check with
  | some buf, some _, .ok () => do
      match ← recvLoop P fuel s outCap with
      | (.error e, s) => pure ⟨.error e, out, some 0, s⟩
      | (.ok plain, s) =>
          pure ⟨.ok (), some (splice buf 0 plain), some plain.length, s⟩
  | some _, some _, .error e => pure ⟨.error e, out, outLen, s⟩
  | _, _, _ => pure ⟨.error .invalidArg, out, outLen, s⟩

/-- `wn_Close`, with its local record buffer of 24 bytes. -/
def wnClose (s : Session) : Proc Ev (Ret × Session) :=
  if !s.closed && s.established && s.io then do
    match ← (recordProtect P (5 + 2 + 1 + 16) s.cKey s.cIv s.cSeq recAlert
        [1, 0]).run with
    | .error e => pure (.error e, .zero)
    | .ok rec => do
        let _ ← Proc.write rec
        pure (.ok (), .zero)
  else
    pure (.ok (), .zero)

end WolfNano
