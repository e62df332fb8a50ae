/-
ServerHello, HelloRetryRequest and EncryptedExtensions, `wn_serverhello.c` and
the checks of `wn_connect.c` on EncryptedExtensions.  The pointers of a parsed
message are offsets into it.
-/
import WolfNano.Wire

namespace WolfNano

open Duplex

/-- `WN_CIPHER_AES_128_GCM_SHA256`. -/
def cipherAes128GcmSha256 : Nat := 0x1301

def extServerName : Nat := 0
def extSupportedGrp : Nat := 10
def extSigAlgs : Nat := 13
def extPreShared : Nat := 41
def extSupportedVer : Nat := 43
def extPskKexModes : Nat := 45
def extKeyShare : Nat := 51

/-- `wn_hrr_random`. -/
def hrrRandom : Bytes :=
  [0xCF, 0x21, 0xAD, 0x74, 0xE5, 0x9A, 0x61, 0x11,
   0xBE, 0x1D, 0x8C, 0x02, 0x1E, 0x65, 0xB8, 0x91,
   0xC2, 0xA2, 0x11, 0x16, 0x7A, 0xBB, 0x8C, 0x5E,
   0x07, 0x9E, 0x09, 0xE2, 0xC8, 0xA8, 0x33, 0x9C]

/-- `wn_ServerHello`. -/
structure ServerHello where
  random : Option Nat := none
  keyShare : Option Nat := none
  sessionId : Option Nat := none
  keyShareLen : Nat := 0
  cipher : Nat := 0
  group : Nat := 0
  version : Nat := 0
  pskSelected : Int := -1
  isHelloRetry : Bool := false
  sessionIdLen : Nat := 0
  deriving DecidableEq

/-- The locals of the extension loop. -/
structure ServerHelloExts where
  r : Reader
  out : ServerHello
  seenKs : Bool
  seenVer : Bool
  seenPsk : Bool

/-- An extension body must end exactly at `eEnd`. -/
def Reader.endsAt (r : Reader) (eEnd : Nat) : Reader :=
  if r.pos ≠ eEnd then r.fail else r

def Reader.failWhen (r : Reader) (c : Bool) : Reader := if c then r.fail else r

/-- One round of the extension loop. -/
def serverHelloExt (st : ServerHelloExts) (extEnd : Nat) : ServerHelloExts :=
  let (et, r) := st.r.u16
  let (el, r) := r.u16
  let eEnd := add32 r.pos el
  if eEnd > extEnd then
    { st with r := r.fail }
  else if et = extKeyShare then
    let r := r.failWhen st.seenKs
    let (group, r) := r.u16
    let (klen, r) := r.u16
    let (keyShare, r) := r.bytes klen
    { st with
      r := r.endsAt eEnd
      seenKs := true
      out := { st.out with
        group := group, keyShare := keyShare, keyShareLen := klen } }
  else if et = extSupportedVer then
    let r := r.failWhen st.seenVer
    let (version, r) := r.u16
    { st with
      r := r.endsAt eEnd
      seenVer := true
      out := { st.out with version := version } }
  else if et = extPreShared then
    let r := r.failWhen st.seenPsk
    let (index, r) := r.u16
    { st with
      r := r.endsAt eEnd
      seenPsk := true
      out := { st.out with pskSelected := index } }
  else
    { st with r := r.fail }

/-- The extension loop; every round consumes at least four bytes or fails. -/
def serverHelloExts : Nat → ServerHelloExts → Nat → ServerHelloExts
  | 0, st, _ => st
  | fuel + 1, st, extEnd =>
      if st.r.pos < extEnd ∧ st.r.err = false then
        serverHelloExts fuel (serverHelloExt st extEnd) extEnd
      else
        st

/-- `wn_ServerHello_Parse`. -/
def serverHelloParse (msg : Bytes) : Except Err ServerHello :=
  let r := Reader.init msg
  let (type, r) := r.u8
  let (hsLen, r) := r.u24
  let (lver, r) := r.u16
  let (random, r) := r.bytes 32
  let out : ServerHello := { random := random }
  -- the retry is detected before its two-byte key_share could fail the parse
  if r.err = false ∧ type = 2 ∧
      random.map (fun off => slice msg off 32) = some hrrRandom then
    .ok { out with isHelloRetry := true }
  else
    let (sidLen, r) := r.u8
    let (sessionId, r) := r.bytes sidLen
    let (cipher, r) := r.u16
    let (comp, r) := r.u8
    let out := { out with
      sessionId := sessionId, sessionIdLen := sidLen, cipher := cipher }
    let (extLen, r) := r.u16
    let extEnd := add32 r.pos extLen
    let r := r.failWhen (extEnd > msg.length)
    let extEnd := min extEnd msg.length
    let st := serverHelloExts msg.length ⟨r, out, false, false, false⟩ extEnd
    if st.r.err = true ∨ type ≠ 2 ∨ hsLen ≠ msg.length - 4 ∨
        random = none ∨ lver ≠ 0x0303 ∨ comp ≠ 0 ∨ extEnd ≠ msg.length then
      .error .invalidArg
    else
      .ok st.out

/-- The writer calls `wn_ServerHello_Build` and `wn_HelloRetryRequest_Build`
share: everything up to the key_share extension, which `share` writes. -/
def writeServerHello (outCap : Nat) (random32 sessionId : Bytes)
    (sessionIdLen cipher : Nat) (share : Writer → Writer) : Except Err Bytes :=
  let w := Writer.init outCap
  let w := w.u8 2
  let (w, body) := w.lenStart 3
  let w := w.u16 0x0303
  let w := w.bytes (some random32) 32
  let w := w.u8 sessionIdLen
  let w := w.bytes (some sessionId) sessionIdLen
  let w := w.u16 cipher
  let w := w.u8 0
  let (w, ext) := w.lenStart 2
  let w := w.u16 extSupportedVer
  let w := w.u16 2
  let w := w.u16 0x0304
  let w := share w
  let w := w.lenEnd ext 2
  let w := w.lenEnd body 3
  if w.err then .error .crypto else .ok w.buf

/-- `wn_ServerHello_Build`. -/
def serverHelloBuild (outCap : Nat) (random32 sessionId : Bytes)
    (sessionIdLen cipher group : Nat) (srvPub : Bytes) (pskIdentity : Nat)
    (includePsk : Bool) : Except Err Bytes :=
  writeServerHello outCap random32 sessionId sessionIdLen cipher fun w =>
    let w := w.u16 extKeyShare
    let w := w.u16 (4 + srvPub.length)
    let w := w.u16 group
    let w := w.u16 srvPub.length
    let w := w.bytes (some srvPub) srvPub.length
    if includePsk then
      let w := w.u16 extPreShared
      let w := w.u16 2
      w.u16 pskIdentity
    else
      w

/-- `wn_HelloRetryRequest_Build`. -/
def helloRetryRequestBuild (outCap : Nat) (sessionId : Bytes)
    (sessionIdLen cipher group : Nat) : Except Err Bytes :=
  writeServerHello outCap hrrRandom sessionId sessionIdLen cipher fun w =>
    let w := w.u16 extKeyShare
    let w := w.u16 2
    w.u16 group

/-- `wn_EncExt_Build`. -/
def encExtBuild (outCap : Nat) : Except Err Bytes :=
  let w := Writer.init outCap
  let w := w.u8 8
  let (w, body) := w.lenStart 3
  let w := w.u16 0
  let w := w.lenEnd body 3
  if w.err then .error .crypto else .ok w.buf

/-- The extension loop of `wn_CheckEncExt`. -/
def checkEncExts : Nat → Reader → Nat → Bool → Ret
  | 0, _, _, _ => .ok ()
  | fuel + 1, r, extEnd, sniOffered =>
      if r.pos < extEnd ∧ r.err = false then
        let (et, r) := r.u16
        let (el, r) := r.u16
        let (_, r) := r.bytes el
        if r.err then
          .error .decode
        else if et = extSupportedGrp ∨
            (et = extServerName ∧ sniOffered ∧ el = 0) then
          checkEncExts fuel r extEnd sniOffered
        else
          .error .unexpectedMsg
      else
        .ok ()

/-- `wn_CheckEncExt`. -/
def checkEncExt (body : Bytes) (sniOffered : Bool) : Ret :=
  let r := Reader.init body
  let (extLen, r) := r.u16
  let extEnd := add32 r.pos extLen
  if r.err = true ∨ extEnd ≠ body.length then
    .error .decode
  else
    checkEncExts body.length r extEnd sniOffered

end WolfNano
