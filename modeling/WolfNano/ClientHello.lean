/-
ClientHello: the two encoders (`wn_clienthello.c` and `build_client_hello` of
`wn_connect.c`) and the server's parser.  Loop counters keep the width the
source gives them; the pointers of a parsed message are offsets into it.
-/
import WolfNano.ServerHello

namespace WolfNano

open Duplex

/-- A writer with the two offsets `build_client_hello` reports. -/
structure PskHello where
  w : Writer
  truncOff : Nat
  binderOff : Nat

def Writer.u16s (w : Writer) (vs : List Nat) : Writer := vs.foldl Writer.u16 w

/-- `build_client_hello`: the PSK ClientHello with a zero binder. -/
def buildClientHello (B : Build) (w : Writer) (random32 sid cliPub : Bytes)
    (group : Nat) (identity : Bytes) : PskHello :=
  let w := w.u8 1
  let (w, hsLen) := w.lenStart 3
  let w := w.u16 0x0303
  let w := w.bytes (some random32) 32
  let w := w.u8 32
  let w := w.bytes (some sid) 32
  let w := w.u16s [2, 0x1301]
  let w := w.u8 1
  let w := w.u8 0
  let (w, extLen) := w.lenStart 2
  -- supported_versions
  let w := w.u16s [43, 3]
  let w := w.u8 2
  let w := w.u16 0x0304
  -- supported_groups
  let w := w.u16s [10, 4, 2, group]
  -- signature_algorithms
  let w := w.u16 13
  let w := match B.mldsa with
    | some level => w.u16s [8, 6, level.scheme]
    | none => w.u16s [6, 4]
  let w := w.u16s [0x0807, 0x0403]
  -- key_share
  let w := w.u16s [51, 6 + cliPub.length, 4 + cliPub.length, group, cliPub.length]
  let w := w.bytes (some cliPub) cliPub.length
  -- psk_key_exchange_modes
  let w := w.u16s [45, 2]
  let w := w.u8 1
  let w := w.u8 1
  -- pre_shared_key, last
  let w := w.u16 41
  let (w, pskLen) := w.lenStart 2
  let (w, idsLen) := w.lenStart 2
  let w := w.u16 identity.length
  let w := w.bytes (some identity) identity.length
  let w := w.u16s [0, 0]
  let w := w.lenEnd idsLen 2
  let truncOff := w.len
  let w := w.u16 33
  let w := w.u8 32
  let binderOff := w.len
  let w := (List.range 32).foldl (fun w _ => w.u8 0) w
  let w := w.lenEnd pskLen 2
  let w := w.lenEnd extLen 2
  let w := w.lenEnd hsLen 3
  ⟨w, truncOff, binderOff⟩

/-- The signature schemes the build can verify, in the order offered. -/
def offeredSchemes (B : Build) : List Nat :=
  (B.mldsa.map MldsaLevel.scheme).toList ++
  (if B.ed25519 then [0x0807] else []) ++
  (if B.ecc384 && B.sha384 then [0x0503] else []) ++
  (if B.ecc then [0x0403] else []) ++
  (if B.rsa then
    (if B.sha512 then [0x0806] else []) ++
    (if B.sha384 then [0x0805] else []) ++ [0x0804]
  else [])

/-- `wn_ClientHello_Build_ex` with non-NULL buffers. -/
def clientHelloBuildEx (B : Build) (outCap : Nat) (random32 sessionId : Bytes)
    (sessionIdLen : Nat) (pub : Bytes) (serverName : Option CStr) :
    Except Err Bytes :=
  let name := (serverName.map Subtype.val).getD []
  let nameLen := name.length
  if pub.length ≠ B.group.pubSz ∨ sessionIdLen > 32 ∨ nameLen > 255 then
    .error .invalidArg
  else
    let w := Writer.init outCap
    let w := w.u8 1
    let (w, hsLen) := w.lenStart 3
    let w := w.u16 0x0303
    let w := w.bytes (some random32) 32
    let w := w.u8 sessionIdLen
    let w :=
      if sessionIdLen > 0 then w.bytes (some sessionId) sessionIdLen else w
    let w := w.u16s [2, cipherAes128GcmSha256]
    let w := w.u8 1
    let w := w.u8 0
    let (w, extLen) := w.lenStart 2
    -- server_name: a single host_name entry
    let w :=
      if nameLen > 0 then
        let w := w.u16s [extServerName, 2 + 1 + 2 + nameLen, 1 + 2 + nameLen]
        let w := w.u8 0
        let w := w.u16 nameLen
        w.bytes (some name) nameLen
      else
        w
    let w := w.u16s [extSupportedVer, 3]
    let w := w.u8 2
    let w := w.u16 0x0304
    let w := w.u16s [extSupportedGrp, 4, 2, B.group.id]
    let w := w.u16 extSigAlgs
    let (w, saExt) := w.lenStart 2
    let (w, saList) := w.lenStart 2
    let w := w.u16s (offeredSchemes B)
    let w := w.lenEnd saList 2
    let w := w.lenEnd saExt 2
    let w := w.u16s
      [extKeyShare, 2 + 2 + 2 + pub.length, 2 + 2 + pub.length, B.group.id,
        pub.length]
    let w := w.bytes (some pub) pub.length
    let w := w.lenEnd extLen 2
    let w := w.lenEnd hsLen 3
    if w.err then .error .invalidArg else .ok w.buf

/-! ### Parser -/

/-- `wn_ClientHello`. -/
structure ClientHello where
  sessionId : Option Nat := none
  keyShare : Option Nat := none
  pskIdentity : Option Nat := none
  binder : Option Nat := none
  sigAlgs : Option Nat := none
  keyShareLen : Nat := 0
  pskIdentityLen : Nat := 0
  binderLen : Nat := 0
  binderTruncLen : Nat := 0
  sigAlgsLen : Nat := 0
  cipher : Nat := 0
  group : Nat := 0
  sessionIdLen : Nat := 0
  haveKeyShare : Bool := false
  havePsk : Bool := false
  deriving DecidableEq

/-- `wn_ClientHello_HasSigAlg`'s loop; `i` is 16 bits wide. -/
def hasSigAlgLoop : Nat → Bytes → Nat → Nat → Nat → Bool
  | 0, _, _, _, _ => false
  | fuel + 1, list, len, i, scheme =>
      if i + 1 < len then
        ofBE (slice list i 2) == scheme ||
          hasSigAlgLoop fuel list len ((i + 2) % 2 ^ 16) scheme
      else
        false

/-- `wn_ClientHello_HasSigAlg` of a message parsed to `ch`. -/
def ClientHello.hasSigAlg (ch : ClientHello) (msg : Bytes) (scheme : Nat) : Bool :=
  match ch.sigAlgs with
  | none => false
  | some off =>
      hasSigAlgLoop (ch.sigAlgsLen + 1) (slice msg off ch.sigAlgsLen)
        ch.sigAlgsLen 0 scheme

/-- The cipher suites; `i` is 16 bits wide. -/
def readCiphers : Nat → Nat → Nat → Nat → Reader → Nat × Reader
  | 0, _, _, cipher, r => (cipher, r)
  | fuel + 1, i, csLen, cipher, r =>
      if i < csLen then
        let (cs, r) := r.u16
        readCiphers fuel ((i + 2) % 2 ^ 16) csLen
          (if cs = cipherAes128GcmSha256 then cs else cipher) r
      else
        (cipher, r)

/-- The key_share entries; the last one of our group is kept. -/
def readShares (group : Nat) : Nat → Nat → ClientHello → Reader →
    ClientHello × Reader
  | 0, _, out, r => (out, r)
  | fuel + 1, ksEnd, out, r =>
      if r.pos < ksEnd ∧ r.err = false then
        let (g, r) := r.u16
        let (klen, r) := r.u16
        let (p, r) := r.bytes klen
        let out :=
          if g = group ∧ p.isSome then
            { out with
              keyShare := p, keyShareLen := klen, group := g, haveKeyShare := true }
          else
            out
        readShares group fuel ksEnd out r
      else
        (out, r)

/-- The supported groups: whether ours is among them. -/
def readGroups (group : Nat) : Nat → Nat → Bool → Reader → Bool × Reader
  | 0, _, offered, r => (offered, r)
  | fuel + 1, ksEnd, offered, r =>
      if r.err = false ∧ add32 r.pos 2 ≤ ksEnd then
        let (g, r) := r.u16
        readGroups group fuel ksEnd (offered || g == group) r
      else
        (offered, r)

/-- The supported versions; `j` is 8 bits wide. -/
def readVersions : Nat → Nat → Nat → Bool → Reader → Bool × Reader
  | 0, _, _, have13, r => (have13, r)
  | fuel + 1, j, nver, have13, r =>
      if j + 1 < nver then
        let (sv, r) := r.u16
        readVersions fuel ((j + 2) % 2 ^ 8) nver (have13 || sv == 0x0304) r
      else
        (have13, r)

/-- The PSK key exchange modes; `j` is 8 bits wide. -/
def readPskModes : Nat → Nat → Nat → Bool → Reader → Bool × Reader
  | 0, _, _, haveDhe, r => (haveDhe, r)
  | fuel + 1, j, pmLen, haveDhe, r =>
      if j < pmLen then
        let (m, r) := r.u8
        readPskModes fuel ((j + 1) % 2 ^ 8) pmLen (haveDhe || m == 1) r
      else
        (haveDhe, r)

/-- The offered identities; the first one is kept, `nId` is 16 bits wide. -/
def readIdentities : Nat → Nat → Nat → ClientHello → Reader →
    Nat × ClientHello × Reader
  | 0, _, nId, out, r => (nId, out, r)
  | fuel + 1, idsEnd, nId, out, r =>
      if r.pos < idsEnd ∧ r.err = false then
        let (idLen, r) := r.u16
        let (p, r) := r.bytes idLen
        let (_, r) := r.bytes 4
        let r := r.failWhen (idLen == 0)
        let out :=
          if nId = 0 then { out with pskIdentity := p, pskIdentityLen := idLen }
          else out
        readIdentities fuel idsEnd ((nId + 1) % 2 ^ 16) out r
      else
        (nId, out, r)

/-- The binders; the first one is kept, `nBnd` is 16 bits wide. -/
def readBinders : Nat → Nat → Nat → ClientHello → Reader →
    Nat × ClientHello × Reader
  | 0, _, nBnd, out, r => (nBnd, out, r)
  | fuel + 1, bndEnd, nBnd, out, r =>
      if r.pos < bndEnd ∧ r.err = false then
        let (blen, r) := r.u8
        let (p, r) := r.bytes blen
        let out :=
          if nBnd = 0 then { out with binder := p, binderLen := blen } else out
        readBinders fuel bndEnd ((nBnd + 1) % 2 ^ 16) out r
      else
        (nBnd, out, r)

/-- pre_shared_key: the identities, then one binder for each. -/
def readPreShared (out : ClientHello) (r : Reader) (eEnd : Nat) :
    ClientHello × Reader :=
  let (idsLen, r) := r.u16
  let idsEnd := add32 r.pos idsLen
  let r := r.failWhen (idsEnd > eEnd)
  let (nId, out, r) := readIdentities (idsLen + 1) idsEnd 0 out r
  let r := r.endsAt idsEnd
  let out := { out with binderTruncLen := r.pos }
  let (bndsLen, r) := r.u16
  let bndEnd := add32 r.pos bndsLen
  let r := r.failWhen (bndEnd != eEnd)
  let (nBnd, out, r) := readBinders (bndsLen + 1) bndEnd 0 out r
  let r := r.failWhen (r.pos != bndEnd || nId == 0 || nId != nBnd)
  ({ out with havePsk := true }, r)

/-- The locals of the extension loop of `wn_ClientHello_Parse`. -/
structure ClientHelloExts where
  r : Reader
  out : ClientHello
  seenExt : List Nat := []
  seenPsk : Bool := false
  haveTls13 : Bool := false
  havePskDhe : Bool := false
  haveGroups : Bool := false
  groupOffered : Bool := false

/-- The body of one extension of type `et` and length `el`. -/
def clientHelloExtBody (group : Nat) (st : ClientHelloExts) (et el eEnd : Nat) :
    ClientHelloExts :=
  if et = extKeyShare then
    let (ksVec, r) := st.r.u16
    let ksEnd := add32 r.pos ksVec
    let r := r.failWhen (ksEnd > eEnd)
    let (out, r) := readShares group (ksVec + 1) ksEnd st.out r
    { st with out := out, r := r }
  else if et = extSigAlgs then
    let (len, r) := st.r.u16
    let (p, r) := r.bytes len
    { st with out := { st.out with sigAlgs := p, sigAlgsLen := len }, r := r }
  else if et = extSupportedGrp then
    let (glen, r) := st.r.u16
    let ksEnd := add32 r.pos glen
    let (offered, r) := readGroups group (glen + 1) ksEnd st.groupOffered r
    { st with haveGroups := true, groupOffered := offered, r := r }
  else if et = extSupportedVer then
    let (nver, r) := st.r.u8
    let (have13, r) := readVersions (nver + 1) 0 nver st.haveTls13 r
    { st with haveTls13 := have13, r := r }
  else if et = extPskKexModes then
    let (pmLen, r) := st.r.u8
    let (haveDhe, r) := readPskModes (pmLen + 1) 0 pmLen st.havePskDhe r
    { st with havePskDhe := haveDhe, r := r }
  else if et = extPreShared then
    let (out, r) := readPreShared st.out st.r eEnd
    { st with seenPsk := true, out := out, r := r }
  else
    let (_, r) := st.r.bytes el
    { st with r := r }

/-- One round of the extension loop. -/
def clientHelloExt (group : Nat) (st : ClientHelloExts) (extEnd : Nat) :
    Except Err ClientHelloExts :=
  let (et, r) := st.r.u16
  let (el, r) := r.u16
  let eEnd := add32 r.pos el
  -- a duplicate, too many types, or an extension after pre_shared_key
  if r.err = true ∨ eEnd > extEnd ∨ st.seenPsk = true ∨ et ∈ st.seenExt ∨
      st.seenExt.length ≥ 40 then
    .error .decode
  else
    let st := clientHelloExtBody group { st with r := r } et el eEnd
    if st.r.err = true ∨ st.r.pos ≠ eEnd then
      .error .decode
    else
      .ok { st with seenExt := st.seenExt ++ [et] }

def clientHelloExts (group : Nat) : Nat → ClientHelloExts → Nat →
    Except Err ClientHelloExts
  | 0, st, _ => .ok st
  | fuel + 1, st, extEnd =>
      if st.r.pos < extEnd ∧ st.r.err = false then do
        let st ← clientHelloExt group st extEnd
        clientHelloExts group fuel st extEnd
      else
        .ok st

/-- Stop with `e` when `c` holds. -/
def failIf (c : Prop) [Decidable c] (e : Err) : Ret :=
  if c then .error e else .ok ()

/-- `wn_ClientHello_Parse`. -/
def clientHelloParse (B : Build) (msg : Bytes) : Except Err ClientHello := do
  let r := Reader.init msg
  let (type, r) := r.u8
  failIf (type ≠ 1) .unexpectedMsg
  let (hsLen, r) := r.u24
  failIf (add32 r.pos hsLen ≠ msg.length) .decode
  let (lver, r) := r.u16
  let (_, r) := r.bytes 32
  let (sidLen, r) := r.u8
  let (sessionId, r) := r.bytes sidLen
  let (csLen, r) := r.u16
  failIf (lver ≠ 0x0303 ∨ sidLen > 32 ∨ csLen % 2 ≠ 0) .decode
  let (cipher, r) := readCiphers (csLen + 1) 0 csLen 0 r
  let (compLen, r) := r.u8
  let (comp, r) := r.u8
  failIf (compLen ≠ 1 ∨ comp ≠ 0) .decode
  let (vecLen, r) := r.u16
  let extEnd := add32 r.pos vecLen
  failIf (r.err = true ∨ extEnd ≠ msg.length) .decode
  let out : ClientHello :=
    { sessionId := sessionId, sessionIdLen := sidLen, cipher := cipher }
  let st ← clientHelloExts B.group.id msg.length { r := r, out := out } extEnd
  let out := st.out
  failIf (out.cipher = 0 ∨ st.haveTls13 = false ∨ st.haveGroups = false ∨
    st.groupOffered = false ∨
    (out.haveKeyShare = true ∧ out.keyShareLen ≠ B.group.pubSz) ∨
    (out.havePsk = true ∧ (out.binderLen ≠ 32 ∨ st.havePskDhe = false)))
    .illegalParam
  pure out

end WolfNano
