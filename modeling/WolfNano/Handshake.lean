/-
Handshake helpers, `wn_handshake.c`.  `wn_connect.c` keeps private copies of
the plaintext send, of `wn_DeriveHsKeys` (the same body) and of
`wn_SessionEstablish` (the client's labels).
-/
import WolfNano.Session

namespace WolfNano

open Duplex

def hsEncryptedExt : UInt8 := 8
def hsCertificate : UInt8 := 11
def hsCertRequest : UInt8 := 13
def hsCertVerify : UInt8 := 15
def hsFinished : UInt8 := 20

/-- The header `wn_SendPlainRecord` sends. -/
def plainHeader (type : UInt8) (bodyLen : Nat) : Bytes :=
  [type, 0x03, 0x03] ++ u16 bodyLen

/-- `wn_SendPlainRecord`, and `send_plain_record` of `wn_connect.c`. -/
def sendPlainRecord (type : UInt8) (body : Bytes) : Shell Unit := do
  let r ← Prog.send (plainHeader type body.length)
  Prog.failIf (r ≠ 5) .crypto
  let r ← Prog.send body
  Prog.failIf (r ≠ body.length) .crypto

/-- `wn_SendCcs`, and `send_ccs` of `wn_connect.c`. -/
def sendCcs : Shell Unit := sendPlainRecord recChangeCipher [0x01]

/-- Send a whole protected record. -/
def sendRecord (rec : Bytes) : Shell Unit := do
  let r ← Prog.send rec
  Prog.failIf (r ≠ rec.length) .crypto

/-- The 24-bit length at the second byte of a handshake message. -/
def hsMsgLen (acc : Bytes) (off : Nat) : Nat := ofBE (slice acc (off + 1) 3)

/-- `wn_RecvHandshake` into an accumulator of `accCap` bytes, with `acc` already
there; records are read into `tmpCap` bytes. -/
def recvHandshake (accCap tmpCap : Nat) : Nat → Bytes → Shell Bytes
  | 0, _ => Prog.spin
  | fuel + 1, acc => do
      let rec ← recvRecord tmpCap
      if rec.isCcs then
        recvHandshake accCap tmpCap fuel acc
      else do
        Prog.failIf
          (rec.rtype ≠ recHandshake ∨ rec.bytes.length ≤ recordHeaderSz)
          .unexpectedMsg
        Prog.failIf (rec.fragment.length > accCap - acc.length) .decode
        Prog.note (.copy accCap acc.length rec.fragment.length)
        let acc := acc ++ rec.fragment
        if acc.length < 4 then
          recvHandshake accCap tmpCap fuel acc
        else do
          let mLen := hsMsgLen acc 0
          Prog.failIf (4 + mLen > accCap) .decode
          if acc.length < 4 + mLen then
            recvHandshake accCap tmpCap fuel acc
          else do
            -- the first flight carries exactly one message
            Prog.failIf (acc.length ≠ 4 + mLen) .decode
            pure acc

variable (P : Platform)

/-- The handshake secrets and record keys. -/
structure HsKeys where
  hs : Bytes
  cHs : Bytes
  sHs : Bytes
  cKey : Bytes
  cIv : Bytes
  sKey : Bytes
  sIv : Bytes
  deriving DecidableEq

/-- `wn_DeriveHsKeys`. -/
def deriveHsKeys (early ecdhe emptyHash th : Bytes) : Except Err HsKeys := do
  let derived ← tls13DeriveSecret P early "derived" emptyHash 32 .sha256
  let hs ← tls13Extract P derived ecdhe .sha256
  let cHs ← tls13DeriveSecret P hs "c hs traffic" th 32 .sha256
  let sHs ← tls13DeriveSecret P hs "s hs traffic" th 32 .sha256
  let cKey ← tls13ExpandLabel P 16 cHs "key" [] .sha256
  let cIv ← tls13ExpandLabel P 12 cHs "iv" [] .sha256
  let sKey ← tls13ExpandLabel P 16 sHs "key" [] .sha256
  let sIv ← tls13ExpandLabel P 12 sHs "iv" [] .sha256
  pure ⟨hs, cHs, sHs, cKey, cIv, sKey, sIv⟩

/-- A buffer after an operation that writes it on success only. -/
def written (old : Bytes) : Except Err Bytes → Bytes
  | .ok new => new
  | .error _ => old

@[simp] theorem written_ok (old new : Bytes) : written old (.ok new) = new := rfl

def succeeded {α : Type} : Except Err α → Bool
  | .ok _ => true
  | .error _ => false

@[simp] theorem succeeded_ok {α : Type} (a : α) : succeeded (.ok a) = true := rfl

@[simp] theorem succeeded_error {α : Type} (e : Err) :
    succeeded (.error e : Except Err α) = false := rfl

/-- The body of the two `wn_SessionEstablish`: a failing derivation does not
stop the later ones, and the session is filled in when all succeeded. -/
def sessionEstablishWith (ourLabel peerLabel : String) (sess : Session)
    (hs emptyHash zeros32 th : Bytes) (scratchLen : Nat) : Ret × Session :=
  let derived? := tls13DeriveSecret P hs "derived" emptyHash 32 .sha256
  let derived := written (zeros 32) derived?
  let master? := tls13Extract P derived zeros32 .sha256
  let master := written (zeros 32) master?
  let cApp? := tls13DeriveSecret P master ourLabel th 32 .sha256
  let cApp := written sess.cAppSecret cApp?
  let sApp? := tls13DeriveSecret P master peerLabel th 32 .sha256
  let sApp := written sess.sAppSecret sApp?
  let cKey? := tls13ExpandLabel P 16 cApp "key" [] .sha256
  let cIv? := tls13ExpandLabel P 12 cApp "iv" [] .sha256
  let sKey? := tls13ExpandLabel P 16 sApp "key" [] .sha256
  let sIv? := tls13ExpandLabel P 12 sApp "iv" [] .sha256
  let sess := { sess with
    cAppSecret := cApp
    sAppSecret := sApp
    cKey := written sess.cKey cKey?
    cIv := written sess.cIv cIv?
    sKey := written sess.sKey sKey?
    sIv := written sess.sIv sIv? }
  match [derived?, master?, cApp?, sApp?, cKey?, cIv?, sKey?, sIv?].all succeeded with
  | false => (.error .crypto, sess)
  | true =>
      (.ok (), { sess with
        io := true
        scratchLen := scratchLen
        cSeq := 0
        sSeq := 0
        digest := .sha256
        established := true
        closed := false })

inductive Role where
  | client
  | server
  deriving DecidableEq, Repr

/-- `wn_SessionEstablish` of `wn_handshake.c`. -/
def sessionEstablish (role : Role) : Session → (hs emptyHash zeros32 th : Bytes) →
    (scratchLen : Nat) → Ret × Session :=
  match role with
  | .server => sessionEstablishWith P "s ap traffic" "c ap traffic"
  | .client => sessionEstablishWith P "c ap traffic" "s ap traffic"

/-- `wn_SessionEstablish` of `wn_connect.c`. -/
def sessionEstablishClient : Session → (hs emptyHash zeros32 th : Bytes) →
    (scratchLen : Nat) → Ret × Session :=
  sessionEstablishWith P "c ap traffic" "s ap traffic"

/-! ### What an established session holds -/

/-- A traffic secret of the master secret, with its key and IV. -/
def appTraffic (master : Bytes) (label : String) (th : Bytes) :
    Except Err TrafficKeys := do
  let secret ← tls13DeriveSecret P master label th 32 .sha256
  let key ← tls13ExpandLabel P 16 secret "key" [] .sha256
  let iv ← tls13ExpandLabel P 12 secret "iv" [] .sha256
  pure ⟨secret, key, iv⟩

/-- The application secrets of RFC 8446 7.1 for two labels. -/
def appSecrets (ourLabel peerLabel : String) (hs emptyHash zeros32 th : Bytes) :
    Except Err (TrafficKeys × TrafficKeys) := do
  let derived ← tls13DeriveSecret P hs "derived" emptyHash 32 .sha256
  let master ← tls13Extract P derived zeros32 .sha256
  let our ← appTraffic P master ourLabel th
  let peer ← appTraffic P master peerLabel th
  pure (our, peer)

/-- A session ready for use, with these write and read keys. -/
def Session.fresh (our peer : TrafficKeys) (scratchLen : Nat) : Session where
  io := true
  scratchLen := scratchLen
  cAppSecret := our.secret
  sAppSecret := peer.secret
  cKey := our.key
  cIv := our.iv
  sKey := peer.key
  sIv := peer.iv
  cSeq := 0
  sSeq := 0
  digest := .sha256
  established := true
  closed := false

variable {P}

/-- The IVs of a successful derivation have the length of a nonce. -/
theorem deriveHsKeys_iv {early ecdhe emptyHash th : Bytes} {keys : HsKeys}
    (h : deriveHsKeys P early ecdhe emptyHash th = .ok keys) :
    keys.cIv.length = 12 ∧ keys.sIv.length = 12 := by
  simp only [deriveHsKeys, except_bind_eq_ok, except_pure_eq_ok] at h
  obtain ⟨_, -, _, -, _, -, _, -, _, -, cIv, hcIv, _, -, sIv, hsIv, rfl⟩ := h
  exact ⟨tls13ExpandLabel_length hcIv, tls13ExpandLabel_length hsIv⟩

theorem appTraffic_iv {master th : Bytes} {label : String} {t : TrafficKeys}
    (h : appTraffic P master label th = .ok t) : t.iv.length = 12 := by
  simp only [appTraffic, except_bind_eq_ok, except_pure_eq_ok] at h
  obtain ⟨_, -, _, -, iv, hiv, rfl⟩ := h
  exact tls13ExpandLabel_length hiv

/-- A session is filled in exactly when every derivation succeeded, and then
holds the derived secrets. -/
theorem sessionEstablishWith_ok {ourLabel peerLabel : String} {sess sess' : Session}
    {hs emptyHash zeros32 th : Bytes} {scratchLen : Nat} :
    sessionEstablishWith P ourLabel peerLabel sess hs emptyHash zeros32 th scratchLen
        = (.ok (), sess') ↔
      ∃ our peer, appSecrets P ourLabel peerLabel hs emptyHash zeros32 th
          = .ok (our, peer) ∧ sess' = .fresh our peer scratchLen := by
  unfold sessionEstablishWith appSecrets appTraffic
  rcases tls13DeriveSecret P hs "derived" emptyHash 32 .sha256 with e | derived
  · simp [bind, Except.bind]
  · simp only [written_ok, bind, Except.bind]
    rcases tls13Extract P derived zeros32 .sha256 with e | master
    · simp
    · simp only [written_ok]
      rcases tls13DeriveSecret P master ourLabel th 32 .sha256 with e | our
      · simp
      · simp only [written_ok]
        rcases tls13ExpandLabel P 16 our "key" [] .sha256 with e | key
        · simp
        · rcases tls13ExpandLabel P 12 our "iv" [] .sha256 with e | iv
          · simp
          · simp only [pure, Except.pure]
            rcases tls13DeriveSecret P master peerLabel th 32 .sha256 with e | peer
            · simp
            · simp only [written_ok]
              rcases tls13ExpandLabel P 16 peer "key" [] .sha256 with e | pkey
              · simp
              · rcases tls13ExpandLabel P 12 peer "iv" [] .sha256 with e | piv
                · simp
                · simp only [succeeded_ok, List.all_cons, List.all_nil, Bool.and_self,
                    written_ok, Prod.mk.injEq, true_and, Except.ok.injEq]
                  constructor
                  · rintro rfl
                    exact ⟨_, _, ⟨rfl, rfl⟩, rfl⟩
                  · rintro ⟨_, _, ⟨rfl, rfl⟩, rfl⟩
                    rfl

theorem sessionEstablishWith_iv {ourLabel peerLabel : String} {sess sess' : Session}
    {hs emptyHash zeros32 th : Bytes} {scratchLen : Nat}
    (h : sessionEstablishWith P ourLabel peerLabel sess hs emptyHash zeros32 th
      scratchLen = (.ok (), sess')) : sess'.cIv.length = 12 := by
  obtain ⟨our, peer, happ, rfl⟩ := sessionEstablishWith_ok.1 h
  simp only [appSecrets, except_bind_eq_ok, except_pure_eq_ok] at happ
  obtain ⟨_, -, _, -, our', hour, _, -, heq⟩ := happ
  cases heq
  exact appTraffic_iv hour

/-- A failed attempt leaves the flags alone. -/
theorem sessionEstablishWith_error {ourLabel peerLabel : String}
    {sess sess' : Session} {hs emptyHash zeros32 th : Bytes} {scratchLen : Nat}
    {e : Err}
    (h : sessionEstablishWith P ourLabel peerLabel sess hs emptyHash zeros32 th
      scratchLen = (.error e, sess')) :
    e = .crypto ∧ sess'.established = sess.established ∧
      sess'.closed = sess.closed := by
  unfold sessionEstablishWith at h
  dsimp only at h
  split at h
  · cases h
    exact ⟨rfl, rfl, rfl⟩
  · cases h

end WolfNano
