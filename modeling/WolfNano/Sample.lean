/-
A platform for trying the model out: arithmetic on big-endian numbers in place
of the cryptography.  It obeys the laws an honest provider obeys and is
computable, so the assumptions of the later results hold together and the
drivers can be run against each other.
-/
import WolfNano.ConnectCert
import WolfNano.Accept
import WolfNano.Peer

namespace WolfNano

open Duplex

namespace Sample

/-- A tag of 16 octets over everything the AEAD binds. -/
def tag (key nonce aad ct : Bytes) : Bytes :=
  be 16 (ofBE key + 3 * ofBE nonce + 5 * ofBE aad + 7 * ofBE ct)

def platform : Platform where
  build := {
    group := .x25519
    sendAlerts := true
    mldsa := none
    mldsaSign := false
    ed25519 := true
    ecc := true
    ecc384 := false
    rsa := false
    rsaFull := false
    sha384 := false
    sha512 := false }
  Rng := Nat
  DhKey := Nat
  KemKey := Nat
  VerifyKey := Bytes
  SignKey := Bytes
  rngBlock g n := some (be n g, g + 1)
  hashInit _ := true
  hashUpdate _ _ _ := true
  hash d m := some (be d.size (ofBE m + m.length))
  hkdfExtract d salt ikm := some (be d.size (ofBE salt + ofBE ikm + 1))
  hkdfExpandLabel _ n secret _ label info :=
    some (be n (ofBE secret + ofBE label + ofBE info + 1))
  hmac d key msg := some (be d.size (ofBE key + 3 * ofBE msg))
  aesInit := true
  aesKey _ := true
  gcmEncrypt key nonce aad plain := some (plain, tag key nonce aad plain)
  gcmDecrypt key nonce aad ct t :=
    if t = tag key nonce aad ct then some ct else none
  gcmDecryptOver _ _ _ _ _ _ := none
  dhInit _ := true
  dhMake _ g := some (g + 2, g + 1)
  dhPublic c k := some (be c.pubSz k)
  dhShared _ k peer := some (be 32 (k * ofBE peer))
  kemInit := true
  kemMake g := some (g + 2, g + 1)
  kemPublic k := some (be 1184 k)
  kemEncap pub g := some ((be 1088 g, be 32 (g * ofBE pub)), g + 1)
  kemDecap k ct := some (be 32 (k * ofBE ct))
  sigInit _ := true
  verifyKey _ spki := some spki
  verify _ key msg sig := sig == be 32 (ofBE key + 3 * ofBE msg)
  signKey _ der := some der
  sign _ key msg cap g :=
    if 32 ≤ cap then some (be 32 (ofBE key + 3 * ofBE msg), g) else none
  rngBlock_length h := by cases h; simp
  hash_length h := by cases h; simp
  hkdfExtract_length h := by cases h; simp
  hkdfExpandLabel_length h := by cases h; simp
  hmac_length h := by cases h; simp
  gcmEncrypt_length h := by cases h; simp [tag]
  gcmDecrypt_length h := by
    split at h
    · cases h; rfl
    · cases h
  gcmDecryptOver_length h := by cases h
  dhPublic_length h := by cases h; simp
  dhShared_length h := by cases h; simp
  kemPublic_length h := by cases h; simp
  kemEncap_length h := by cases h; simp
  kemDecap_length h := by cases h; simp

theorem opensSealed : platform.OpensSealed := by
  intro key nonce aad plain ct t h
  cases h
  exact if_pos rfl

/-- A transport that has these bytes to read, and takes every buffer whole or,
when broken, takes nothing. -/
def tape (broken : Bool) : Handler Bytes where
  send s buf := (if broken then 0 else buf.length, s)
  recv s n :=
    if h : n ≤ s.length then (some ⟨s.take n, by simp [h]⟩, s.drop n) else (none, s)

/-- What a program did and returned on a tape. -/
def play {α : Type} (p : Proc Ev α) (bytes : Bytes) (broken : Bool) :
    Option (α × Bytes × List (Act Ev)) :=
  p.exec (tape broken) bytes

theorem play_runs {α : Type} {p : Proc Ev α} {bytes : Bytes} {broken : Bool}
    (h : (play p bytes broken).isSome) :
    p.Runs ((play p bytes broken).get h).2.2 ((play p bytes broken).get h).1 :=
  Proc.exec_runs (tape broken) (Option.some_get h).symm

theorem play_runs_ret {p : Proc Ev (Ret × Session)} {bytes : Bytes} {broken : Bool}
    (h : (play p bytes broken).isSome) {ret : Ret}
    (hret : ((play p bytes broken).get h).1.1 = ret) :
    p.Runs ((play p bytes broken).get h).2.2
      (ret, ((play p bytes broken).get h).1.2) := by
  subst hret
  exact play_runs h

section Shown

variable {α β : Type} {o : Option α} {f : α → β} {b : β}

/-- What one evaluation of a run shows. -/
theorem isSome_of_map (h : o.map f = some b) : o.isSome = true := by
  obtain ⟨a, rfl, -⟩ := Option.map_eq_some_iff.1 h
  rfl

theorem get_of_map (h : o.map f = some b) (hsome : o.isSome = true) : f (o.get hsome) = b := by
  obtain ⟨a, rfl, ha⟩ := Option.map_eq_some_iff.1 h
  exact ha

theorem get_of_map_pair {γ : Type} {g : α → γ} {c : γ}
    (h : o.map (fun a => (f a, g a)) = some (b, c)) (hsome : o.isSome = true) :
    f (o.get hsome) = b ∧ g (o.get hsome) = c := by
  obtain ⟨a, rfl, ha⟩ := Option.map_eq_some_iff.1 h
  exact Prod.mk.inj ha

end Shown

theorem play_shows {α β : Type} {p : Proc Ev α} {bytes : Bytes} {broken : Bool}
    {f : α × Bytes × List (Act Ev) → β} {b : β} (h : (play p bytes broken).map f = some b) :
    ∃ x, p.Runs x.2.2 x.1 ∧ f x = b := by
  obtain ⟨x, hplay, hx⟩ := Option.map_eq_some_iff.1 h
  exact ⟨x, Proc.exec_runs (tape broken) hplay, hx⟩

/-- The bytes a program sent on a tape. -/
def sentOn {α : Type} (p : Proc Ev α) (bytes : Bytes) : Bytes :=
  ((play p bytes false).map fun x => (sends x.2.2).flatten).getD []

/-- One call of a session on a tape, with fuel for a few records. -/
def playCall (P : Platform) (s : Session) (call : Call) (bytes : Bytes)
    (broken : Bool) : Option (Session × CallSeen) :=
  match call with
  | .send data =>
      (play (wnSend P s data) bytes broken).map fun x =>
        (x.1.2, ⟨call, s, x.2.2, x.1.1, none⟩)
  | .recv out outCap outLen =>
      (play (wnRecv P 4 s out outCap outLen) bytes broken).map fun x =>
        (x.1.s, ⟨call, s, x.2.2, x.1.ret, x.1.data⟩)
  | .close =>
      (play (wnClose P s) bytes broken).map fun x => (x.1.2, ⟨call, s, x.2.2, x.1.1, none⟩)

/-- Calls one after the other, each with its own tape. -/
def playCalls (P : Platform) :
    Session → List (Call × Bytes × Bool) → Option (Session × List CallSeen)
  | s, [] => some (s, [])
  | s, (call, bytes, broken) :: rest =>
      (playCall P s call bytes broken).bind fun x =>
        (playCalls P x.1 rest).map fun y => (y.1, x.2 :: y.2)

theorem playCall_runs {P : Platform} {s s' : Session} {call : Call} {bytes : Bytes}
    {broken : Bool} {seen : CallSeen}
    (h : playCall P s call bytes broken = some (s', seen)) :
    seen.call = call ∧ seen.before = s ∧
      call.Runs P s seen.tr seen.ret seen.data s' := by
  unfold playCall at h
  cases call with
  | send data =>
      obtain ⟨⟨⟨ret, s₁⟩, bs, tr⟩, hplay, heq⟩ := Option.map_eq_some_iff.1 h
      cases heq
      exact ⟨rfl, rfl, .send (Proc.exec_runs _ hplay)⟩
  | recv out outCap outLen =>
      obtain ⟨⟨res, bs, tr⟩, hplay, heq⟩ := Option.map_eq_some_iff.1 h
      cases heq
      exact ⟨rfl, rfl, .recv (Proc.exec_runs _ hplay)⟩
  | close =>
      obtain ⟨⟨⟨ret, s₁⟩, bs, tr⟩, hplay, heq⟩ := Option.map_eq_some_iff.1 h
      cases heq
      exact ⟨rfl, rfl, .close (Proc.exec_runs _ hplay)⟩

theorem playCalls_runs {P : Platform} {s s' : Session}
    {calls : List (Call × Bytes × Bool)} {seen : List CallSeen}
    (h : playCalls P s calls = some (s', seen)) : SessionRun P s seen s' := by
  induction calls generalizing s seen with
  | nil =>
      cases h
      exact .nil
  | cons c calls ih =>
      obtain ⟨⟨s₁, one⟩, hone, hrest⟩ := Option.bind_eq_some_iff.1 h
      obtain ⟨⟨s₂, rest⟩, hplay, heq⟩ := Option.map_eq_some_iff.1 hrest
      cases heq
      obtain ⟨hcall, hbefore, hruns⟩ := playCall_runs hone
      obtain ⟨call, before, tr, ret, data⟩ := one
      obtain rfl : before = s := hbefore
      obtain rfl : call = c.1 := hcall
      exact .cons hruns (ih hplay)

/-! ### A PSK handshake -/

def pskArgs : PskArgs := ⟨[1, 2, 3], ⟨[65, 66], by decide⟩, 2048, true⟩

/-- Fuel, generator and arguments fixed. -/
def pskClient : Proc Ev (Ret × Session) :=
  connectPskEx platform 4 (7 : Nat) pskArgs .zero

def pskServer : Proc Ev (Ret × Session) :=
  acceptPskEx platform 4 (100 : Nat) pskArgs .zero

/-- The first flight of the client. -/
def pskHello : Bytes := sentOn pskClient []

/-- Everything the server sends. -/
def pskReply : Bytes := sentOn pskServer pskHello

theorem pskClient_plays :
    (play pskClient pskReply false).map (fun x => x.1.1) = some (.ok ()) := by
  decide +kernel

theorem pskClient_isSome : (play pskClient pskReply false).isSome = true :=
  isSome_of_map pskClient_plays

/-- What the client did in the handshake. -/
def clientTrace : List (Act Ev) := ((play pskClient pskReply false).get pskClient_isSome).2.2

/-- The client's session after the handshake. -/
def clientSession : Session := ((play pskClient pskReply false).get pskClient_isSome).1.2

-- the type would be evaluated otherwise
seal Proc.Runs in
theorem pskClient_runs : pskClient.Runs clientTrace (.ok (), clientSession) :=
  play_runs_ret pskClient_isSome (get_of_map pskClient_plays pskClient_isSome)

/-! ### A session -/

/-- A session with these keys. -/
def session : Session :=
  .fresh ⟨be 32 1, be 16 2, be 12 3⟩ ⟨be 32 4, be 16 5, be 12 6⟩ 2048

/-- The peer's record with this number and contents. -/
def peerRecord (s : Session) (seq : UInt64) (contentType : UInt8) (content : Bytes) :
    Bytes :=
  (sealRecord platform s.sKey s.sIv seq contentType content).getD []

/-- What was seen of calls on a session. -/
def seen (P : Platform) (s : Session) (calls : List (Call × Bytes × Bool)) :
    List CallSeen :=
  ((playCalls P s calls).map Prod.snd).getD []

theorem seen_runs {P : Platform} {s : Session} {calls : List (Call × Bytes × Bool)}
    (h : (playCalls P s calls).isSome) : ∃ s', SessionRun P s (seen P s calls) s' := by
  obtain ⟨⟨s', cs⟩, hplay⟩ := Option.isSome_iff_exists.1 h
  have hseen : seen P s calls = cs := by
    rw [seen, hplay]
    rfl
  exact ⟨s', hseen ▸ playCalls_runs hplay⟩

/-! ### Its peer -/

/-- Where the peer of `session` starts. -/
def peerStart : PeerState := ⟨0, session.readKeys, 0⟩

/-- Data, a KeyUpdate, and data with padding. -/
def peerRecs : List PeerRec := [⟨.app [1, 2], 0⟩, ⟨.posths [] (some false), 0⟩, ⟨.app [3], 2⟩]

/-- The records and the states they are sealed in. -/
def sealAll : PeerState → List PeerRec → List (PeerState × PeerRec × Bytes)
  | _, [] => []
  | st, r :: rs =>
      (st, r, (st.seal platform r).getD []) :: sealAll (st.next platform .sha256 r.msg) rs

def sealings : List (PeerState × PeerRec × Bytes) := sealAll peerStart peerRecs

def peerLog : List (PeerRec × Bytes) := sealings.map Prod.snd

theorem peerLog_sent : ∃ stEnd, Sent platform .sha256 peerStart peerLog stEnd := by
  refine ⟨_, .cons ?_ ?_ ?_ (.cons ?_ ?_ ?_ (.cons ?_ ?_ ?_ .nil))⟩ <;>
    decide +kernel

end Sample

end WolfNano
