/-
A session and its peer, connected by two reliable queues.  The peer may act at
any time, also between two operations of a call in progress, so a system of the
two is a world that moves one operation at a time.
-/
import WolfNano.Peer
import WolfNano.Duplex.Protocol

namespace WolfNano

open Duplex

/-! ### The peer -/

/-- A record with one message: application data, a ticket, or a KeyUpdate. -/
def PeerMsg.Single : PeerMsg → Prop
  | app _ => True
  | posths tickets update => tickets.length + update.toList.length = 1
  | alert _ _ => False

instance : DecidablePred PeerMsg.Single := fun m =>
  match m with
  | .app _ => inferInstanceAs (Decidable True)
  | .posths _ _ => inferInstanceAs (Decidable (_ = _))
  | .alert _ _ => inferInstanceAs (Decidable False)

/-- A KeyUpdate that asks for one in return. -/
def PeerMsg.requests : PeerMsg → Bool
  | posths _ (some true) => true
  | _ => false

section Peer

variable (P : Platform) (digest : Digest)

/-- The read side of the peer: it opens a record with the keys and the counter
it stands at, hands on application data, and goes to the next generation on a
KeyUpdate.  Anything else ends the connection. -/
def PeerState.receive (st : PeerState) (buf : Bytes) :
    Option (PeerState × Option Bytes) :=
  match openRecord P st.keys.key st.keys.iv (UInt64.ofNat st.seq) buf with
  | .error _ => none
  | .ok (contentType, content) =>
      if contentType = recAppdata then
        some ({ st with seq := st.seq + 1 }, some content)
      else if contentType = recHandshake ∧
          (content = keyUpdateMsg 0 ∨ content = keyUpdateMsg 1) then
        some (⟨st.gen + 1, (tls13KeyUpdate P st.keys digest).2, 0⟩, none)
      else
        none

/-- The records of a log, each with where its writer stood. -/
def sealings (st : PeerState) : List (PeerRec × Bytes) → List (PeerState × PeerRec × Bytes)
  | [] => []
  | x :: log => (st, x) :: sealings (st.next P digest x.1.msg) log

end Peer

/-- The KeyUpdates of a log. -/
def keyUpdates (log : List (PeerRec × Bytes)) : Nat :=
  log.countP fun x => x.1.msg.rotates

/-- The KeyUpdates of a log that ask for one in return. -/
def updateRequests (log : List (PeerRec × Bytes)) : Nat :=
  log.countP fun x => x.1.msg.requests

/-! ### The system -/

/-- Our end: the session between two calls, or what is left of a call. -/
inductive Us where
  | idle (s : Session)
  | sending (data : Bytes) (p : Proc Ev (Ret × Session))
  | receiving (p : Proc Ev RecvOut)

/-- The data of a call of `wn_Send` in progress. -/
def Us.pending : Us → List Bytes
  | sending data _ => [data]
  | _ => []

/-- Both ends, the bytes on their way to us and the records on their way to the
peer, and what has happened so far. -/
structure World where
  us : Us
  toUs : Bytes
  toPeer : List Bytes
  peerWrite : PeerState
  peerRead : PeerState
  /-- the records the peer sent -/
  peerLog : List (PeerRec × Bytes)
  /-- the records the peer opened, each with where it stood -/
  peerOpened : List (PeerState × Bytes)
  /-- the application data the peer received -/
  peerGot : List Bytes
  /-- our observations -/
  events : List Ev
  /-- the data of the successful calls of `wn_Send` -/
  accepted : List Bytes
  /-- what the calls of `wn_Recv` returned -/
  results : List (Ret × Option Bytes)

inductive Move where
  | peerSends (r : PeerRec)
  | peerReads
  | callSend (data : Bytes)
  | callRecv (fuel : Nat) (out : Bytes) (outCap outLen : Nat)
  /-- our call goes on by one operation, or returns -/
  | advance

namespace World

/-- One operation of our call. -/
def after {α : Type} (w : World) (x : OneStep Ev α) (us : Us) : World :=
  { w with
    us := us
    toUs := x.input
    toPeer := w.toPeer ++ x.out.toList
    events := w.events ++ x.event.toList }

def advance (w : World) : Option World :=
  match w.us with
  | .idle _ => none
  | .sending data (.done (ret, s)) =>
      some { w with
        us := .idle s
        accepted := w.accepted ++ (match ret with
          | .ok () => [data]
          | .error _ => []) }
  | .sending data p => (p.step w.toUs).map fun x => w.after x (.sending data x.next)
  | .receiving (.done res) =>
      some { w with us := .idle res.s, results := w.results ++ [(res.ret, res.data)] }
  | .receiving p => (p.step w.toUs).map fun x => w.after x (.receiving x.next)

variable (P : Platform) (digest : Digest) (limit : Nat)

/-- The peer seals a record of at most `limit` bytes and sends it. -/
def peerSends (w : World) (r : PeerRec) : Option World :=
  if r.msg.Single ∧ r.Fits then
    match w.peerWrite.seal P r with
    | none => none
    | some bytes =>
        if bytes.length ≤ limit then
          some { w with
            toUs := w.toUs ++ bytes
            peerWrite := w.peerWrite.next P digest r.msg
            peerLog := w.peerLog ++ [(r, bytes)] }
        else
          none
  else
    none

/-- The peer takes the next record from its queue and opens it. -/
def peerReads (w : World) : Option World :=
  match w.toPeer with
  | [] => none
  | buf :: rest =>
      (w.peerRead.receive P digest buf).map fun x =>
        { w with
          toPeer := rest
          peerRead := x.1
          peerOpened := w.peerOpened ++ [(w.peerRead, buf)]
          peerGot := w.peerGot ++ x.2.toList }

/-- One move, where it is possible. -/
def move (w : World) : Move → Option World
  | .peerSends r => w.peerSends P digest limit r
  | .peerReads => w.peerReads P digest
  | .callSend data =>
      match w.us with
      | .idle s => some { w with us := .sending data (wnSend P s (some data)) }
      | _ => none
  | .callRecv fuel out outCap outLen =>
      match w.us with
      -- `outCap` is large enough for every record of the peer
      | .idle s =>
          if limit ≤ outCap + 22 then
            some { w with us := .receiving (wnRecv P fuel s (some out) outCap (some outLen)) }
          else
            none
      | _ => none
  | .advance => w.advance

/-- An interleaving: any moves, one after the other. -/
def moves (w : World) : List Move → Option World
  | [] => some w
  | m :: ms => (w.move P digest limit m).bind fun w' => w'.moves ms

/-- Empty queues, and a peer that mirrors the session. -/
def start (s : Session) : World where
  us := .idle s
  toUs := []
  toPeer := []
  peerWrite := ⟨0, s.readKeys, s.sSeq.toNat⟩
  peerRead := ⟨0, s.writeKeys, s.cSeq.toNat⟩
  peerLog := []
  peerOpened := []
  peerGot := []
  events := []
  accepted := []
  results := []

end World

/-! ### Being in step -/

/-- The key, the IV and the counter a record was opened with, and the record. -/
def Ev.opening? : Ev → Option (Bytes × Bytes × UInt64 × Bytes)
  | .unprotect _ key iv seq rec => some (key, iv, seq, rec)
  | _ => none

/-- The key, the IV and the counter a record was sealed with, and its contents. -/
def Ev.sealing? : Ev → Option (Bytes × Bytes × UInt64 × UInt8 × Bytes)
  | .protect _ key iv seq contentType content => some (key, iv, seq, contentType, content)
  | _ => none

/-- What the session writes: application data, and answers to KeyUpdates. -/
def PeerMsg.Ours (m : PeerMsg) : Prop :=
  (∃ data, m = .app data) ∨ m = .posths [] (some false)

section InStep

variable (P : Platform) (digest : Digest)

/-- Opening a record where it was sealed gives back what was put in. -/
def OpensThere (x : PeerState × PeerRec × Bytes) : Prop :=
  openRecord P x.1.keys.key x.1.keys.iv (UInt64.ofNat x.1.seq) x.2.2
    = .ok (x.2.1.msg.contentType, x.2.1.msg.content)

/-- The session and the peer are in step: of the records sent in each direction
the receiver has opened the first ones, each with the key, the IV, the counter
and the generation it was sealed with. -/
structure InStepWith (s₀ : Session) (w : World)
    (read rest got flight : List (PeerRec × Bytes)) : Prop where
  /-- the peer's records: those we opened, and those to come -/
  log : w.peerLog = read ++ rest
  opened : w.events.filterMap Ev.opening? =
    (sealings P digest (World.start s₀).peerWrite read).map fun x =>
      (x.1.keys.key, x.1.keys.iv, UInt64.ofNat x.1.seq, x.2.2)
  opens : ∀ x ∈ sealings P digest (World.start s₀).peerWrite w.peerLog, OpensThere P x
  /-- our records: those the peer opened, and those on their way -/
  sealed : w.events.filterMap Ev.sealing? =
    (sealings P digest (World.start s₀).peerRead (got ++ flight)).map fun x =>
      (x.1.keys.key, x.1.keys.iv, UInt64.ofNat x.1.seq, x.2.1.msg.contentType,
        x.2.1.msg.content)
  ours : ∀ x ∈ got ++ flight, x.1.msg.Ours
  peerOpened : w.peerOpened =
    (sealings P digest (World.start s₀).peerRead got).map fun x => (x.1, x.2.2)
  peerOpens : ∀ x ∈ sealings P digest (World.start s₀).peerRead (got ++ flight),
    OpensThere P x
  toPeer : w.toPeer <+: flight.map Prod.snd
  /-- the next record in the peer's queue is one it can take -/
  peerReady : ∀ buf queue, w.toPeer = buf :: queue →
    (w.peerRead.receive P digest buf).isSome
  /-- every request gets one answer -/
  answers : keyUpdates (got ++ flight) ≤ updateRequests read ∧
    updateRequests read ≤ keyUpdates (got ++ flight) + 1
  /-- no call of `wn_Recv` fails, and what they return is what was sent -/
  results : w.results <+: (appRecords w.peerLog).map fun data => (.ok (), some data)
  peerGot : w.peerGot = appRecords got
  accepted : appRecords (got ++ flight) <+: w.accepted ++ w.us.pending
  /-- between two calls nothing is missing -/
  idle : ∀ s, w.us = .idle s →
    (∃ st, Sent P digest (World.start s₀).peerWrite read st ∧ s.ReadsAt st) ∧
    (∃ st, Sent P digest (World.start s₀).peerRead (got ++ flight) st ∧ s.WritesAt st) ∧
    w.toUs = (rest.map Prod.snd).flatten ∧ w.toPeer = flight.map Prod.snd ∧
    keyUpdates (got ++ flight) = updateRequests read ∧
    w.results = (appRecords read).map (fun data => (.ok (), some data)) ∧
    appRecords (got ++ flight) = w.accepted

def World.InStep (s₀ : Session) (w : World) : Prop :=
  ∃ read rest got flight, InStepWith P digest s₀ w read rest got flight

end InStep

end WolfNano
