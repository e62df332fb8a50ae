/-
The buffers of the drivers: every record is protected into and opened into a region that
is large enough, and nothing is copied beyond an accumulator or a half of the scratch.
-/
import WolfNano.Quiet
import WolfNano.Flights
import WolfNano.FlightWriters
import WolfNano.Duplex.Rounds
import WolfNano.Sample

namespace WolfNano

open Duplex

/-- The region of a call or of a copy is large enough. -/
def Ev.Fits : Ev → Prop
  | .protect outCap _ _ _ _ content => 5 + content.length + 1 + 16 ≤ outCap
  | .unprotect outCap _ _ _ rec => rec.length - 21 ≤ outCap
  | .unprotectOver _ outCap _ _ _ rec => rec.length - 21 ≤ outCap
  | .copy cap off n => off + n ≤ cap
  | .writeKey _ _ => True

/-- Every region is large enough, on every path of the program. -/
abbrev InRoom {α : Type} (p : Shell α) : Prop := Prog.Watches Ev.Fits p

variable {P : Platform} {X : X509Backend} {fuel : Nat} {rng : P.Rng} {sess s : Session}

/-! ### Records -/

section Records

variable {cap : Nat} {key iv : Bytes} {seq : UInt64}

/-- `wn_Record_Protect` writes a record 22 bytes longer than its content, once it has
checked the content's length. -/
theorem recordProtect_inRoom {contentType : UInt8} {content : Bytes}
    (h : content.length ≤ maxPlaintext → content.length + 22 ≤ cap) :
    InRoom (recordProtect P cap key iv seq contentType content) := by
  refine .failIf_bind fun hmax => .note_bind ?_ Prog.Notes.orFail.watches
  have hroom := h (Nat.not_lt.1 hmax)
  change 5 + content.length + 1 + 16 ≤ cap
  omega

/-- `wn_Record_Unprotect` writes the inner plaintext, 21 bytes shorter than the record. -/
theorem recordUnprotect_inRoom {rec : Bytes} (h : rec.length ≤ cap + 21) :
    InRoom (recordUnprotect P cap key iv seq rec) :=
  .failIf_bind fun _ => .note_bind (Nat.sub_le_of_le_add h) Prog.Notes.lift.watches

/-- Wherever it writes, inside the record or apart from it, as much has to fit there. -/
theorem recordUnprotectInto_inRoom {out : OutRegion} {rec : Bytes}
    (h : rec.length ≤ out.cap + 21) :
    InRoom (recordUnprotectInto P out key iv seq rec) :=
  recordUnprotectInto_both (recordUnprotect_inRoom h) fun _ =>
    .failIf_bind fun _ =>
      .note_bind (Nat.sub_le_of_le_add h) Prog.Notes.lift.watches

/-- A record that was read fits the buffer it was read into. -/
theorem recvRecord_le {r : Rec} {tr : List (Act Ev)} (h : Prog.Ok (recvRecord cap) tr r) :
    r.bytes.length ≤ cap :=
  (recvRecord_ok.1 h).1.le_cap

theorem finishedMsg_length {keys th mac : Bytes}
    (h : tls13FinishedMac P keys th 32 .sha256 = .ok mac) : (finishedMsg mac).length = 36 := by
  rw [finishedMsg, List.length_append, tls13FinishedMac_length h]
  rfl

end Records

/-! ### The session -/

/-- The rotation of the write key writes no buffer. -/
theorem rotateWrite_inRoom : (rotateWrite P s).Watches Ev.Fits := by
  unfold rotateWrite
  split
  · exact ⟨trivial, trivial⟩
  · dsimp only
    split
    · exact ⟨trivial, trivial⟩
    · trivial

/-- The message fills the local buffer of 27 bytes. -/
theorem sendKeyUpdate_inRoom : (sendKeyUpdate P s).Watches Ev.Fits := by
  refine Proc.Watches.bind (recordProtect_inRoom fun _ => Nat.le_refl 27) fun _ x _ => ?_
  cases x with
  | error e => trivial
  | ok rec =>
      intro r
      change Proc.Watches Ev.Fits (if r ≠ rec.length then _ else _)
      split
      · trivial
      · exact rotateWrite_inRoom

/-- The only buffer a post-handshake message leads to is the local one of the answer to a
KeyUpdate. -/
theorem posthsMsg_inRoom {r : Reader} : (posthsMsg P s r).Watches Ev.Fits := by
  unfold posthsMsg
  dsimp only
  split
  · trivial
  · split
    · split
      · trivial
      · split
        · trivial
        · split
          · refine Proc.Watches.bind sendKeyUpdate_inRoom fun _ x _ => ?_
            obtain ⟨e | _, s'⟩ := x
            · trivial
            · trivial
          · trivial
    · trivial

/-- By induction on the fuel, message by message. -/
theorem posthsLoop_inRoom {n : Nat} {r : Reader} : (posthsLoop P n s r).Watches Ev.Fits := by
  induction n generalizing s r with
  | zero => trivial
  | succ n ih =>
      unfold posthsLoop
      split
      · refine Proc.Watches.bind posthsMsg_inRoom fun _ x _ => ?_
        obtain ⟨e | r', s'⟩ := x
        · trivial
        · change Proc.Watches Ev.Fits (if r'.err then _ else _)
          split
          · trivial
          · exact ih
      · trivial

/-- `wn_Send` checks the length of the data against the scratch before it seals. -/
theorem wnSend_inRoom {data : Option Bytes} : (wnSend P s data).Watches Ev.Fits := by
  unfold wnSend
  split
  · trivial
  · trivial
  · split
    · trivial
    · rename_i data _ hroom
      rw [not_or, not_or] at hroom
      have hfits : data.length + 22 ≤ s.scratchLen := by
        have hoverhead : recordOverhead = 22 := rfl
        omega
      refine Proc.Watches.bind (recordProtect_inRoom fun _ => hfits) fun _ x _ => ?_
      cases x with
      | error e => trivial
      | ok rec =>
          intro r
          change Proc.Watches Ev.Fits (if r ≠ rec.length then _ else _)
          split
          · trivial
          · trivial

/-- The record is opened in place, behind its header. -/
theorem recvOne_inRoom {outCap : Nat} : (recvOne P s outCap).Watches Ev.Fits := by
  refine Proc.Watches.bind recvRecord_notes.watches fun tr x hread => ?_
  cases x with
  | error e => trivial
  | ok rec =>
      change Proc.Watches Ev.Fits (if rec.isCcs then _ else _)
      split
      · trivial
      · have hfits : rec.bytes.length ≤ s.scratchLen - recordHeaderSz + 21 := by
          have hle := recvRecord_le hread
          have hheader : recordHeaderSz = 5 := rfl
          omega
        refine Proc.Watches.bind (recordUnprotect_inRoom hfits) fun _ y _ => ?_
        obtain e | ⟨contentType, plain⟩ := y
        · trivial
        · change Proc.Watches Ev.Fits (if contentType = recAppdata then _ else _)
          split
          · split
            · trivial
            · rename_i hcap
              refine ⟨?_, trivial⟩
              change 0 + plain.length ≤ outCap
              omega
          · split
            · refine Proc.Watches.bind posthsLoop_inRoom fun _ z _ => ?_
              obtain ⟨e | _, s'⟩ := z
              · trivial
              · trivial
            · split
              · split
                · trivial
                · trivial
              · trivial

/-- By induction on the fuel: every round reads into the scratch and opens in place. -/
theorem recvLoop_inRoom {outCap : Nat} : (recvLoop P fuel s outCap).Watches Ev.Fits := by
  induction fuel generalizing s with
  | zero => trivial
  | succ fuel ih =>
      refine Proc.Watches.bind recvOne_inRoom fun _ x _ => ?_
      obtain ⟨e | (_ | plain), s'⟩ := x
      · trivial
      · exact ih
      · trivial

/-- `wn_Recv` copies to the caller's buffer what it has compared with its size. -/
theorem wnRecv_inRoom {out : Option Bytes} {outCap : Nat} {outLen : Option Nat} :
    (wnRecv P fuel s out outCap outLen).Watches Ev.Fits := by
  unfold wnRecv
  split
  · refine Proc.Watches.bind recvLoop_inRoom fun _ x _ => ?_
    obtain ⟨e | plain, s'⟩ := x
    · trivial
    · trivial
  · trivial
  · trivial

/-- `wn_Close` seals its alert into a local buffer of 24 bytes. -/
theorem wnClose_inRoom : (wnClose P s).Watches Ev.Fits := by
  unfold wnClose
  split
  · refine Proc.Watches.bind (recordProtect_inRoom fun _ => Nat.le_refl 24) fun _ x _ => ?_
    cases x with
    | error e => trivial
    | ok rec => exact fun _ => trivial
  · trivial

/-! ### The rounds of the receiving loops -/

/-- One round of `wn_RecvHandshake`. -/
def handshakeRound (accCap tmpCap : Nat) (acc : Bytes) : Shell (Bytes ⊕ Bytes) := do
  let rec ← recvRecord tmpCap
  if rec.isCcs then
    pure (.inl acc)
  else do
    Prog.failIf
      (rec.rtype ≠ recHandshake ∨ rec.bytes.length ≤ recordHeaderSz)
      .unexpectedMsg
    Prog.failIf (rec.fragment.length > accCap - acc.length) .decode
    Prog.note (.copy accCap acc.length rec.fragment.length)
    let acc := acc ++ rec.fragment
    if acc.length < 4 then
      pure (.inl acc)
    else do
      let mLen := hsMsgLen acc 0
      Prog.failIf (4 + mLen > accCap) .decode
      if acc.length < 4 + mLen then
        pure (.inl acc)
      else do
        Prog.failIf (acc.length ≠ 4 + mLen) .decode
        pure (.inr acc)

/-- The reassembly as rounds over its accumulator. -/
theorem recvHandshake_rounds {accCap tmpCap : Nat} {acc : Bytes} :
    recvHandshake accCap tmpCap fuel acc = Prog.rounds (handshakeRound accCap tmpCap) fuel acc := by
  refine Prog.rounds_eq (fun _ => rfl) fun n acc => ?_
  simp only [recvHandshake, handshakeRound, Prog.bind_assoc, Prog.ite_bind]
  rfl

variable (P) in
/-- One round of the PSK flight. -/
def pskRound (scratchLen : Nat) (keys : HsKeys) (st : PskFlight) :
    Shell (PskFlight ⊕ PskFlight) := do
  let rec ← recvRecord scratchLen
  if rec.isCcs then
    pure (.inl st)
  else do
    Prog.failIf (rec.rtype ≠ recAppdata) .unexpectedMsg
    Prog.failIf (rec.bytes.length < recordHeaderSz + recordTagSz ∨
      innerLen rec > pskPlainSz - st.acc.length) .decode
    let (contentType, plain) ← recordUnprotect P (pskPlainSz - st.acc.length)
      keys.sKey keys.sIv st.sSeq rec.bytes
    Prog.failIf (contentType ≠ recHandshake) .unexpectedMsg
    let acc := st.acc ++ plain
    let (st, fin) ← Prog.lift (pskFlightMsgs P keys.sHs acc.length
      { st with acc := acc, sSeq := st.sSeq + 1 })
    if fin then pure (.inr st) else pure (.inl st)

/-- The PSK client's loop as rounds over its state. -/
theorem pskFlight_rounds {scratchLen : Nat} {keys : HsKeys} {st : PskFlight} :
    pskFlight P scratchLen keys fuel st = Prog.rounds (pskRound P scratchLen keys) fuel st := by
  refine Prog.rounds_eq (fun _ => rfl) fun n st => ?_
  simp only [pskFlight, pskRound, Prog.bind_assoc, Prog.ite_bind]
  rfl

variable (P X) in
/-- One round of the certificate flight. -/
def certRound (args : CertArgs) (keys : HsKeys) (st : CertFlight) :
    Shell (CertFlight ⊕ CertFlight) := do
  let rec ← recvRecord (args.ioCap P.build)
  if rec.isCcs then
    pure (.inl st)
  else do
    Prog.failIf (rec.rtype ≠ recAppdata) .unexpectedMsg
    let (contentType, plain) ← recordUnprotect P
      (args.ioCap P.build - recordHeaderSz) keys.sKey keys.sIv st.sSeq rec.bytes
    Prog.failIf (contentType ≠ recHandshake) .unexpectedMsg
    Prog.failIf (st.acc.length + plain.length > hsAccSz P.build) .decode
    Prog.note (.copy (hsAccSz P.build) st.acc.length plain.length)
    let acc := st.acc ++ plain
    let (st, fin) ← Prog.lift (certFlightMsgs P X args keys.sHs acc.length
      { st with acc := acc, sSeq := st.sSeq + 1 })
    if fin then pure (.inr st) else pure (.inl st)

/-- The certificate client's loop as rounds over its state. -/
theorem certFlight_rounds {args : CertArgs} {keys : HsKeys} {st : CertFlight} :
    certFlight P X args keys fuel st = Prog.rounds (certRound P X args keys) fuel st := by
  refine Prog.rounds_eq (fun _ => rfl) fun n st => ?_
  simp only [certFlight, certRound, Prog.bind_assoc, Prog.ite_bind]
  rfl

/-! ### The accumulators -/

section Accumulators

variable {keys : HsKeys} {sHs : Bytes} {fin : Bool}

/-- A round of the reassembly leaves the accumulator within its bound, as the guard stands
before the copy. -/
theorem handshakeRound_le {accCap tmpCap : Nat} {acc acc' : Bytes} {tr : List (Act Ev)}
    (hacc : acc.length ≤ accCap)
    (h : Prog.Ok (handshakeRound accCap tmpCap acc) tr (.inl acc')) : acc'.length ≤ accCap := by
  unfold handshakeRound at h
  obtain ⟨r, _, _, -, -, h⟩ := Prog.ok_bind.1 h
  split at h
  · cases h.2
    exact hacc
  · obtain ⟨-, h⟩ := Prog.ok_failIf_bind.1 h
    obtain ⟨hroom, h⟩ := Prog.ok_failIf_bind.1 h
    obtain ⟨_, -, h⟩ := Prog.ok_note_bind.1 h
    have hnext : (acc ++ r.fragment).length ≤ accCap := by
      rw [List.length_append]
      omega
    dsimp only at h
    split at h
    · cases h.2
      exact hnext
    · obtain ⟨-, h⟩ := Prog.ok_failIf_bind.1 h
      split at h
      · cases h.2
        exact hnext
      · obtain ⟨-, h⟩ := Prog.ok_failIf_bind.1 h
        cases h.2

/-- A message of the flight changes nothing in the accumulator. -/
theorem pskFlightMsg_acc {st st' : PskFlight} {msg : Bytes}
    (h : pskFlightMsg P sHs st msg = .ok (st', fin)) : st'.acc = st.acc := by
  unfold pskFlightMsg at h
  dsimp only at h
  split at h
  · simp only [except_bind_eq_ok] at h
    obtain ⟨_, -, _, -, _, -, heq⟩ := h
    cases heq
    rfl
  · split at h
    · simp only [except_bind_eq_ok] at h
      obtain ⟨_, -, _, -, _, -, _, -, _, -, heq⟩ := h
      cases heq
      rfl
    · cases h

/-- Nor do all messages a record completes. -/
theorem pskFlightMsgs_acc {n : Nat} {st st' : PskFlight}
    (h : pskFlightMsgs P sHs n st = .ok (st', fin)) : st'.acc = st.acc := by
  induction n generalizing st with
  | zero =>
      cases h
      rfl
  | succ n ih =>
      unfold pskFlightMsgs at h
      dsimp only at h
      split at h
      · cases h
        rfl
      · split at h
        · cases h
        · split at h
          · cases h
            rfl
          · obtain ⟨⟨st₁, fin₁⟩, hmsg, h⟩ := except_bind_eq_ok.1 h
            have hone := pskFlightMsg_acc hmsg
            dsimp only at h
            split at h
            · cases h
              exact hone
            · exact (ih h).trans hone

/-- What is opened has room in what `plain` has left. -/
theorem pskRound_le {scratchLen : Nat} {st st' : PskFlight} {tr : List (Act Ev)}
    (hacc : st.acc.length ≤ pskPlainSz)
    (h : Prog.Ok (pskRound P scratchLen keys st) tr (.inl st')) : st'.acc.length ≤ pskPlainSz := by
  unfold pskRound at h
  obtain ⟨r, _, _, -, -, h⟩ := Prog.ok_bind.1 h
  split at h
  · cases h.2
    exact hacc
  · obtain ⟨-, h⟩ := Prog.ok_failIf_bind.1 h
    obtain ⟨hroom, h⟩ := Prog.ok_failIf_bind.1 h
    obtain ⟨⟨contentType, plain⟩, _, _, -, hopen, h⟩ := Prog.ok_bind.1 h
    have hlen := openRecord_length (recordUnprotect_ok.1 hopen).2.1
    have hnext : (st.acc ++ plain).length ≤ pskPlainSz := by
      have hheader : recordHeaderSz = 5 := rfl
      have htag : recordTagSz = 16 := rfl
      rw [innerLen] at hroom
      rw [List.length_append]
      dsimp only at hlen
      omega
    obtain ⟨-, h⟩ := Prog.ok_failIf_bind.1 h
    obtain ⟨⟨st₁, fin₁⟩, hmsgs, h⟩ := Prog.ok_lift_bind.1 h
    have hsame : st₁.acc = st.acc ++ plain := pskFlightMsgs_acc hmsgs
    dsimp only at h
    split at h
    · cases h.2
    · cases h.2
      rw [hsame]
      exact hnext

/-- A message of the certificate flight changes nothing in the accumulator. -/
theorem certFlightMsg_acc {args : CertArgs} {st st' : CertFlight} {msg : Bytes}
    (h : certFlightMsg P X args sHs st msg = .ok (st', fin)) : st'.acc = st.acc := by
  have hmoved := @certFlightMsg_eq P X args sHs st msg
  cases hstep : certStep P X args sHs st.parse msg with
  | error e =>
      rw [h, hstep] at hmoved
      cases hmoved
  | ok y =>
      rw [h, hstep] at hmoved
      exact congrArg (fun x => x.1.acc) (Except.ok.inj hmoved)

/-- Nor do all messages a record completes. -/
theorem certFlightMsgs_acc {args : CertArgs} {n : Nat} {st st' : CertFlight}
    (h : certFlightMsgs P X args sHs n st = .ok (st', fin)) : st'.acc = st.acc := by
  induction n generalizing st with
  | zero =>
      cases h
      rfl
  | succ n ih =>
      unfold certFlightMsgs at h
      dsimp only at h
      split at h
      · cases h
        rfl
      · split at h
        · cases h
          rfl
        · obtain ⟨⟨st₁, fin₁⟩, hmsg, h⟩ := except_bind_eq_ok.1 h
          have hone := certFlightMsg_acc hmsg
          dsimp only at h
          split at h
          · cases h
            exact hone
          · exact (ih h).trans hone

/-- A round of the certificate client leaves its accumulator within its part of the
scratch, as the guard stands before the copy. -/
theorem certRound_le {args : CertArgs} {st st' : CertFlight} {tr : List (Act Ev)}
    (hacc : st.acc.length ≤ hsAccSz P.build)
    (h : Prog.Ok (certRound P X args keys st) tr (.inl st')) :
    st'.acc.length ≤ hsAccSz P.build := by
  unfold certRound at h
  obtain ⟨r, _, _, -, -, h⟩ := Prog.ok_bind.1 h
  split at h
  · cases h.2
    exact hacc
  · obtain ⟨-, h⟩ := Prog.ok_failIf_bind.1 h
    obtain ⟨⟨contentType, plain⟩, _, _, -, -, h⟩ := Prog.ok_bind.1 h
    obtain ⟨-, h⟩ := Prog.ok_failIf_bind.1 h
    obtain ⟨hroom, h⟩ := Prog.ok_failIf_bind.1 h
    obtain ⟨_, -, h⟩ := Prog.ok_note_bind.1 h
    have hnext : (st.acc ++ plain).length ≤ hsAccSz P.build := by
      rw [List.length_append]
      exact Nat.not_lt.1 hroom
    obtain ⟨⟨st₁, fin₁⟩, hmsgs, h⟩ := Prog.ok_lift_bind.1 h
    have hsame := certFlightMsgs_acc hmsgs
    dsimp only at h hsame
    split at h
    · cases h.2
    · cases h.2
      rw [hsame]
      exact hnext

end Accumulators

/-! ### The handshake -/

section Handshake

variable {keys : HsKeys}

/-- A round of the PSK client opens the record behind what `plain` already holds. -/
theorem pskRound_inRoom {scratchLen : Nat} {st : PskFlight} :
    InRoom (pskRound P scratchLen keys st) := by
  refine .bind recvRecord_notes.watches fun _ r _ => .ite Prog.Notes.pure.watches ?_
  refine .failIf_bind fun _ => .failIf_bind fun hroom => ?_
  have hfits : r.bytes.length ≤ pskPlainSz - st.acc.length + 21 := by
    have hheader : recordHeaderSz = 5 := rfl
    have htag : recordTagSz = 16 := rfl
    rw [innerLen] at hroom
    omega
  exact .bind (recordUnprotect_inRoom hfits) fun _ _ _ => .failIf_bind fun _ =>
    .lift_bind fun _ _ => .ite Prog.Notes.pure.watches Prog.Notes.pure.watches

/-- From one round to the whole loop. -/
theorem pskFlight_inRoom {scratchLen : Nat} {st : PskFlight} :
    InRoom (pskFlight P scratchLen keys fuel st) := by
  rw [pskFlight_rounds]
  exact .rounds (I := fun _ => True) (fun _ _ _ _ _ => trivial) (fun _ _ => pskRound_inRoom)
    trivial

/-- A round of the certificate client opens the record in place and copies it to the
accumulator. -/
theorem certRound_inRoom {args : CertArgs} {st : CertFlight} :
    InRoom (certRound P X args keys st) := by
  refine .bind recvRecord_notes.watches fun _ r hread => .ite Prog.Notes.pure.watches ?_
  have hfits : r.bytes.length ≤ args.ioCap P.build - recordHeaderSz + 21 := by
    have hle := recvRecord_le hread
    have hheader : recordHeaderSz = 5 := rfl
    omega
  refine .failIf_bind fun _ => .bind (recordUnprotect_inRoom hfits) fun _ x _ => ?_
  refine .failIf_bind fun _ => .failIf_bind fun hroom => ?_
  exact .note_bind (Nat.not_lt.1 hroom) <| .lift_bind fun _ _ =>
    .ite Prog.Notes.pure.watches Prog.Notes.pure.watches

/-- From one round to the whole loop. -/
theorem certFlight_inRoom {args : CertArgs} {st : CertFlight} :
    InRoom (certFlight P X args keys fuel st) := by
  rw [certFlight_rounds]
  exact .rounds (I := fun _ => True) (fun _ _ _ _ _ => trivial) (fun _ _ => certRound_inRoom)
    trivial

/-- The client's Finished is 36 bytes and its record 58. -/
theorem sendClientFinished_inRoom {cap : Nat} {mac : Bytes} (hmac : (finishedMsg mac).length = 36)
    (hcap : 58 ≤ cap) : InRoom (sendClientFinished P cap keys mac) := by
  refine .bind (recordProtect_inRoom fun _ => ?_) fun _ _ _ => sendRecord_notes.watches
  rw [hmac]
  exact hcap

/-- An alert goes through a local buffer. -/
theorem sendAlert_inRoom {seq : UInt64} {e : Err} :
    (sendAlert P keys seq e).Watches Ev.Fits := by
  unfold sendAlert
  split
  · refine Proc.Watches.bind (recordProtect_inRoom fun _ => Nat.le_refl 24) fun _ x _ => ?_
    cases x with
    | error e => trivial
    | ok rec => exact fun _ => trivial
  · trivial

theorem establishClient_inRoom {emptyHash th : Bytes} {scratchLen : Nat} :
    (establishClient P keys emptyHash th scratchLen).Watches Ev.Fits := by
  unfold establishClient
  split
  · trivial
  · exact ⟨trivial, trivial⟩

/-- The PSK client up to its session. -/
theorem connectPskBody_inRoom {args : PskArgs} (hcap : 2048 ≤ args.scratchLen) :
    InRoom (connectPskBody P fuel rng args) := by
  refine Prog.Watches.lift_bind fun st _ => ?_
  generalize pskClientHello P args st = hello
  refine Prog.Watches.lift_bind fun x _ => ?_
  refine Prog.Watches.lift_bind fun tc _ => ?_
  refine Prog.Watches.bind sendPlainRecord_notes.watches fun _ _ _ => ?_
  refine Prog.Watches.bind sendPlainRecord_notes.watches fun _ _ _ => ?_
  refine Prog.Watches.bind recvServerHello_notes.watches fun _ y _ => ?_
  refine Prog.Watches.lift_bind fun th _ => ?_
  refine Prog.Watches.lift_bind fun keys _ => ?_
  refine Prog.Watches.note_bind trivial ?_
  refine Prog.Watches.bind pskFlight_inRoom fun _ flight _ => ?_
  refine Prog.Watches.lift_bind fun th _ => ?_
  refine Prog.Watches.lift_bind fun mac hmac => ?_
  have hlen := finishedMsg_length hmac
  refine Prog.Watches.bind (sendClientFinished_inRoom hlen ?_) fun _ _ _ => ?_
  · exact Nat.le_trans (by decide) hcap
  · exact Prog.Notes.pure.watches

/-- The PSK client: the check of its arguments gives the scratch it needs. -/
theorem connectPskEx_inRoom {args : PskArgs} :
    (connectPskEx P fuel rng args sess).Watches Ev.Fits := by
  unfold connectPskEx
  split
  · trivial
  · rename_i hok
    have hcap : 2048 ≤ args.scratchLen := by
      simp only [PskArgs.connectOk, Bool.not_eq_false, Bool.and_eq_true, decide_eq_true_eq] at hok
      exact hok.1.2
    refine Proc.Watches.bind (connectPskBody_inRoom hcap) fun _ x _ => ?_
    obtain e | ⟨keys, emptyHash, th⟩ := x
    · trivial
    · exact establishClient_inRoom

/-- The certificate client up to its keys. -/
theorem connectCertHello_inRoom {args : CertArgs} : InRoom (connectCertHello P fuel rng args) := by
  refine Prog.Watches.lift_bind fun st _ => ?_
  refine Prog.Watches.lift_bind fun hello _ => ?_
  refine Prog.Watches.lift_bind fun tc _ => ?_
  refine Prog.Watches.bind sendPlainRecord_notes.watches fun _ _ _ => ?_
  refine Prog.Watches.bind sendPlainRecord_notes.watches fun _ _ _ => ?_
  refine Prog.Watches.bind recvServerHello_notes.watches fun _ x _ => ?_
  refine Prog.Watches.lift_bind fun th _ => ?_
  refine Prog.Watches.lift_bind fun early _ => ?_
  refine Prog.Watches.lift_bind fun keys _ => ?_
  exact Prog.Watches.note_bind trivial Prog.Notes.pure.watches

/-- The certificate client from its keys to the Finished of the server. -/
theorem connectCertFlight_inRoom {args : CertArgs} {tc : Transcript} :
    InRoom (connectCertFlight P X fuel args keys tc) := by
  refine Prog.Watches.bind certFlight_inRoom fun _ flight _ => ?_
  refine Prog.Watches.lift_bind fun th _ => ?_
  exact Prog.Watches.lift_bind fun mac _ => Prog.Notes.pure.watches

/-- The MAC the certificate client sends is that of `tls13FinishedMac`. -/
theorem connectCertFlight_mac {args : CertArgs} {tc : Transcript} {th mac : Bytes}
    {tr : List (Act Ev)} (h : Prog.Ok (connectCertFlight P X fuel args keys tc) tr (th, mac)) :
    (finishedMsg mac).length = 36 := by
  obtain ⟨flight, _, _, -, -, h⟩ := Prog.ok_bind.1 h
  obtain ⟨th', -, h⟩ := Prog.ok_lift_bind.1 h
  obtain ⟨mac', hmac, h⟩ := Prog.ok_lift_bind.1 h
  cases h.2
  exact finishedMsg_length hmac

theorem certScratchMin_ge (B : Build) : 58 ≤ certScratchMin B := by
  unfold certScratchMin certIoMin
  split
  all_goals omega

/-- The certificate client: the check of its arguments gives the scratch it needs. -/
theorem connectCertImpl_inRoom {args : CertArgs} :
    (connectCertImpl P X fuel rng args sess).Watches Ev.Fits := by
  unfold connectCertImpl
  split
  · trivial
  · rename_i hok
    have hcap : 58 ≤ args.scratchLen := by
      simp only [CertArgs.connectOk, Bool.not_eq_false, Bool.and_eq_true, decide_eq_true_eq] at hok
      exact Nat.le_trans (certScratchMin_ge P.build) hok.2
    refine Proc.Watches.bind connectCertHello_inRoom fun _ x _ => ?_
    obtain e | ⟨keys, emptyHash, tc⟩ := x
    · trivial
    · refine Proc.Watches.bind connectCertFlight_inRoom fun _ y hflight => ?_
      obtain e | ⟨th, mac⟩ := y
      · exact Proc.Watches.bind sendAlert_inRoom fun _ _ _ => trivial
      · have hmac := connectCertFlight_mac hflight
        refine Proc.Watches.bind (sendClientFinished_inRoom hmac hcap) fun _ z _ => ?_
        cases z with
        | error e => exact Proc.Watches.bind sendAlert_inRoom fun _ _ _ => trivial
        | ok u =>
            refine Proc.Watches.bind establishClient_inRoom fun _ w _ => ?_
            obtain ⟨e | _, sess'⟩ := w
            · exact Proc.Watches.bind sendAlert_inRoom fun _ _ _ => trivial
            · trivial

theorem acceptHello_inRoom {scratchLen : Nat} {tc : Transcript} :
    InRoom (acceptHello P fuel scratchLen tc) :=
  (acceptHello_notes fun _ _ h => h).watches

/-- A server checks the record against `finCap` before it opens it, and the region has as
much room. -/
theorem recvClientFinished_inRoom {scratchLen finCap : Nat} {out : OutRegion}
    {recvMac : Bytes} (hcap : finCap ≤ out.cap) :
    InRoom (recvClientFinished P scratchLen finCap out keys recvMac fuel) := by
  induction fuel with
  | zero => trivial
  | succ fuel ih =>
      refine .bind recvRecord_notes.watches fun _ r _ => .ite ih ?_
      refine .failIf_bind fun _ => .failIf_bind fun hroom => ?_
      have hfits : r.bytes.length ≤ out.cap + 21 := by
        have hheader : recordHeaderSz = 5 := rfl
        have htag : recordTagSz = 16 := rfl
        omega
      exact .bind (recordUnprotectInto_inRoom hfits) fun _ _ _ => .failIf_bind fun _ =>
        Prog.Notes.failIf.watches

/-- A server at the end. -/
theorem establishServer_inRoom {emptyHash th : Bytes} {scratchLen finCap : Nat}
    {out : OutRegion} (hcap : finCap ≤ out.cap) :
    (establishServer P fuel sess keys emptyHash th scratchLen finCap out).Watches
      Ev.Fits := by
  unfold establishServer
  split
  · trivial
  · rename_i sess' _
    have hfin : InRoom (Prog.lift (tls13FinishedMac P keys.cHs th 32 .sha256) >>= fun recvMac =>
        recvClientFinished P scratchLen finCap out keys recvMac fuel) :=
      .lift_bind fun mac _ => recvClientFinished_inRoom hcap
    have hkey : (Proc.emit (Ev.writeKey sess'.cKey sess'.cIv)).Watches Ev.Fits :=
      ⟨trivial, trivial⟩
    refine Proc.Watches.bind hkey fun _ _ _ => ?_
    refine Proc.Watches.bind hfin fun _ x _ => ?_
    cases x with
    | error e => trivial
    | ok u => trivial

/-- The PSK server's flight of 42 bytes is sealed into the scratch. -/
theorem sendPskFlight_inRoom {scratchLen : Nat} {tc : Transcript} (hcap : 64 ≤ scratchLen) :
    InRoom (sendPskFlight P scratchLen keys tc) := by
  refine Prog.Watches.lift_bind fun ee hee => ?_
  refine Prog.Watches.lift_bind fun tc _ => ?_
  refine Prog.Watches.lift_bind fun th _ => ?_
  refine Prog.Watches.lift_bind fun mac hmac => ?_
  have hlen := (encExtBuild_length hee).1
  have hfin := finishedMsg_length hmac
  have hroom : (Ev.copy flightSz ee.length 36).Fits := by
    change ee.length + 36 ≤ 128
    omega
  refine Prog.Watches.note_bind hroom ?_
  refine Prog.Watches.lift_bind fun tc _ => ?_
  refine Prog.Watches.bind (recordProtect_inRoom fun _ => ?_) fun _ rec _ => ?_
  · rw [List.length_append]
    omega
  · exact Prog.Watches.bind sendRecord_notes.watches fun _ _ _ => Prog.Notes.pure.watches

/-- The PSK server up to its session. -/
theorem acceptPskBody_inRoom {args : PskArgs} (hcap : 64 ≤ args.scratchLen) :
    InRoom (acceptPskBody P fuel rng args) := by
  refine Prog.Watches.lift_bind fun x _ => ?_
  refine Prog.Watches.bind acceptHello_inRoom fun _ hello _ => ?_
  refine Prog.Watches.lift_bind fun y _ => ?_
  refine Prog.Watches.bind sendServerHello_notes.watches fun _ z _ => ?_
  refine Prog.Watches.lift_bind fun th _ => ?_
  refine Prog.Watches.lift_bind fun keys _ => ?_
  refine Prog.Watches.note_bind trivial ?_
  refine Prog.Watches.bind (sendPskFlight_inRoom hcap) fun _ tc _ => ?_
  exact Prog.Watches.lift_bind fun th _ => Prog.Notes.pure.watches

theorem acceptScratchMin_ge (B : Build) : 2048 ≤ acceptScratchMin B := by
  unfold acceptScratchMin
  split
  all_goals decide

/-- The PSK server: the check of its arguments gives the scratch it needs. -/
theorem acceptPskEx_inRoom {args : PskArgs} :
    (acceptPskEx P fuel rng args sess).Watches Ev.Fits := by
  unfold acceptPskEx
  split
  · trivial
  · rename_i hok
    have hcap : 64 ≤ args.scratchLen := by
      simp only [PskArgs.acceptOk, Bool.not_eq_false, Bool.and_eq_true, decide_eq_true_eq] at hok
      have hmin := acceptScratchMin_ge P.build
      omega
    refine Proc.Watches.bind (acceptPskBody_inRoom hcap) fun _ x _ => ?_
    obtain e | ⟨keys, emptyHash, th⟩ := x
    · trivial
    · exact establishServer_inRoom (Nat.le_refl _)

/-- The certificate server builds its flight in the first half of the scratch, each
message where the one before ends, and seals it into the second. -/
theorem sendCertFlight_inRoom {args : ServerCertArgs} {tc : Transcript} :
    InRoom (sendCertFlight P args keys tc rng) := by
  refine Prog.Watches.lift_bind fun ee hee => ?_
  refine Prog.Watches.lift_bind fun tc _ => ?_
  refine Prog.Watches.lift_bind fun cert _ => ?_
  refine Prog.Watches.lift_bind fun tc _ => ?_
  refine Prog.Watches.lift_bind fun thCv _ => ?_
  refine Prog.Watches.lift_bind fun cv _ => ?_
  refine Prog.Watches.lift_bind fun tc _ => ?_
  refine Prog.Watches.lift_bind fun th _ => ?_
  refine Prog.Watches.lift_bind fun mac hmac => ?_
  refine Prog.Watches.failIf_bind fun hroom => ?_
  have hfin := finishedMsg_length hmac
  have hheader : recordHeaderSz = 5 := rfl
  have htag : recordTagSz = 16 := rfl
  have hhalf : args.half ≤ args.scratchLen - args.half := by
    rw [ServerCertArgs.half]
    omega
  have hcopy : (Ev.copy args.half (ee ++ cert ++ cv).length 36).Fits := by
    change (ee ++ cert ++ cv).length + 36 ≤ args.half
    omega
  refine Prog.Watches.note_bind hcopy ?_
  refine Prog.Watches.lift_bind fun tc _ => ?_
  refine Prog.Watches.bind (recordProtect_inRoom fun _ => ?_) fun _ rec _ => ?_
  · rw [List.length_append, hfin]
    omega
  · exact Prog.Watches.bind sendRecord_notes.watches fun _ _ _ => Prog.Notes.pure.watches

/-- The certificate server up to its session. -/
theorem acceptCertBody_inRoom {args : ServerCertArgs} :
    InRoom (acceptCertBody P fuel rng args) := by
  refine Prog.Watches.lift_bind fun x _ => ?_
  refine Prog.Watches.bind acceptHello_inRoom fun _ hello _ => ?_
  refine Prog.Watches.failIf_bind fun _ => ?_
  refine Prog.Watches.lift_bind fun tc _ => ?_
  refine Prog.Watches.bind sendServerHello_notes.watches fun _ y _ => ?_
  refine Prog.Watches.lift_bind fun early _ => ?_
  refine Prog.Watches.lift_bind fun th _ => ?_
  refine Prog.Watches.lift_bind fun keys _ => ?_
  refine Prog.Watches.note_bind trivial ?_
  refine Prog.Watches.bind sendCertFlight_inRoom fun _ tc _ => ?_
  exact Prog.Watches.lift_bind fun th _ => Prog.Notes.pure.watches

/-- The certificate server: the client's Finished is opened into the second half of the
scratch. -/
theorem acceptCertEx_inRoom {args : ServerCertArgs} :
    (acceptCertEx P fuel rng args sess).Watches Ev.Fits := by
  unfold acceptCertEx
  split
  · trivial
  · refine Proc.Watches.bind acceptCertBody_inRoom fun _ x _ => ?_
    obtain e | ⟨keys, emptyHash, th⟩ := x
    · trivial
    · refine establishServer_inRoom ?_
      rw [ServerCertArgs.enc, ServerCertArgs.half]
      dsimp only
      omega

end Handshake

/-! ### What holds of every run -/

/-- The messages of the certificate flight, built one behind the other in the first half of
`scratch`, stay there; what is left for the next one never underflows. -/
structure ServerCertArgs.FlightInside (P : Platform) (args : ServerCertArgs) : Prop where
  encExt : (encExtWriter args.half).Inside args.half
  cert : ∀ ee, encExtBuild args.half = .ok ee →
    ee.length ≤ args.half ∧
      (serverCertWriter (args.half - ee.length) args.certDer).Inside (args.half - ee.length)
  certVerify : ∀ ee cert, encExtBuild args.half = .ok ee →
    serverCertBuild (args.half - ee.length) args.certDer = .ok cert →
      (ee ++ cert).length ≤ args.half ∧
        (certVerifyWriter (args.half - (ee ++ cert).length) args.scheme).Inside
          (args.half - (ee ++ cert).length) ∧
        ∀ th rng cv, serverCertVerifySign P (args.half - (ee ++ cert).length) args.scheme
          args.keyDer th rng = .ok cv → (ee ++ cert ++ cv).length ≤ args.half

/-- The clients, the PSK server and the session: every region is large enough on every path,
and every round of a receiving loop starts with an accumulator that is not overfull. -/
structure DriversInside (P : Platform) (X : X509Backend) : Prop where
  connectPsk : ∀ fuel rng args sess, (connectPskEx P fuel rng args sess).Watches Ev.Fits
  pskPlain : ∀ scratchLen keys tc, Prog.Stays (pskFlight P scratchLen keys)
    (pskRound P scratchLen keys) (fun st => st.acc.length ≤ pskPlainSz) ⟨[], 0, 0, false, tc⟩
  connectCert : ∀ fuel rng args sess, (connectCertImpl P X fuel rng args sess).Watches Ev.Fits
  hsAcc : ∀ args keys tc, Prog.Stays (certFlight P X args keys) (certRound P X args keys)
    (fun st => st.acc.length ≤ hsAccSz P.build) ⟨[], 0, 0, {}, tc, []⟩
  certIo : ∀ args : CertArgs, args.connectOk P.build = true →
    hsAccSz P.build + leafSpkiSz P.build ≤ args.scratchLen
  acceptPsk : ∀ fuel rng args sess, (acceptPskEx P fuel rng args sess).Watches Ev.Fits
  flight : (encExtWriter flightSz).Inside flightSz
  hello : ∀ accCap tmpCap, Prog.Stays (recvHandshake accCap tmpCap)
    (handshakeRound accCap tmpCap) (fun acc => acc.length ≤ accCap) []
  send : ∀ s data, (wnSend P s data).Watches Ev.Fits
  recv : ∀ fuel s out outCap outLen, (wnRecv P fuel s out outCap outLen).Watches Ev.Fits
  close : ∀ s, (wnClose P s).Watches Ev.Fits
  keyUpdate : ∀ s, (sendKeyUpdate P s).Watches Ev.Fits

theorem driversInside_holds (P : Platform) (X : X509Backend) : DriversInside P X where
  connectPsk _ _ _ _ := connectPskEx_inRoom
  pskPlain _ _ _ :=
    ⟨fun _ _ => pskFlight_rounds, fun _ h =>
      h.invariant (I := fun st => st.acc.length ≤ pskPlainSz) (fun _ _ _ => pskRound_le)
        (Nat.zero_le _)⟩
  connectCert _ _ _ _ := connectCertImpl_inRoom
  hsAcc _ _ _ :=
    ⟨fun _ _ => certFlight_rounds, fun _ h =>
      h.invariant (I := fun st => st.acc.length ≤ hsAccSz P.build) (fun _ _ _ => certRound_le)
        (Nat.zero_le _)⟩
  certIo args hok := by
    simp only [CertArgs.connectOk, Bool.and_eq_true, decide_eq_true_eq] at hok
    have hmin : hsAccSz P.build + leafSpkiSz P.build ≤ certScratchMin P.build := by
      unfold certScratchMin
      omega
    exact Nat.le_trans hmin hok.2
  acceptPsk _ _ _ _ := acceptPskEx_inRoom
  flight := encExtWriter_inside (by decide)
  hello _ _ :=
    ⟨fun _ _ => recvHandshake_rounds, fun _ h =>
      h.invariant (I := fun acc => acc.length ≤ _) (fun _ _ _ => handshakeRound_le)
        (Nat.zero_le _)⟩
  send _ _ := wnSend_inRoom
  recv _ _ _ _ _ := wnRecv_inRoom
  close _ := wnClose_inRoom
  keyUpdate _ := sendKeyUpdate_inRoom

/-- The certificate server, its regions and its flight. -/
structure CertServerInside (P : Platform) (args : ServerCertArgs) : Prop where
  acceptCert : ∀ fuel rng sess, (acceptCertEx P fuel rng args sess).Watches Ev.Fits
  flight : args.FlightInside P

section Server

variable {args : ServerCertArgs} (hok : args.acceptOk = true) (hscratch : args.scratchLen < 2 ^ 32)

include hok in
theorem ServerCertArgs.half_ge : 2048 ≤ args.half := by
  simp only [ServerCertArgs.acceptOk, Bool.and_eq_true, decide_eq_true_eq] at hok
  rw [ServerCertArgs.half]
  omega

include hok hscratch

theorem flightInside_of_length (hsign : P.SignsWithin) (hcert : args.certDer.length + 11 < 2 ^ 32) :
    args.FlightInside P := by
  have hge := ServerCertArgs.half_ge hok
  have hle : args.half < 2 ^ 31 := by
    rw [ServerCertArgs.half]
    omega
  refine ⟨encExtWriter_inside (by omega), fun ee hee => ?_, fun ee cert hee hbuilt => ?_⟩
  · have hlen := (encExtBuild_length hee).1
    exact ⟨by omega, serverCertWriter_inside (by omega) (by omega) hcert⟩
  · have hlen := (encExtBuild_length hee).1
    have hinside := (@serverCertWriter_inside (args.half - ee.length) args.certDer (by omega)
      (by omega) hcert).buf_le
    have hfits : (ee ++ cert).length ≤ args.half := by
      rw [serverCertBuild_writer] at hbuilt
      split at hbuilt
      · cases hbuilt
      · cases hbuilt
        rw [List.length_append]
        omega
    refine ⟨hfits, certVerifyWriter_inside (by omega), fun th rng cv hcv => ?_⟩
    have hroom := serverCertVerifySign_inside hsign (by omega) hcv
    rw [List.length_append]
    omega

theorem length_of_flightInside (hword : args.certDer.length < 2 ^ 32)
    (h : args.FlightInside P) : args.certDer.length + 11 < 2 ^ 32 := by
  have hge := ServerCertArgs.half_ge hok
  have hle : args.half < 2 ^ 31 := by
    rw [ServerCertArgs.half]
    omega
  by_contra hcert
  have hee : encExtBuild args.half = .ok [8, 0, 0, 2, 0, 0] := by
    have hwriter : encExtWriter args.half = .wrote args.half [8, 0, 0, 2, 0, 0] :=
      encExt_appends.fits args.half [] (by decide) (Nat.le_trans (by decide) hge)
    rw [encExtBuild_writer, hwriter]
    rfl
  have hinside := (h.cert _ hee).2
  change (serverCertWriter (args.half - 6) args.certDer).Inside (args.half - 6) at hinside
  exact serverCertWriter_overruns (by omega) (by omega) (Nat.not_lt.1 hcert) hword hinside

end Server

/-- No region of a driver is overrun and no capacity underflows, whatever the peer sends and
whatever signature the signer makes of the room it is given; in the certificate server this
takes a certificate whose end in its message has a 32-bit offset, and only that. -/
theorem drivers_inside (P : Platform) (X : X509Backend) (hsign : P.SignsWithin) :
    DriversInside P X ∧
      ∀ args : ServerCertArgs, args.acceptOk = true → args.scratchLen < 2 ^ 32 →
        args.certDer.length < 2 ^ 32 →
          (CertServerInside P args ↔ args.certDer.length + 11 < 2 ^ 32) := by
  refine ⟨driversInside_holds P X, fun args hok hscratch hword => ?_⟩
  constructor
  · intro h
    exact length_of_flightInside hok hscratch hword h.flight
  · intro hcert
    exact ⟨fun _ _ _ => acceptCertEx_inRoom, flightInside_of_length hok hscratch hsign hcert⟩

namespace Sample

theorem signsWithin : platform.SignsWithin := by
  intro alg key input cap rng sig rng' h
  change (if 32 ≤ cap then some (be 32 _, rng) else none) = some (sig, rng') at h
  split at h
  · rename_i hroom
    cases h
    rw [be_length]
    exact hroom
  · cases h

/-- The arguments of a certificate server with 4096 bytes of scratch. -/
def serverWith (certDer : Bytes) : ServerCertArgs := ⟨certDer, [2], 0x0807, 4096, true⟩

end Sample

theorem drivers_inside_sample :
    DriversInside Sample.platform ⟨fun _ _ _ _ _ _ => .error .badCert, fun _ _ => false⟩ ∧
      CertServerInside Sample.platform (Sample.serverWith [0x30, 0]) := by
  have h := drivers_inside Sample.platform
    ⟨fun _ _ _ _ _ _ => .error .badCert, fun _ _ => false⟩ Sample.signsWithin
  exact ⟨h.1, (h.2 (Sample.serverWith [0x30, 0]) rfl (by decide) (by decide)).2 (by decide)⟩

/-- Eleven bytes more than the certificate make 2^32, so its length passes the check of
`wn_Write_Bytes` on a region of 2042 bytes. -/
theorem long_certificate_overruns :
    let args := Sample.serverWith (List.replicate (2 ^ 32 - 11) 0)
    args.acceptOk = true ∧ args.certDer.length < 2 ^ 32 ∧
      ¬ CertServerInside Sample.platform args := by
  have hlen : (List.replicate (2 ^ 32 - 11) (0 : UInt8)).length = 2 ^ 32 - 11 :=
    List.length_replicate
  generalize List.replicate (2 ^ 32 - 11) (0 : UInt8) = certDer at hlen
  have hword : (Sample.serverWith certDer).certDer.length < 2 ^ 32 := by
    change certDer.length < 2 ^ 32
    omega
  refine ⟨rfl, hword, fun h => ?_⟩
  have hscratch : (Sample.serverWith certDer).scratchLen < 2 ^ 32 := by
    change 4096 < 2 ^ 32
    decide
  have hcert : certDer.length + 11 < 2 ^ 32 := length_of_flightInside rfl hscratch hword h.flight
  omega

end WolfNano
