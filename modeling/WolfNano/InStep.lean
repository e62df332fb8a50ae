/-
A session stays in step with its peer.  What the session may do is a protocol
over the two logs; every call obeys it, and it keeps the two ends in step
whatever the peer does in between.
-/
import WolfNano.Link
import WolfNano.Provider
import WolfNano.Sample

namespace WolfNano

open Duplex

section Logs

variable {P : Platform} {digest : Digest} {st st' : PeerState}
  {log log' : List (PeerRec × Bytes)}

/-! ### Logs and sealings -/

@[simp] theorem keyUpdates_append (log log' : List (PeerRec × Bytes)) :
    keyUpdates (log ++ log') = keyUpdates log + keyUpdates log' := by
  simp [keyUpdates]

@[simp] theorem updateRequests_append (log log' : List (PeerRec × Bytes)) :
    updateRequests (log ++ log') = updateRequests log + updateRequests log' := by
  simp [updateRequests]

theorem sealings_append (h : Sent P digest st log st') :
    sealings P digest st (log ++ log') =
      sealings P digest st log ++ sealings P digest st' log' := by
  induction h with
  | nil => rfl
  | cons _ _ _ _ ih =>
      rw [List.cons_append, sealings, sealings, ih]
      rfl

theorem PeerState.next_proper (hP : P.RecordOk) (hdigest : digestSize P digest ≠ 0)
    {msg : PeerMsg} (h : st.keys.Proper) : (st.next P digest msg).keys.Proper := by
  unfold PeerState.next
  split
  · obtain ⟨t, ht, hproper⟩ := hP.keyUpdate st.keys hdigest
    rw [ht]
    exact hproper
  · exact h

theorem Sent.proper (hP : P.RecordOk) (hdigest : digestSize P digest ≠ 0)
    (h : Sent P digest st log st') (hst : st.keys.Proper) : st'.keys.Proper := by
  induction h with
  | nil => exact hst
  | cons _ _ _ _ ih => exact ih (PeerState.next_proper hP hdigest hst)

theorem TrafficKeys.Proper.aes (hP : P.RecordOk) {t : TrafficKeys} (h : t.Proper) :
    (P.aesInit && P.aesKey t.key) = true := by
  rw [hP.aesInit, hP.aesKey t.key h.1]
  rfl

/-- Whatever was sent opens where it was sealed. -/
theorem Sent.opensThere (hP : P.RecordOk) (hopens : P.OpensSealed)
    (hdigest : digestSize P digest ≠ 0) (h : Sent P digest st log st')
    (hst : st.keys.Proper) : ∀ x ∈ sealings P digest st log, OpensThere P x := by
  induction h with
  | nil => simp [sealings]
  | cons hfits hupdate hseal _ ih =>
      intro x hx
      rcases List.mem_cons.1 hx with rfl | hx
      · exact PeerState.open_seal hopens (hst.aes hP) hseal
      · exact ih (PeerState.next_proper hP hdigest hst) x hx

/-- `wn_Record_Protect` seals as the peer does, without padding. -/
theorem sealRecord_eq_seal (hP : P.RecordOk) (hst : st.keys.Proper) (msg : PeerMsg) :
    sealRecord P st.keys.key st.keys.iv (UInt64.ofNat st.seq) msg.contentType msg.content
      = st.seal P ⟨msg, 0⟩ := by
  have hinner : (⟨msg, 0⟩ : PeerRec).inner = msg.content ++ [msg.contentType] := by
    simp [PeerRec.inner, zeros]
  rw [sealRecord, hst.aes hP, if_pos rfl, PeerState.seal, hinner]
  simp [PeerState.nonce]

/-- A record within the limit can be sealed. -/
theorem PeerState.seal_isSome (hP : P.RecordOk) (hst : st.keys.Proper) {r : PeerRec}
    (hfits : r.Fits) : ∃ bytes, st.seal P r = some bytes := by
  have hnonce : st.nonce.length = 12 := by
    simp [PeerState.nonce, buildNonce, hst.2]
  have hinner := r.inner_length
  have hmax : r.msg.content.length + r.pad ≤ maxPlaintext := hfits
  obtain ⟨⟨ct, tag⟩, henc⟩ := Option.isSome_iff_exists.1
    (hP.encrypt st.keys.key st.nonce (recordHeader (r.inner.length + recordTagSz))
      r.inner hst.1 hnonce (by omega))
  refine ⟨recordHeader (r.inner.length + recordTagSz) ++ ct ++ tag, ?_⟩
  rw [PeerState.seal, henc]
  rfl

/-- One more record. -/
theorem Sent.concat (hP : P.RecordOk) (hdigest : digestSize P digest ≠ 0)
    (h : Sent P digest st log st') {r : PeerRec} {bytes : Bytes} (hfits : r.Fits)
    (hseal : st'.seal P r = some bytes) :
    Sent P digest st (log ++ [(r, bytes)]) (st'.next P digest r.msg) := by
  refine h.append (.cons hfits ?_ hseal .nil)
  intro _
  obtain ⟨t, ht, -⟩ := hP.keyUpdate st'.keys hdigest
  rw [ht]

/-- The peer takes what we write. -/
theorem PeerState.receive_eq {r : PeerRec} {bytes : Bytes} (hours : r.msg.Ours)
    (hopen : OpensThere P (st, r, bytes)) :
    st.receive P digest bytes
      = some (st.next P digest r.msg, r.msg.appData) := by
  unfold OpensThere at hopen
  rw [PeerState.receive, hopen]
  rcases hours with ⟨data, hmsg⟩ | hmsg <;> rw [hmsg] <;> rfl

end Logs

/-! ### The protocol -/

/-- Where the session is in the peer's stream. -/
inductive Cursor where
  | between
  /-- the header of this record was read -/
  | header (x : PeerRec × Bytes)
  /-- this record was read and not yet opened -/
  | whole (x : PeerRec × Bytes)

namespace Cursor

def record : Cursor → List (PeerRec × Bytes)
  | between => []
  | header x => [x]
  | whole x => [x]

/-- What is still to be read of the record. -/
def left : Cursor → Bytes
  | header x => x.2.drop 5
  | _ => []

end Cursor

/-- The two logs as far as the session has got with them. -/
structure Ghost where
  read : List (PeerRec × Bytes)
  cur : Cursor
  wrote : List (PeerRec × Bytes)
  /-- a record that was sealed and not yet sent -/
  unsent : Option Bytes

/-- What is fixed in a run: the provider, the limit on the peer's records, and
where the two writers start. -/
structure Setting where
  P : Platform
  digest : Digest
  limit : Nat
  peer₀ : PeerState
  us₀ : PeerState

namespace Setting

variable (A : Setting)

/-- A record the peer may send after `read`. -/
structure Next (read : List (PeerRec × Bytes)) (x : PeerRec × Bytes) : Prop where
  sent : ∃ st st', Sent A.P A.digest A.peer₀ read st ∧ Sent A.P A.digest st [x] st'
  single : x.1.msg.Single
  fits : x.2.length ≤ A.limit

/-- A record is opened where the peer sealed it, and only when every request
before it was answered. -/
structure Opens (g : Ghost) (key iv : Bytes) (seq : UInt64) (rec : Bytes) (g' : Ghost) :
    Prop where
  cursor : ∃ r st, g.cur = .whole (r, rec) ∧ Sent A.P A.digest A.peer₀ g.read st ∧
    key = st.keys.key ∧ iv = st.keys.iv ∧ seq = UInt64.ofNat st.seq ∧
    g' = { g with read := g.read ++ [(r, rec)], cur := .between }
  answered : keyUpdates g.wrote = updateRequests g.read

/-- A record is sealed where our write side stands: data that `may` be sent, or
the answer to a request. -/
structure Seals (may : List Bytes) (g : Ghost) (key iv : Bytes) (seq : UInt64)
    (contentType : UInt8) (content : Bytes) (g' : Ghost) : Prop where
  record : ∃ msg bytes st, Sent A.P A.digest A.us₀ g.wrote st ∧
    Sent A.P A.digest st [(⟨msg, 0⟩, bytes)] (st.next A.P A.digest msg) ∧
    key = st.keys.key ∧ iv = st.keys.iv ∧ seq = UInt64.ofNat st.seq ∧
    contentType = msg.contentType ∧ content = msg.content ∧ msg.Ours ∧
    (msg.rotates = true → keyUpdates g.wrote < updateRequests g.read) ∧
    appRecords (g.wrote ++ [(⟨msg, 0⟩, bytes)]) <+: may ∧
    g' = { g with wrote := g.wrote ++ [(⟨msg, 0⟩, bytes)], unsent := some bytes }
  empty : g.unsent = none

/-- The protocol of a session. -/
def protocol (may : List Bytes) : Protocol Ev Ghost where
  note g e g' :=
    match e with
    | .unprotect _ key iv seq rec => A.Opens g key iv seq rec g'
    | .protect _ key iv seq contentType content =>
        A.Seals may g key iv seq contentType content g'
    | _ => g' = g
  send g buf g' := g.unsent = some buf ∧ g' = { g with unsent := none }
  asks g n :=
    match g.cur with
    | .between => n = 5
    | .header x => n = x.2.length - 5
    | .whole _ => False
  recv g b g' :=
    match g.cur with
    | .between => ∃ x, A.Next g.read x ∧ b = x.2.take 5 ∧ g' = { g with cur := .header x }
    | .header x => b = x.2.drop 5 ∧ g' = { g with cur := .whole x }
    | .whole _ => False

/-- What a run relies on. -/
structure Ok : Prop where
  provider : A.P.RecordOk
  opens : A.P.OpensSealed
  digest : digestSize A.P A.digest ≠ 0
  peer : A.peer₀.keys.Proper
  us : A.us₀.keys.Proper

/-- The session between two calls. -/
structure Synced (s : Session) (g : Ghost) : Prop where
  established : s.established = true
  closed : s.closed = false
  digest : s.digest = A.digest
  scratch : A.limit ≤ s.scratchLen
  cur : g.cur = .between
  unsent : g.unsent = none
  reads : ∃ st, Sent A.P A.digest A.peer₀ g.read st ∧ s.ReadsAt st
  writes : ∃ st, Sent A.P A.digest A.us₀ g.wrote st ∧ s.WritesAt st
  answered : keyUpdates g.wrote = updateRequests g.read

end Setting

section Calls

variable {A : Setting} {may : List Bytes} {g : Ghost}

/-! ### Reading a record -/

theorem ioRecvExact_obeys {n : Nat} (hasks : (A.protocol may).asks g n) :
    (ioRecvExact n).run.Obeys (A.protocol may) g
      (Prog.onOk fun b g' => b.length = n ∧ (A.protocol may).recv g b g') := by
  unfold ioRecvExact
  refine Prog.obeys_bind (Q := fun x g' => ∃ b, x = some b ∧ b.length = n ∧
    (A.protocol may).recv g b g') ?_ ?_
  · apply Prog.obeys_recv hasks
    intro b g' hb hrecv
    exact ⟨b, rfl, hb, hrecv⟩
  · rintro x g' ⟨b, rfl, hb, hrecv⟩
    exact Prog.obeys_orFail rfl ⟨hb, hrecv⟩

/-- A record of the peer is read in two parts, whatever else arrives. -/
theorem recvRecord_obeys {cap : Nat} (hcur : g.cur = .between) (hcap : A.limit ≤ cap) :
    (recvRecord cap).run.Obeys (A.protocol may) g
      (Prog.onOk fun rec g' => ∃ x, A.Next g.read x ∧ rec = ⟨recAppdata, x.2⟩ ∧
        g' = { g with cur := .whole x }) := by
  unfold recvRecord
  have hasks : (A.protocol may).asks g 5 := by
    simp [Setting.protocol, hcur]
  refine Prog.obeys_bind (ioRecvExact_obeys hasks) ?_
  rintro hdr g₁ ⟨-, hrecv⟩
  simp only [Setting.protocol, hcur] at hrecv
  obtain ⟨x, hnext, rfl, rfl⟩ := hrecv
  obtain ⟨st, st', -, hx⟩ := hnext.sent
  obtain ⟨r, bytes⟩ := x
  cases hx with
  | cons hfits hupdate hseal _ =>
      obtain ⟨hlen, hfrag⟩ := PeerState.seal_length hfits hseal
      have hinner := r.inner_length
      have hmax : r.msg.content.length + r.pad ≤ 16384 := hfits
      have hlimit : bytes.length ≤ A.limit := hnext.fits
      have htype : (bytes.take 5).getD 0 0 = recAppdata := by
        obtain ⟨ct, tag, -, rfl, -, -⟩ := PeerState.seal_eq_some hseal
        rfl
      have hsize : ofBE ((bytes.take 5).drop 3) = ofBE (slice bytes 3 2) := by
        rw [List.drop_take]
        rfl
      simp only [htype, hsize]
      refine Prog.obeys_bind (Q := fun _ g' => g' = { g with cur := .header (r, bytes) })
        (Prog.obeys_failIf ?_ rfl) ?_
      · simp only [maxPlaintext]
        omega
      · rintro - _ rfl
        have hbody : (A.protocol may).asks { g with cur := .header (r, bytes) }
            (ofBE (slice bytes 3 2)) := by
          simp only [Setting.protocol]
          omega
        refine Prog.obeys_bind (ioRecvExact_obeys hbody) ?_
        rintro body _ ⟨-, hrecv⟩
        simp only [Setting.protocol] at hrecv
        obtain ⟨rfl, rfl⟩ := hrecv
        refine Prog.obeys_bind (Q := fun _ g' => g' = { g with cur := .whole (r, bytes) })
          (Prog.obeys_failIf ?_ rfl) ?_
        · rintro ⟨hccs, -⟩
          exact absurd hccs (by decide)
        · rintro - _ rfl
          refine ⟨(r, bytes), hnext, ?_, rfl⟩
          rw [List.take_append_drop]

/-! ### Writing a record -/

/-- Our log with one more record. -/
def Ghost.sent (g : Ghost) (msg : PeerMsg) (bytes : Bytes) : Ghost :=
  { g with wrote := g.wrote ++ [(⟨msg, 0⟩, bytes)] }

/-- The record is sealed and not yet sent. -/
def Ghost.write (g : Ghost) (msg : PeerMsg) (bytes : Bytes) : Ghost :=
  { g.sent msg bytes with unsent := some bytes }

theorem protocol_send {msg : PeerMsg} {bytes : Bytes} (h : g.unsent = none) :
    (A.protocol may).send (g.write msg bytes) bytes (g.sent msg bytes) := by
  refine ⟨rfl, ?_⟩
  simp [Ghost.write, Ghost.sent, h]

theorem appRecords_single (msg : PeerMsg) (pad : Nat) (bytes : Bytes) :
    appRecords [(⟨msg, pad⟩, bytes)] = msg.appData.toList := by
  cases msg <;> rfl

theorem recordProtect_obeys {s : Session} {st : PeerState} {cap : Nat} {msg : PeerMsg}
    (hA : A.Ok) (hst : Sent A.P A.digest A.us₀ g.wrote st) (hs : s.WritesAt st)
    (hunsent : g.unsent = none) (hours : msg.Ours)
    (hlen : msg.content.length ≤ maxPlaintext)
    (hrequest : msg.rotates = true → keyUpdates g.wrote < updateRequests g.read)
    (hmay : appRecords g.wrote ++ msg.appData.toList <+: may) :
    (recordProtect A.P cap s.cKey s.cIv s.cSeq msg.contentType msg.content).run.Obeys
      (A.protocol may) g (Prog.onOk fun rec g' => g' = g.write msg rec ∧
        Sent A.P A.digest A.us₀ g'.wrote (st.next A.P A.digest msg)) := by
  have hproper := hst.proper hA.provider hA.digest hA.us
  have hfits : (⟨msg, 0⟩ : PeerRec).Fits := hlen
  obtain ⟨bytes, hseal⟩ := PeerState.seal_isSome hA.provider hproper hfits
  have hone : Sent A.P A.digest st [(⟨msg, 0⟩, bytes)] (st.next A.P A.digest msg) :=
    Sent.nil.concat hA.provider hA.digest hfits hseal
  have hkey : s.cKey = st.keys.key := congrArg TrafficKeys.key hs.keys
  have hiv : s.cIv = st.keys.iv := congrArg TrafficKeys.iv hs.keys
  rw [hkey, hiv, hs.seq]
  unfold recordProtect
  refine Prog.obeys_bind (Q := fun _ g' => g' = g)
    (Prog.obeys_failIf (Nat.not_lt.2 hlen) rfl) ?_
  rintro - g rfl
  refine Prog.obeys_bind (Q := fun _ g₁ => g₁ = g.write msg bytes)
    (Prog.obeys_note ⟨⟨msg, bytes, st, hst, hone, rfl, rfl, rfl, rfl, rfl, hours,
      hrequest, ?_, rfl⟩, hunsent⟩ rfl) ?_
  · rw [appRecords_append, appRecords_single]
    exact hmay
  · rintro - _ rfl
    apply Prog.obeys_orFail
    · rw [sealRecord_eq_seal hA.provider hproper, hseal]
    · exact ⟨rfl, hst.append hone⟩

/-- The answer to a request: one KeyUpdate, and then the next generation. -/
theorem sendKeyUpdate_obeys {s : Session} {st : PeerState} (hA : A.Ok)
    (hdigest : s.digest = A.digest) (hst : Sent A.P A.digest A.us₀ g.wrote st)
    (hs : s.WritesAt st) (hunsent : g.unsent = none)
    (hrequest : keyUpdates g.wrote < updateRequests g.read)
    (hmay : appRecords g.wrote <+: may) :
    (sendKeyUpdate A.P s).Obeys (A.protocol may) g fun x g' =>
      x.1 = .ok () ∧ s.SameButWrite x.2 ∧
        ∃ bytes, g' = g.sent (.posths [] (some false)) bytes ∧
          ∃ st', Sent A.P A.digest A.us₀ g'.wrote st' ∧ x.2.WritesAt st' := by
  unfold sendKeyUpdate
  have hseal := @recordProtect_obeys _ may _ _ _ (5 + 5 + 1 + 16) (.posths [] (some false))
    hA hst hs hunsent (.inr rfl) (by decide) (fun _ => hrequest)
    (by simpa [PeerMsg.appData] using hmay)
  refine Proc.Obeys.bind hseal ?_
  rintro (e | rec) g₁ hrec
  · exact hrec.elim
  · obtain ⟨rfl, hsent⟩ := hrec
    dsimp only
    refine Proc.Obeys.bind (Q := fun (r : Int) g' => r = rec.length ∧
      g' = g.sent (.posths [] (some false)) rec) ?_ ?_
    · exact Proc.obeys_write (protocol_send hunsent) ⟨rfl, rfl⟩
    rintro r _ ⟨rfl, rfl⟩
    rw [if_neg (not_not.2 rfl)]
    obtain ⟨t, ht, -⟩ := hA.provider.keyUpdate st.keys hA.digest
    have hupd : tls13KeyUpdate A.P s.countSent.writeKeys s.countSent.digest
        = (.ok (), t) := by
      rw [← ht, ← hs.keys, ← hdigest]
      rfl
    change (rotateWrite A.P s.countSent).Obeys _ _ _
    rw [rotateWrite, hupd]
    refine Proc.Obeys.bind (Q := fun _ g' => g' = g.sent (.posths [] (some false)) rec)
      (Proc.obeys_emit rfl rfl) ?_
    rintro - _ rfl
    rw [PeerState.next_keyUpdate rfl ht] at hsent
    exact ⟨rfl, ⟨rfl, rfl, rfl, rfl, rfl, rfl, rfl⟩, rec, rfl, _, hsent, rfl, rfl⟩

/-! ### Receiving -/

/-- What one record of `wn_Recv` does: it was the peer's next one, and its
application data, if any, is handed on. -/
def Received (A : Setting) (g : Ghost) (data : Option Bytes) (s' : Session) (g' : Ghost) :
    Prop :=
  A.Synced s' g' ∧ ∃ x, g'.read = g.read ++ [x] ∧ x.1.msg.appData = data ∧
    appRecords g'.wrote = appRecords g.wrote

/-- Handling the record that was just opened. -/
theorem posths_obeys {s : Session} {tickets : List Bytes} {update : Option Bool} {pad : Nat}
    {bytes : Bytes} (hA : A.Ok) (hs : A.Synced s g) (hmay : appRecords g.wrote <+: may)
    (hnext : A.Next g.read (⟨.posths tickets update, pad⟩, bytes)) :
    (sessionPosths A.P s.countRead (PeerMsg.posths tickets update).content).Obeys
      (A.protocol may)
      { g with read := g.read ++ [(⟨.posths tickets update, pad⟩, bytes)] }
      fun x g' => x.1 = .ok () ∧ Received A g none x.2 g' := by
  obtain ⟨st, hst, hreads⟩ := hs.reads
  obtain ⟨stw, hstw, hwrites⟩ := hs.writes
  obtain ⟨_, st', hst₁, hone⟩ := hnext.sent
  obtain rfl := hst.unique hst₁
  obtain rfl : st' = st.next A.P A.digest (.posths tickets update) := by
    cases hone with
    | cons _ _ _ hrest =>
        cases hrest
        rfl
  have hread := hst.append hone
  have hcount : s.countRead.sSeq = UInt64.ofNat (st.seq + 1) := by
    rw [UInt64.ofNat_add, ← hreads.seq]
    rfl
  have hlen : (PeerMsg.posths tickets update).content.length < 2 ^ 24 := by
    cases hone with
    | cons hfits =>
        have hmax : (PeerMsg.posths tickets update).content.length + pad ≤ 16384 := hfits
        omega
  rw [sessionPosths_content hlen]
  cases update with
  | none =>
      refine ⟨rfl, ⟨hs.established, hs.closed, hs.digest, hs.scratch, hs.cur, hs.unsent,
        ⟨_, hread, hreads.keys, hcount⟩, ⟨stw, hstw, hwrites.keys, hwrites.seq⟩, ?_⟩,
        _, rfl, rfl, rfl⟩
      rw [updateRequests_append]
      exact hs.answered
  | some requested =>
      obtain ⟨t, ht, -⟩ := hA.provider.keyUpdate st.keys hA.digest
      rw [PeerState.next_keyUpdate rfl ht] at hread
      have hkeys : tls13KeyUpdate A.P s.countRead.readKeys s.countRead.digest
          = (.ok (), t) := by
        rw [← ht, ← hreads.keys, ← hs.digest]
        rfl
      refine Proc.Obeys.bind (Q := fun y g' => y.1 = .ok () ∧ Received A g none y.2 g') ?_ ?_
      · rw [PostHs.handle, hkeys]
        dsimp only
        cases requested with
        | false =>
            rw [if_neg (by decide)]
            refine ⟨rfl, ⟨hs.established, hs.closed, hs.digest, hs.scratch, hs.cur, hs.unsent,
              ⟨_, hread, rfl, rfl⟩, ⟨stw, hstw, hwrites.keys, hwrites.seq⟩, ?_⟩,
              _, rfl, rfl, rfl⟩
            rw [updateRequests_append]
            exact hs.answered
        | true =>
            rw [if_pos rfl]
            have hcounts : updateRequests
                (g.read ++ [(⟨.posths tickets (some true), pad⟩, bytes)])
                = updateRequests g.read + 1 := updateRequests_append ..
            have hone := hs.answered
            have hrequest : keyUpdates g.wrote < updateRequests
                (g.read ++ [(⟨.posths tickets (some true), pad⟩, bytes)]) := by
              omega
            refine (sendKeyUpdate_obeys (s := { s.countRead.setReadKeys t with sSeq := 0 })
              (g := { g with read := g.read ++ [(⟨.posths tickets (some true), pad⟩, bytes)] })
              hA hs.digest hstw ⟨hwrites.keys, hwrites.seq⟩ hs.unsent hrequest hmay).mono ?_
            rintro ⟨ret, s'⟩ g' ⟨rfl, hsame, reply, rfl, st', hst', hwrites'⟩
            refine ⟨rfl, ⟨?_, ?_, ?_, ?_, hs.cur, hs.unsent, ⟨_, hread, ?_, ?_⟩,
              ⟨st', hst', hwrites'⟩, ?_⟩, _, rfl, rfl, ?_⟩
            · exact hsame.established.trans hs.established
            · exact hsame.closed.trans hs.closed
            · exact hsame.digest.trans hs.digest
            · exact hsame.scratchLen ▸ hs.scratch
            · exact hsame.readKeys
            · exact hsame.sSeq
            · change keyUpdates (g.wrote ++ [_]) = updateRequests (g.read ++ [_])
              rw [keyUpdates_append, hcounts, hone]
              rfl
            · change appRecords (g.wrote ++ [_]) = _
              rw [appRecords_append]
              exact List.append_nil _
      · rintro ⟨ret, s'⟩ g' ⟨rfl, hreceived⟩
        exact ⟨rfl, hreceived⟩

/-- The record just read opens. -/
theorem recordUnprotect_obeys {s : Session} {st : PeerState} {x : PeerRec × Bytes}
    {cap : Nat} (hA : A.Ok) (hst : Sent A.P A.digest A.peer₀ g.read st)
    (hreads : s.ReadsAt st) (hnext : A.Next g.read x) (hcur : g.cur = .between)
    (hanswered : keyUpdates g.wrote = updateRequests g.read) :
    (recordUnprotect A.P cap s.sKey s.sIv s.sSeq x.2).run.Obeys (A.protocol may)
      { g with cur := .whole x } (Prog.onOk fun y g' =>
        y = (x.1.msg.contentType, x.1.msg.content) ∧ g' = { g with read := g.read ++ [x] }) := by
  obtain ⟨r, bytes⟩ := x
  obtain ⟨_, st', hst₁, hone⟩ := hnext.sent
  obtain rfl := hst.unique hst₁
  have hproper := hst.proper hA.provider hA.digest hA.peer
  have hkey : s.sKey = st.keys.key := congrArg TrafficKeys.key hreads.keys
  have hiv : s.sIv = st.keys.iv := congrArg TrafficKeys.iv hreads.keys
  cases hone with
  | cons hfits hupdate hseal _ =>
      have hlen := (PeerState.seal_length hfits hseal).1
      have hinner := r.inner_length
      have hopen := PeerState.open_seal hA.opens (hproper.aes hA.provider) hseal
      unfold recordUnprotect
      rw [hkey, hiv, hreads.seq]
      refine Prog.obeys_bind (Q := fun _ g' => g' = { g with cur := .whole (r, bytes) })
        (Prog.obeys_failIf ?_ rfl) ?_
      · simp only [recordHeaderSz, recordTagSz]
        omega
      · rintro - _ rfl
        refine Prog.obeys_bind (Q := fun _ g' =>
          g' = { g with read := g.read ++ [(r, bytes)], cur := .between })
          (Prog.obeys_note ⟨⟨r, st, rfl, hst, rfl, rfl, rfl, rfl⟩, hanswered⟩ rfl) ?_
        rintro - _ rfl
        apply Prog.obeys_lift hopen
        refine ⟨rfl, ?_⟩
        rw [← hcur]

/-- One record of `wn_Recv`. -/
theorem recvOne_obeys {s : Session} {outCap : Nat} (hA : A.Ok) (hs : A.Synced s g)
    (hcap : A.limit ≤ outCap + 22) (hmay : appRecords g.wrote <+: may) :
    (recvOne A.P s outCap).Obeys (A.protocol may) g
      fun x g' => ∃ data, x.1 = .ok data ∧ Received A g data x.2 g' := by
  obtain ⟨st, hst, hreads⟩ := hs.reads
  obtain ⟨stw, hstw, hwrites⟩ := hs.writes
  unfold recvOne
  refine Proc.Obeys.bind (recvRecord_obeys hs.cur hs.scratch) ?_
  rintro (e | rec) g₁ hrec
  · exact hrec.elim
  · obtain ⟨x, hnext, rfl, rfl⟩ := hrec
    have hccs : Rec.isCcs ⟨recAppdata, x.2⟩ = false := rfl
    dsimp only
    rw [hccs, if_neg Bool.false_ne_true]
    refine Proc.Obeys.bind
      (recordUnprotect_obeys hA hst hreads hnext hs.cur hs.answered) ?_
    rintro (e | y) g₁ hy
    · exact hy.elim
    · obtain ⟨rfl, rfl⟩ := hy
      obtain ⟨⟨msg, pad⟩, bytes⟩ := x
      obtain ⟨_, st', hst₁, hone⟩ := hnext.sent
      obtain rfl := hst.unique hst₁
      cases hone with
      | cons hfits hupdate hseal hrest =>
          have hcount : s.countRead.sSeq = UInt64.ofNat (st.seq + 1) := by
            rw [UInt64.ofNat_add, ← hreads.seq]
            rfl
          cases msg with
          | app data =>
              have hlen := (PeerState.seal_length hfits hseal).1
              have hinner := (⟨.app data, pad⟩ : PeerRec).inner_length
              have hlimit : bytes.length ≤ A.limit := hnext.fits
              have hsize : ¬ (data.length > outCap) := by
                simp only [PeerMsg.content] at hinner
                omega
              change Proc.Obeys _ (if recAppdata = recAppdata then _ else _) _ _
              rw [if_pos rfl]
              change Proc.Obeys _ (if data.length > outCap then _ else _) _ _
              rw [if_neg hsize]
              refine Proc.Obeys.bind (Q := fun _ g' =>
                g' = { g with read := g.read ++ [(⟨.app data, pad⟩, bytes)] })
                (Proc.obeys_emit rfl rfl) ?_
              rintro - _ rfl
              refine ⟨some data, rfl, ⟨hs.established, hs.closed, hs.digest, hs.scratch,
                hs.cur, hs.unsent, ⟨_, hst.append (.cons hfits hupdate hseal .nil),
                  hreads.keys, hcount⟩, ⟨stw, hstw, hwrites.keys, hwrites.seq⟩, ?_⟩,
                _, rfl, rfl, rfl⟩
              rw [updateRequests_append]
              exact hs.answered
          | posths tickets update =>
              change Proc.Obeys _ (if recHandshake = recAppdata then _ else _) _ _
              rw [if_neg (by decide)]
              change Proc.Obeys _ (if recHandshake = recHandshake then _ else _) _ _
              rw [if_pos rfl]
              refine Proc.Obeys.bind (posths_obeys hA hs hmay hnext) ?_
              rintro ⟨ret, s'⟩ g' ⟨rfl, hreceived⟩
              exact ⟨none, rfl, hreceived⟩
          | alert level description => exact hnext.single.elim

/-- The loop goes on until a record of application data. -/
theorem recvLoop_obeys {s : Session} {fuel outCap : Nat} (hA : A.Ok) (hs : A.Synced s g)
    (hcap : A.limit ≤ outCap + 22) (hmay : appRecords g.wrote <+: may) :
    (recvLoop A.P fuel s outCap).Obeys (A.protocol may) g
      fun x g' => ∃ plain, x.1 = .ok plain ∧ A.Synced x.2 g' ∧
        appRecords g'.read = appRecords g.read ++ [plain] ∧
          appRecords g'.wrote = appRecords g.wrote := by
  induction fuel generalizing s g with
  | zero => trivial
  | succ fuel ih =>
      rw [recvLoop]
      refine Proc.Obeys.bind (recvOne_obeys hA hs hcap hmay) ?_
      rintro ⟨x, s₁⟩ g₁ ⟨data, rfl, hs₁, ⟨⟨msg, pad⟩, bytes⟩, hread, hdata, hwrote⟩
      have hone : appRecords g₁.read = appRecords g.read ++ data.toList := by
        rw [hread, appRecords_append, appRecords_single, ← hdata]
      cases data with
      | some plain => exact ⟨plain, rfl, hs₁, hone, hwrote⟩
      | none =>
          have hrest := ih (g := g₁) hs₁ (hwrote ▸ hmay)
          rw [hone, hwrote, Option.toList_none, List.append_nil] at hrest
          exact hrest

theorem wnRecv_obeys {s : Session} {fuel outCap outLen : Nat} {out : Bytes} (hA : A.Ok)
    (hs : A.Synced s g) (hcap : A.limit ≤ outCap + 22) (hmay : appRecords g.wrote <+: may) :
    (wnRecv A.P fuel s (some out) outCap (some outLen)).Obeys (A.protocol may) g
      fun res g' => ∃ plain, res.ret = .ok () ∧ res.data = some plain ∧ A.Synced res.s g' ∧
        appRecords g'.read = appRecords g.read ++ [plain] ∧
          appRecords g'.wrote = appRecords g.wrote := by
  have hcheck : s.check = .ok () := Session.check_ok.2 ⟨hs.established, hs.closed⟩
  unfold wnRecv
  rw [hcheck]
  refine Proc.Obeys.bind (recvLoop_obeys hA hs hcap hmay) ?_
  rintro ⟨x, s'⟩ g' ⟨plain, rfl, hs', hread, hwrote⟩
  refine ⟨plain, rfl, ?_, hs', hread, hwrote⟩
  simp only [RecvOut.data, Option.map_some, Option.getD_some, splice_take]

/-! ### Sending -/

theorem wnSend_obeys {s : Session} {data : Bytes} (hA : A.Ok) (hs : A.Synced s g)
    (hmay : appRecords g.wrote ++ [data] <+: may) :
    (wnSend A.P s (some data)).Obeys (A.protocol may) g
      fun x g' => A.Synced x.2 g' ∧ g'.read = g.read ∧ appRecords g'.wrote =
        appRecords g.wrote ++ (match x.1 with | .ok () => [data] | .error _ => []) := by
  obtain ⟨stw, hstw, hwrites⟩ := hs.writes
  obtain ⟨st, hst, hreads⟩ := hs.reads
  have hcheck : s.check = .ok () := Session.check_ok.2 ⟨hs.established, hs.closed⟩
  unfold wnSend
  rw [hcheck]
  dsimp only
  split
  · exact ⟨hs, rfl, (List.append_nil _).symm⟩
  · rename_i hlen
    have hseal := @recordProtect_obeys _ _ _ _ _ s.scratchLen (.app data) hA hstw
      hwrites hs.unsent (.inl ⟨data, rfl⟩)
      (by simp only [PeerMsg.content]; omega) (fun h => by cases h) hmay
    refine Proc.Obeys.bind hseal ?_
    rintro (e | rec) g₁ hrec
    · exact hrec.elim
    · obtain ⟨rfl, hsent⟩ := hrec
      dsimp only
      refine Proc.Obeys.bind (Q := fun (r : Int) g' => r = rec.length ∧
        g' = g.sent (.app data) rec) ?_ ?_
      · exact Proc.obeys_write (protocol_send hs.unsent) ⟨rfl, rfl⟩
      rintro r _ ⟨rfl, rfl⟩
      rw [if_neg (not_not.2 rfl)]
      have hcount : s.countSent.cSeq = UInt64.ofNat (stw.seq + 1) := by
        rw [UInt64.ofNat_add, ← hwrites.seq]
        rfl
      refine ⟨⟨hs.established, hs.closed, hs.digest, hs.scratch, hs.cur, hs.unsent,
        ⟨st, hst, hreads.keys, hreads.seq⟩, ⟨_, hsent, hwrites.keys, hcount⟩, ?_⟩, rfl, ?_⟩
      · change keyUpdates (g.wrote ++ [_]) = _
        rw [keyUpdates_append]
        exact hs.answered
      · change appRecords (g.wrote ++ [_]) = _
        rw [appRecords_append, appRecords_single]
        rfl

end Calls

end WolfNano
