/-
Every interleaving of a session and its peer keeps them in step.  The invariant
links the two queues to the two logs; a move of the peer touches one log and one
queue, an operation of ours is one the protocol allows.
-/
import WolfNano.InStep

namespace WolfNano

open Duplex

/-- The invariant but for what is going on at our end: the logs, the queues and
the histories fit together. -/
structure Linked (A : Setting) (may : List Bytes) (w : World) (g : Ghost)
    (rest got flight : List (PeerRec × Bytes)) : Prop where
  sent : Sent A.P A.digest A.peer₀ w.peerLog w.peerWrite
  kinds : ∀ x ∈ w.peerLog, x.1.msg.Single ∧ x.2.length ≤ A.limit
  log : w.peerLog = g.read ++ g.cur.record ++ rest
  queue : w.toUs = g.cur.left ++ (rest.map Prod.snd).flatten
  opened : w.events.filterMap Ev.opening? =
    (sealings A.P A.digest A.peer₀ g.read).map fun x =>
      (x.1.keys.key, x.1.keys.iv, UInt64.ofNat x.1.seq, x.2.2)
  wrote : g.wrote = got ++ flight
  writes : ∃ st, Sent A.P A.digest A.us₀ g.wrote st
  ours : ∀ x ∈ g.wrote, x.1.msg.Ours
  flight : flight.map Prod.snd = w.toPeer ++ g.unsent.toList
  sealed : w.events.filterMap Ev.sealing? =
    (sealings A.P A.digest A.us₀ g.wrote).map fun x =>
      (x.1.keys.key, x.1.keys.iv, UInt64.ofNat x.1.seq, x.2.1.msg.contentType,
        x.2.1.msg.content)
  peerStands : Sent A.P A.digest A.us₀ got w.peerRead
  peerOpened : w.peerOpened =
    (sealings A.P A.digest A.us₀ got).map fun x => (x.1, x.2.2)
  peerGot : w.peerGot = appRecords got
  lower : keyUpdates g.wrote ≤ updateRequests g.read
  upper : updateRequests g.read ≤ keyUpdates g.wrote + 1
  may : appRecords g.wrote <+: may

/-- A successful result of `wn_Recv`. -/
def delivered (data : Bytes) : Ret × Option Bytes := (.ok (), some data)

/-- What is going on at our end. -/
def Us.Goes (A : Setting) (w : World) (g : Ghost) : Us → Prop
  | .idle s => A.Synced s g ∧ appRecords g.wrote = w.accepted ∧
      w.results = (appRecords g.read).map delivered
  | .sending data p => p.Obeys (A.protocol (w.accepted ++ [data])) g fun x g' =>
      A.Synced x.2 g' ∧ w.results = (appRecords g'.read).map delivered ∧
        appRecords g'.wrote = w.accepted ++ (match x.1 with
          | .ok () => [data]
          | .error _ => [])
  | .receiving p => p.Obeys (A.protocol (w.accepted ++ [])) g fun res g' =>
      A.Synced res.s g' ∧ appRecords g'.wrote = w.accepted ∧
        w.results ++ [(res.ret, res.data)] = (appRecords g'.read).map delivered

/-- The invariant. -/
structure World.Inv (A : Setting) (w : World) : Prop where
  linked : ∃ g rest got flight, Linked A (w.accepted ++ w.us.pending) w g rest got flight ∧
    w.us.Goes A w g
  results : w.results <+: (appRecords w.peerLog).map delivered

section Moves

variable {A : Setting} {may : List Bytes} {w w' : World} {g : Ghost}
  {rest got flight : List (PeerRec × Bytes)}

/-! ### Our operations -/

/-- The histories after an operation that says nothing about records. -/
theorem Linked.quiet (h : Linked A may w g rest got flight) {us : Us} {e : Ev}
    (hopening : e.opening? = none) (hsealing : e.sealing? = none) :
    Linked A may { w with us := us, events := w.events ++ [e] } g rest got flight := by
  refine { h with opened := ?_, sealed := ?_ }
  · rw [List.filterMap_append, h.opened]
    simp [hopening]
  · rw [List.filterMap_append, h.sealed]
    simp [hsealing]

/-- A record is opened. -/
theorem Linked.opens (h : Linked A may w g rest got flight) {us : Us} {cap : Nat}
    {key iv rec : Bytes} {seq : UInt64} {g' : Ghost} (hopens : A.Opens g key iv seq rec g') :
    Linked A may { w with us := us, events := w.events ++ [.unprotect cap key iv seq rec] }
      g' rest got flight := by
  obtain ⟨r, st, hcur, hst, rfl, rfl, rfl, rfl⟩ := hopens.cursor
  have hanswered := hopens.answered
  have hone : updateRequests [(r, rec)] ≤ 1 := List.countP_le_length
  refine { h with
    log := ?_, queue := ?_, opened := ?_, sealed := ?_, lower := ?_, upper := ?_ }
  · rw [h.log, hcur]
    simp [Cursor.record]
  · rw [h.queue, hcur]
    rfl
  · rw [List.filterMap_append, h.opened, sealings_append hst, List.map_append]
    rfl
  · rw [List.filterMap_append, h.sealed]
    exact List.append_nil _
  · rw [updateRequests_append]
    exact Nat.le_add_right_of_le h.lower
  · rw [updateRequests_append]
    simp only
    omega

/-- A record is sealed. -/
theorem Linked.seals (h : Linked A may w g rest got flight) {us : Us} {cap : Nat}
    {key iv content : Bytes} {seq : UInt64} {contentType : UInt8} {g' : Ghost}
    (hseals : A.Seals may g key iv seq contentType content g') :
    ∃ x, Linked A may
      { w with us := us, events := w.events ++ [.protect cap key iv seq contentType content] }
      g' rest got (flight ++ [x]) := by
  obtain ⟨msg, bytes, st, hst, hone, rfl, rfl, rfl, rfl, rfl, hours, hrequest, hmay, rfl⟩ :=
    hseals.record
  refine ⟨(⟨msg, 0⟩, bytes), { h with
    opened := ?_, wrote := ?_, writes := ⟨_, hst.append hone⟩, ours := ?_, flight := ?_,
    sealed := ?_, lower := ?_, upper := ?_, may := hmay }⟩
  · rw [List.filterMap_append, h.opened]
    exact List.append_nil _
  · simp only [h.wrote, List.append_assoc]
  · intro x hx
    rcases List.mem_append.1 hx with hx | hx
    · exact h.ours x hx
    · obtain rfl := List.mem_singleton.1 hx
      exact hours
  · rw [List.map_append, h.flight, hseals.empty]
    simp
  · rw [List.filterMap_append, h.sealed, sealings_append hst, List.map_append]
    rfl
  · have hle := h.lower
    simp only [keyUpdates_append]
    by_cases hrotates : msg.rotates = true
    · have hlt := hrequest hrotates
      have hle : keyUpdates [((⟨msg, 0⟩ : PeerRec), bytes)] ≤ 1 := List.countP_le_length
      omega
    · have hnone : keyUpdates [((⟨msg, 0⟩ : PeerRec), bytes)] = 0 := by
        simp [keyUpdates, hrotates]
      omega
  · have hle := h.upper
    simp only [keyUpdates_append]
    omega

/-- Any observation. -/
theorem Linked.note (h : Linked A may w g rest got flight) {us : Us} {e : Ev} {g' : Ghost}
    (hnote : (A.protocol may).note g e g') :
    ∃ more, Linked A may { w with us := us, events := w.events ++ [e] } g' rest got more := by
  cases e with
  | protect cap key iv seq contentType content =>
      obtain ⟨x, hlinked⟩ := h.seals hnote
      exact ⟨_, hlinked⟩
  | unprotect cap key iv seq rec => exact ⟨_, h.opens hnote⟩
  | unprotectOver gap cap key iv seq rec =>
      obtain rfl : g' = g := hnote
      exact ⟨_, h.quiet rfl rfl⟩
  | copy cap off n =>
      obtain rfl : g' = g := hnote
      exact ⟨_, h.quiet rfl rfl⟩
  | writeKey key iv =>
      obtain rfl : g' = g := hnote
      exact ⟨_, h.quiet rfl rfl⟩

/-- The sealed record goes into the peer's queue. -/
theorem Linked.send (h : Linked A may w g rest got flight) {us : Us} {buf : Bytes}
    {g' : Ghost} (hsend : (A.protocol may).send g buf g') :
    Linked A may { w with us := us, toPeer := w.toPeer ++ [buf] } g' rest got flight := by
  obtain ⟨hunsent, rfl⟩ := hsend
  refine { h with flight := ?_ }
  rw [h.flight, hunsent]
  simp

/-- A record of the peer's log is longer than its header. -/
theorem Linked.header_fits (h : Linked A may w g rest got flight) {x : PeerRec × Bytes}
    (hx : x ∈ w.peerLog) : 5 < x.2.length := by
  obtain ⟨r, bytes⟩ := x
  obtain ⟨before, after, hlog⟩ := List.append_of_mem hx
  have hsent := h.sent
  rw [hlog] at hsent
  obtain ⟨mid, -, hright⟩ := hsent.split
  cases hright with
  | cons hfits hupdate hseal _ =>
      have hlen := (PeerState.seal_length hfits hseal).1
      change 5 < bytes.length
      omega

/-- What is read is what the protocol expects. -/
theorem Linked.recv (h : Linked A may w g rest got flight) {us : Us} {n : Nat}
    (hn : n ≤ w.toUs.length) (hasks : (A.protocol may).asks g n) :
    ∃ g' more, (A.protocol may).recv g (w.toUs.take n) g' ∧
      Linked A may { w with us := us, toUs := w.toUs.drop n } g' more got flight := by
  have hlog := h.log
  have hqueue := h.queue
  cases hcur : g.cur with
  | between =>
      simp only [Setting.protocol, hcur] at hasks ⊢
      subst hasks
      rw [hcur] at hlog hqueue
      cases rest with
      | nil =>
          rw [hqueue] at hn
          exact absurd hn (by simp [Cursor.left])
      | cons x rest =>
          have hx : x ∈ w.peerLog := by simp [hlog]
          have hfive := h.header_fits hx
          have hwhole : w.toUs = x.2 ++ (rest.map Prod.snd).flatten := hqueue
          have hlist : w.peerLog = g.read ++ (x :: rest) := by
            rw [hlog, Cursor.record, List.append_nil]
          have hsent := h.sent
          rw [hlist] at hsent
          obtain ⟨st, hleft, hright⟩ := hsent.split
          obtain ⟨st', hone, -⟩ := @Sent.split _ _ _ _ [x] _ hright
          have hkind := h.kinds x hx
          refine ⟨{ g with cur := .header x }, rest,
            ⟨x, ⟨⟨st, st', hleft, hone⟩, hkind.1, hkind.2⟩, ?_, rfl⟩,
            { h with log := ?_, queue := ?_ }⟩
          · rw [hwhole, List.take_append_of_le_length (by omega)]
          · rw [hlist]
            simp [Cursor.record]
          · rw [hwhole, List.drop_append_of_le_length (by omega)]
            rfl
  | header x =>
      simp only [Setting.protocol, hcur] at hasks ⊢
      subst hasks
      rw [hcur] at hlog hqueue
      have hsize : (x.2.drop 5).length = x.2.length - 5 := List.length_drop
      have hwhole : w.toUs = x.2.drop 5 ++ (rest.map Prod.snd).flatten := hqueue
      refine ⟨{ g with cur := .whole x }, rest, ⟨?_, rfl⟩, { h with log := ?_, queue := ?_ }⟩
      · rw [hwhole, ← hsize, List.take_left]
      · rw [hlog]
        simp [Cursor.record]
      · simp only [hwhole]
        rw [← hsize, List.drop_left]
        rfl
  | whole x => simp [Setting.protocol, hcur] at hasks

/-- One operation of a call that obeys the protocol. -/
theorem Linked.after {α : Type} (h : Linked A may w g rest got flight) {p : Proc Ev α}
    {Q : α → Ghost → Prop} {x : OneStep Ev α} {us : Us}
    (hp : p.Obeys (A.protocol may) g Q) (hstep : p.step w.toUs = some x) :
    ∃ g' rest' flight', Linked A may (w.after x us) g' rest' got flight' ∧
      x.next.Obeys (A.protocol may) g' Q := by
  rcases hp.step hstep with ⟨e, g', hevent, hout, hinput, hnote, hnext⟩ |
    ⟨buf, g', hevent, hout, hinput, hsend, hnext⟩ |
    ⟨n, hn, hevent, hout, hinput, hasks, hnext⟩
  · obtain ⟨more, hlinked⟩ := h.note hnote
    refine ⟨g', rest, more, ?_, hnext⟩
    simp only [World.after, hevent, hout, hinput, Option.toList_none, Option.toList_some,
      List.append_nil]
    exact hlinked
  · refine ⟨g', rest, flight, ?_, hnext⟩
    simp only [World.after, hevent, hout, hinput, Option.toList_none, Option.toList_some,
      List.append_nil]
    exact h.send hsend
  · obtain ⟨g', more, hrecv, hlinked⟩ := h.recv hn hasks
    refine ⟨g', more, flight, ?_, hnext g' hrecv⟩
    simp only [World.after, hevent, hout, hinput, Option.toList_none, List.append_nil]
    exact hlinked

/-- Our end goes on, or its call returns. -/
theorem World.Inv.advance (h : w.Inv A) (hmove : w.advance = some w') : w'.Inv A := by
  obtain ⟨⟨g, rest, got, flight, hlinked, hgoes⟩, hresults⟩ := h
  unfold World.advance at hmove
  split at hmove
  · cases hmove
  · rename_i data ret s hus
    obtain rfl := Option.some.inj hmove
    rw [hus] at hgoes
    obtain ⟨hsynced, hread, hwrote⟩ := hgoes
    refine ⟨⟨g, rest, got, flight, { hlinked with may := ?_ }, hsynced, hwrote, hread⟩,
      hresults⟩
    rw [hwrote]
    exact List.prefix_append _ _
  · rename_i data p _ hus
    obtain ⟨x, hstep, rfl⟩ := Option.map_eq_some_iff.1 hmove
    rw [hus] at hgoes hlinked
    obtain ⟨g', rest', flight', hlinked', hnext⟩ :=
      hlinked.after hgoes hstep
    exact ⟨⟨g', rest', got, flight', hlinked', hnext⟩, hresults⟩
  · rename_i res hus
    obtain rfl := Option.some.inj hmove
    rw [hus] at hgoes hlinked
    obtain ⟨hsynced, hwrote, hread⟩ := hgoes
    refine ⟨⟨g, rest, got, flight, { hlinked with }, hsynced, hwrote, hread⟩, ?_⟩
    rw [hread, hlinked.log, List.append_assoc, appRecords_append, List.map_append]
    exact List.prefix_append _ _
  · rename_i p _ hus
    obtain ⟨x, hstep, rfl⟩ := Option.map_eq_some_iff.1 hmove
    rw [hus] at hgoes hlinked
    obtain ⟨g', rest', flight', hlinked', hnext⟩ :=
      hlinked.after hgoes hstep
    exact ⟨⟨g', rest', got, flight', hlinked', hnext⟩, hresults⟩

/-! ### The moves of the peer -/

/-- The peer's next record. -/
theorem Linked.peerSends (hA : A.Ok) (h : Linked A may w g rest got flight)
    {r : PeerRec} {bytes : Bytes} (hsingle : r.msg.Single) (hfits : r.Fits)
    (hseal : w.peerWrite.seal A.P r = some bytes) (hlimit : bytes.length ≤ A.limit) :
    Linked A may
      { w with
        toUs := w.toUs ++ bytes
        peerWrite := w.peerWrite.next A.P A.digest r.msg
        peerLog := w.peerLog ++ [(r, bytes)] }
      g (rest ++ [(r, bytes)]) got flight := by
  refine { h with
    sent := h.sent.concat hA.provider hA.digest hfits hseal
    kinds := ?_, log := ?_, queue := ?_ }
  · intro x hx
    rcases List.mem_append.1 hx with hx | hx
    · exact h.kinds x hx
    · obtain rfl := List.mem_singleton.1 hx
      exact ⟨hsingle, hlimit⟩
  · simp only [h.log, List.append_assoc]
  · simp [h.queue]

/-- The next record in the peer's queue is the next one of our log. -/
theorem Linked.head (hA : A.Ok) (h : Linked A may w g rest got flight) {buf : Bytes}
    {queue : List Bytes} (hqueue : w.toPeer = buf :: queue) :
    ∃ r more, flight = (r, buf) :: more ∧ r.msg.Ours ∧
      Sent A.P A.digest w.peerRead [(r, buf)] (w.peerRead.next A.P A.digest r.msg) ∧
      w.peerRead.receive A.P A.digest buf
        = some (w.peerRead.next A.P A.digest r.msg, r.msg.appData) := by
  have hflight := h.flight
  rw [hqueue] at hflight
  obtain ⟨⟨r, bytes⟩, more, rfl, rfl, -⟩ := List.map_eq_cons_iff.1 hflight
  obtain ⟨st, hst⟩ := h.writes
  rw [h.wrote] at hst
  obtain ⟨mid, hleft, hright⟩ := hst.split
  obtain rfl := h.peerStands.unique hleft
  have hours : r.msg.Ours := h.ours (r, bytes) (by simp [h.wrote])
  have hproper := h.peerStands.proper hA.provider hA.digest hA.us
  cases hright with
  | cons hfits hupdate hseal _ =>
      refine ⟨r, more, rfl, hours, .cons hfits hupdate hseal .nil, ?_⟩
      exact PeerState.receive_eq hours
        (PeerState.open_seal hA.opens (hproper.aes hA.provider) hseal)

/-- The peer opens it. -/
theorem Linked.peerReads (hA : A.Ok) (h : Linked A may w g rest got flight) {buf : Bytes}
    {queue : List Bytes} {x : PeerState × Option Bytes} (hqueue : w.toPeer = buf :: queue)
    (hreceive : w.peerRead.receive A.P A.digest buf = some x) :
    ∃ y more, Linked A may
      { w with
        toPeer := queue
        peerRead := x.1
        peerOpened := w.peerOpened ++ [(w.peerRead, buf)]
        peerGot := w.peerGot ++ x.2.toList }
      g rest (got ++ [y]) more := by
  obtain ⟨r, more, rfl, hours, hone, heq⟩ := h.head hA hqueue
  obtain rfl := Option.some.inj (hreceive.symm.trans heq)
  refine ⟨(r, buf), more, { h with
    wrote := ?_, flight := ?_, peerStands := h.peerStands.append hone
    peerOpened := ?_, peerGot := ?_ }⟩
  · rw [h.wrote, List.append_assoc]
    rfl
  · have hflight := h.flight
    rw [hqueue] at hflight
    exact (List.cons.inj hflight).2
  · rw [h.peerOpened, sealings_append h.peerStands, List.map_append]
    rfl
  · rw [h.peerGot, appRecords_append, appRecords_single]

/-! ### Every move -/

theorem World.Inv.peerSends (hA : A.Ok) (h : w.Inv A) {r : PeerRec}
    (hmove : w.peerSends A.P A.digest A.limit r = some w') : w'.Inv A := by
  obtain ⟨⟨g, rest, got, flight, hlinked, hgoes⟩, hresults⟩ := h
  unfold World.peerSends at hmove
  split at hmove
  · rename_i hkind
    split at hmove
    · cases hmove
    · rename_i bytes hseal
      split at hmove
      · rename_i hlimit
        obtain rfl := Option.some.inj hmove
        refine ⟨⟨g, _, got, flight, hlinked.peerSends hA hkind.1 hkind.2 hseal hlimit, hgoes⟩,
          ?_⟩
        simp only [appRecords_append, List.map_append]
        exact hresults.trans (List.prefix_append _ _)
      · cases hmove
  · cases hmove

theorem World.Inv.peerReads (hA : A.Ok) (h : w.Inv A)
    (hmove : w.peerReads A.P A.digest = some w') : w'.Inv A := by
  obtain ⟨⟨g, rest, got, flight, hlinked, hgoes⟩, hresults⟩ := h
  unfold World.peerReads at hmove
  split at hmove
  · cases hmove
  · rename_i buf queue hqueue
    obtain ⟨x, hreceive, rfl⟩ := Option.map_eq_some_iff.1 hmove
    obtain ⟨y, more, hlinked'⟩ := hlinked.peerReads hA hqueue hreceive
    exact ⟨⟨g, rest, _, more, hlinked', hgoes⟩, hresults⟩

theorem World.Inv.move (hA : A.Ok) (h : w.Inv A) {m : Move}
    (hmove : w.move A.P A.digest A.limit m = some w') : w'.Inv A := by
  cases m with
  | peerSends r => exact h.peerSends hA hmove
  | peerReads => exact h.peerReads hA hmove
  | advance => exact h.advance hmove
  | callSend data =>
      obtain ⟨⟨g, rest, got, flight, hlinked, hgoes⟩, hresults⟩ := h
      simp only [World.move] at hmove
      split at hmove
      · rename_i s hus
        obtain rfl := Option.some.inj hmove
        rw [hus] at hgoes
        obtain ⟨hsynced, hwrote, hread⟩ := hgoes
        refine ⟨⟨g, rest, got, flight, { hlinked with may := ?_ }, ?_⟩, hresults⟩
        · rw [hwrote]
          exact List.prefix_append _ _
        · have hmay : appRecords g.wrote ++ [data] <+: w.accepted ++ [data] := by
            simp only [hwrote, List.prefix_rfl]
          refine (wnSend_obeys hA hsynced hmay).mono ?_
          rintro ⟨ret, s'⟩ g' ⟨hsynced', hread', hwrote'⟩
          refine ⟨hsynced', ?_, ?_⟩
          · rw [hread']
            exact hread
          · exact hwrote'.trans (congrArg (· ++ _) hwrote)
      · cases hmove
  | callRecv fuel out outCap outLen =>
      obtain ⟨⟨g, rest, got, flight, hlinked, hgoes⟩, hresults⟩ := h
      simp only [World.move] at hmove
      split at hmove
      · rename_i s hus
        split at hmove
        · rename_i hcap
          obtain rfl := Option.some.inj hmove
          rw [hus] at hgoes
          obtain ⟨hsynced, hwrote, hread⟩ := hgoes
          refine ⟨⟨g, rest, got, flight, { hlinked with may := ?_ }, ?_⟩, hresults⟩
          · rw [hwrote]
            exact List.prefix_append _ _
          · refine (wnRecv_obeys hA hsynced hcap ?_).mono ?_
            · rw [hwrote]
              exact List.prefix_append _ _
            · rintro ⟨ret, out', outLen', s'⟩ g' ⟨plain, hret, hdata, hsynced', hread', hwrote'⟩
              refine ⟨hsynced', hwrote'.trans hwrote, ?_⟩
              rw [hread', List.map_append, hret, hdata]
              simp only [hread]
              rfl
        · cases hmove
      · cases hmove

/-- Induction on the interleaving. -/
theorem World.Inv.moves (hA : A.Ok) {ms : List Move} (h : w.Inv A)
    (hmoves : w.moves A.P A.digest A.limit ms = some w') : w'.Inv A := by
  induction ms generalizing w with
  | nil =>
      obtain rfl := Option.some.inj hmoves
      exact h
  | cons m ms ih =>
      obtain ⟨w₁, hone, hrest⟩ := Option.bind_eq_some_iff.1 hmoves
      exact ih (h.move hA hone) hrest

/-- What the invariant says about a world. -/
theorem World.Inv.inStep (hA : A.Ok) {s : Session} (h : w.Inv A)
    (hpeer : A.peer₀ = (World.start s).peerWrite) (hus : A.us₀ = (World.start s).peerRead) :
    w.InStep A.P A.digest s := by
  obtain ⟨⟨g, rest, got, flight, hlinked, hgoes⟩, hresults⟩ := h
  obtain ⟨st, hst⟩ := hlinked.writes
  refine ⟨g.read, g.cur.record ++ rest, got, flight, ?_⟩
  have hours := hlinked.ours
  have hmay := hlinked.may
  have hlower := hlinked.lower
  have hupper := hlinked.upper
  have hsealed := hlinked.sealed
  have hpeerOpens := hst.opensThere hA.provider hA.opens hA.digest hA.us
  rw [hlinked.wrote] at hours hmay hlower hupper hsealed hpeerOpens hst
  have hopens := hlinked.sent.opensThere hA.provider hA.opens hA.digest hA.peer
  have hopened := hlinked.opened
  have hpeerOpened := hlinked.peerOpened
  rw [hpeer] at hopened hopens
  rw [hus] at hsealed hpeerOpens hpeerOpened
  refine
    { log := by rw [hlinked.log, List.append_assoc]
      opened := hopened
      opens := hopens
      sealed := hsealed
      ours := hours
      peerOpened := hpeerOpened
      peerOpens := hpeerOpens
      toPeer := hlinked.flight ▸ List.prefix_append _ _
      peerReady := ?_
      answers := ⟨hlower, hupper⟩
      results := hresults
      peerGot := hlinked.peerGot
      accepted := hmay
      idle := ?_ }
  · intro buf queue hqueue
    obtain ⟨r, more, -, -, -, hreceive⟩ := hlinked.head hA hqueue
    rw [hreceive]
    rfl
  · intro s' hidle
    rw [hidle] at hgoes
    obtain ⟨hsynced, hwrote, hread⟩ := hgoes
    have hreads := hsynced.reads
    have hwrites := hsynced.writes
    have hanswered := hsynced.answered
    have hqueue := hlinked.queue
    have hflight := hlinked.flight
    rw [hsynced.cur] at hqueue
    rw [hsynced.unsent] at hflight
    rw [hlinked.wrote] at hwrites hanswered hwrote
    rw [hpeer] at hreads
    rw [hus] at hwrites
    rw [hsynced.cur]
    refine ⟨hreads, hwrites, hqueue, ?_, hanswered, hread, hwrote⟩
    rw [hflight]
    exact (List.append_nil _).symm

end Moves

/-- A session and a peer that mirrors it stay in step in every interleaving, if
the session's buffer holds every record the peer sends. -/
theorem stays_in_step {P : Platform} {limit : Nat} {s : Session} {ms : List Move}
    {w : World} (hP : P.RecordOk) (hopens : P.OpensSealed) (hest : s.established = true)
    (hclosed : s.closed = false) (hdigest : digestSize P s.digest ≠ 0)
    (hread : s.readKeys.Proper) (hwrite : s.writeKeys.Proper)
    (hscratch : limit ≤ s.scratchLen)
    (hmoves : (World.start s).moves P s.digest limit ms = some w) :
    w.InStep P s.digest s := by
  have hA : Setting.Ok
      ⟨P, s.digest, limit, (World.start s).peerWrite, (World.start s).peerRead⟩ :=
    ⟨hP, hopens, hdigest, hread, hwrite⟩
  have hstart : (World.start s).Inv
      ⟨P, s.digest, limit, (World.start s).peerWrite, (World.start s).peerRead⟩ := by
    refine ⟨⟨⟨[], .between, [], none⟩, [], [], [], ?_, ?_, rfl, rfl⟩, List.nil_prefix⟩
    · exact
        { sent := .nil
          kinds := by simp [World.start]
          log := rfl
          queue := rfl
          opened := rfl
          wrote := rfl
          writes := ⟨_, .nil⟩
          ours := by simp
          flight := rfl
          sealed := rfl
          peerStands := .nil
          peerOpened := rfl
          peerGot := rfl
          lower := Nat.le_refl 0
          upper := Nat.zero_le 1
          may := List.nil_prefix }
    · refine ⟨hest, hclosed, rfl, hscratch, rfl, rfl, ⟨_, .nil, rfl, ?_⟩, ⟨_, .nil, rfl, ?_⟩,
        rfl⟩
      · exact (UInt64.ofNat_toNat).symm
      · exact (UInt64.ofNat_toNat).symm
  exact (hstart.moves hA hmoves).inStep hA rfl rfl

namespace Sample

theorem recordOk : platform.RecordOk where
  aesInit := rfl
  aesKey _ _ := rfl
  encrypt _ _ _ _ _ _ _ := rfl
  expand _ _ _ _ _ _ _ _ := rfl

/-- The peer asks for a KeyUpdate and sends data while we read; then we send. -/
def interleaving : List Move :=
  [.peerSends ⟨.posths [] (some true), 0⟩, .callRecv 5 [] 20000 0, .advance,
    .peerSends ⟨.app [1, 2, 3], 3⟩] ++ List.replicate 7 .advance ++ [.peerReads] ++
    List.replicate 3 .advance ++ [.callSend [9, 9]] ++ List.replicate 3 .advance ++
    [.peerReads]

end Sample

theorem stays_in_step_sample :
    ∃ w, (World.start Sample.session).moves Sample.platform Sample.session.digest 2048
        Sample.interleaving = some w ∧ w.InStep Sample.platform Sample.session.digest
          Sample.session ∧ w.peerGot = [[9, 9]] ∧ w.peerRead.gen = 1 := by
  have hsome : ((World.start Sample.session).moves Sample.platform Sample.session.digest 2048
      Sample.interleaving).map (fun w => (w.peerGot, w.peerRead.gen)) = some ([[9, 9]], 1) := by
    decide +kernel
  obtain ⟨w, hw, heq⟩ := Option.map_eq_some_iff.1 hsome
  obtain ⟨hgot, hgen⟩ := Prod.mk.inj heq
  refine ⟨w, hw, ?_, hgot, hgen⟩
  exact stays_in_step Sample.recordOk Sample.opensSealed rfl rfl (by decide)
    ⟨by decide, by decide⟩ ⟨by decide, by decide⟩ (by decide) hw

/-- Without room for the peer's records a call of `wn_Recv` fails. -/
theorem small_buffer_out_of_step :
    ¬ ∀ (P : Platform) (limit : Nat) (s : Session) (ms : List Move) (w : World),
      P.RecordOk → P.OpensSealed → s.established = true → s.closed = false →
      digestSize P s.digest ≠ 0 → s.readKeys.Proper → s.writeKeys.Proper →
      (World.start s).moves P s.digest limit ms = some w → w.InStep P s.digest s := by
  intro hall
  have hsome : ((World.start { Sample.session with scratchLen := 30 }).moves Sample.platform
      .sha256 20000 [.peerSends ⟨.app (zeros 10), 0⟩, .callRecv 1 [] 20000 0, .advance,
        .advance]).map World.results = some [(.error .crypto, none)] := by
    decide +kernel
  obtain ⟨w, hw, hresults⟩ := Option.map_eq_some_iff.1 hsome
  obtain ⟨read, rest, got, flight, hstep⟩ := hall Sample.platform 20000
    { Sample.session with scratchLen := 30 } _ w Sample.recordOk Sample.opensSealed rfl rfl
    (by decide) ⟨by decide, by decide⟩ ⟨by decide, by decide⟩ hw
  have hstart := hstep.results
  rw [hresults] at hstart
  obtain ⟨data, -, heq⟩ := List.mem_map.1 (hstart.subset (List.mem_singleton_self _))
  cases heq

end WolfNano
