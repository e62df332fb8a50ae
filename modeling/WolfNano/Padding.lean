/-
Padding of the encrypted handshake records: the driver that gets padded records does
what it does without the padding, as long as a padded record passes the checks on its
length before it is opened.
-/
import WolfNano.FlightCuts
import WolfNano.Accept

namespace WolfNano

open Duplex

section Padding

variable {P : Platform} {X : X509Backend} {σ : Type} {answer : σ → Bytes → Int × σ}
  {sess : Session} {wire wire' more emptyHash th : Bytes} {io : σ} {keys : HsKeys}
  {tc : Transcript} {fuel : Nat} {items : List FlightRec}

/-! ### The clients -/

theorem pskFlight_pads (hopens : P.OpensSealed) {scratchLen : Nat}
    (hwire : SealedFlight P keys.sKey keys.sIv scratchLen 0 (items.map .unpadded) wire)
    (hwire' : SealedFlight P keys.sKey keys.sIv scratchLen 0 items wire')
    (hroom : PadRoom (fun n len pad => n + len + 1 + pad ≤ pskPlainSz) 0 items) :
    (pskFlight P scratchLen keys fuel ⟨[], 0, 0, false, tc⟩).run.outcome answer
        ⟨wire ++ more, io⟩ =
      (pskFlight P scratchLen keys fuel ⟨[], 0, 0, false, tc⟩).run.outcome answer
        ⟨wire' ++ more, io⟩ :=
  FlightLoop.pads (L := pskLoop P keys scratchLen) hopens hwire hwire' (Nat.le_refl 0) rfl hroom

theorem PadRoom.of_mem {room : Nat → Nat → Nat → Prop} {n : Nat}
    (h : ∀ n content pad, .hs content pad ∈ items → room n content.length 0 →
      room n content.length pad) : PadRoom room n items := by
  induction items generalizing n with
  | nil => trivial
  | cons item items ih =>
      have hrest : ∀ m, PadRoom room m items := fun m => ih fun n content pad hmem =>
        h n content pad (List.mem_cons_of_mem _ hmem)
      cases item with
      | ccs => exact hrest n
      | hs content pad => exact ⟨h n content pad List.mem_cons_self, hrest _⟩

theorem certFlight_pads (hopens : P.OpensSealed) {args : CertArgs}
    (hwire : SealedFlight P keys.sKey keys.sIv (args.ioCap P.build) 0
      (items.map .unpadded) wire)
    (hwire' : SealedFlight P keys.sKey keys.sIv (args.ioCap P.build) 0 items wire') :
    (connectCertFlight P X fuel args keys tc).run.outcome answer ⟨wire ++ more, io⟩ =
      (connectCertFlight P X fuel args keys tc).run.outcome answer ⟨wire' ++ more, io⟩ := by
  have hflight : (certFlight P X args keys fuel ⟨[], 0, 0, {}, tc, []⟩).run.outcome answer
        ⟨wire ++ more, io⟩ =
      (certFlight P X args keys fuel ⟨[], 0, 0, {}, tc, []⟩).run.outcome answer
        ⟨wire' ++ more, io⟩ :=
    FlightLoop.pads (L := certLoop P keys X args) hopens hwire hwire' (Nat.le_refl 0) rfl
      (PadRoom.of_mem fun _ _ _ _ h => h)
  refine Proc.outcome_congr hflight fun x => ?_
  cases x with
  | error e => trivial
  | ok flight => exact certFinished_straight

/-- The PSK client from the flight on. -/
theorem connectPskEx_pads (hopens : P.OpensSealed) {rng : P.Rng} {args : PskArgs} {pre : Bytes}
    {io' : σ}
    (hhello : ∀ more, (connectPskHello P fuel rng args).eval (Tape.handler answer)
      ⟨pre ++ more, io⟩ = some (.ok (keys, emptyHash, tc), ⟨more, io'⟩))
    (hwire : SealedFlight P keys.sKey keys.sIv args.scratchLen 0 (items.map .unpadded) wire)
    (hwire' : SealedFlight P keys.sKey keys.sIv args.scratchLen 0 items wire')
    (hroom : PadRoom (fun n len pad => n + len + 1 + pad ≤ pskPlainSz) 0 items) :
    (connectPskEx P fuel rng args sess).outcome answer ⟨pre ++ (wire ++ more), io⟩ =
      (connectPskEx P fuel rng args sess).outcome answer ⟨pre ++ (wire' ++ more), io⟩ := by
  unfold connectPskEx
  by_cases hok : args.connectOk = false
  · rw [if_pos hok]
    rfl
  · rw [if_neg hok]
    have hbody : (connectPskBody P fuel rng args).run.outcome answer
          ⟨pre ++ (wire ++ more), io⟩ =
        (connectPskBody P fuel rng args).run.outcome answer ⟨pre ++ (wire' ++ more), io⟩ := by
      rw [connectPskBody_eq, Prog.outcome_bind_of_ok (hhello (wire ++ more)),
        Prog.outcome_bind_of_ok (hhello (wire' ++ more))]
      refine Proc.outcome_congr (pskFlight_pads hopens hwire hwire' hroom) fun x => ?_
      cases x with
      | error e => trivial
      | ok flight => exact connectPskFinished_straight
    refine Proc.outcome_congr hbody fun x => ?_
    cases x with
    | error e => trivial
    | ok y => exact establishClient_straight

/-- The certificate client from the flight on. -/
theorem connectCertImpl_pads (hopens : P.OpensSealed) {rng : P.Rng} {args : CertArgs}
    {pre : Bytes} {io' : σ}
    (hhello : ∀ more, (connectCertHello P fuel rng args).eval (Tape.handler answer)
      ⟨pre ++ more, io⟩ = some (.ok (keys, emptyHash, tc), ⟨more, io'⟩))
    (hwire : SealedFlight P keys.sKey keys.sIv (args.ioCap P.build) 0
      (items.map .unpadded) wire)
    (hwire' : SealedFlight P keys.sKey keys.sIv (args.ioCap P.build) 0 items wire') :
    (connectCertImpl P X fuel rng args sess).outcome answer ⟨pre ++ (wire ++ more), io⟩ =
      (connectCertImpl P X fuel rng args sess).outcome answer
        ⟨pre ++ (wire' ++ more), io⟩ := by
  unfold connectCertImpl
  by_cases hok : args.connectOk P.build = false
  · rw [if_pos hok]
    rfl
  · rw [if_neg hok]
    refine (Proc.outcome_bind (hhello (wire ++ more))).trans
      (Eq.trans ?_ (Proc.outcome_bind (hhello (wire' ++ more))).symm)
    exact Proc.outcome_congr (f := certEnd P args keys emptyHash)
      (certFlight_pads hopens hwire hwire') fun _ => certEnd_straight

/-! ### The servers -/

/-- The checks of the servers on the content of the record with the client Finished. -/
def clientFinishedOk (recvMac fin : Bytes) : Ret := do
  failIf (fin.length ≠ 4 + 32 ∨ fin.getD 0 0 ≠ hsFinished) .unexpectedMsg
  failIf (fin.drop 4 ≠ recvMac) .badMac

theorem recvClientFinished_ccs {scratchLen finCap : Nat} {out : OutRegion}
    {recvMac rest : Bytes} {r : Rec} (hfits : r.Fits scratchLen) (hccs : r.isCcs = true) :
    (recvClientFinished P scratchLen finCap out keys recvMac (fuel + 1)).eval
        (Tape.handler answer) ⟨r.bytes ++ rest, io⟩ =
      (recvClientFinished P scratchLen finCap out keys recvMac fuel).eval
        (Tape.handler answer) ⟨rest, io⟩ := by
  rw [recvClientFinished, Prog.eval_bind_of_ok (recvRecord_eval hfits)]
  dsimp only
  rw [if_pos hccs]

/-- The region takes every record that passes the check on its length from another
part of the scratch. -/
def OutClear (finCap : Nat) (out : OutRegion) (items : List FlightRec) : Prop :=
  ∀ content pad, .hs content pad ∈ items → content.length + 1 ≤ finCap →
    ∀ off, out.off = some off → content.length + 1 + pad + 21 ≤ off

/-- The one record with the client Finished: what passes the check on its length is
opened apart from the record, and its content is checked. -/
theorem recvClientFinished_hs (hopens : P.OpensSealed) {scratchLen finCap pad : Nat}
    {out : OutRegion} {recvMac rec rest content : Bytes}
    (hmax : content.length + pad ≤ maxPlaintext)
    (hseal : sealHs P keys.cKey keys.cIv 0 content pad = some rec)
    (hcap : rec.length ≤ scratchLen)
    (hclear : content.length + 1 ≤ finCap →
      ∀ off, out.off = some off → content.length + 1 + pad + 21 ≤ off) :
    (recvClientFinished P scratchLen finCap out keys recvMac (fuel + 1)).eval
        (Tape.handler answer) ⟨rec ++ rest, io⟩ =
      if content.length + 1 + pad > finCap then some (.error .unexpectedMsg, ⟨rest, io⟩)
      else some (clientFinishedOk recvMac content, ⟨rest, io⟩) := by
  have hlen := sealHs_length hseal
  obtain ⟨hread, hopen⟩ := @sealHs_eval P σ answer content rec rest pad scratchLen _ _ _ io
    hopens hmax hseal hcap out.cap
  rw [recvClientFinished, Prog.eval_bind_of_ok hread]
  dsimp only
  rw [if_neg (not_ccs_of_appdata rec),
    Prog.eval_bind_of_ok (Prog.eval_failIf_neg (not_not.2 rfl))]
  by_cases hbig : content.length + 1 + pad > finCap
  · rw [if_pos hbig]
    refine Prog.eval_bind_of_error (Prog.eval_failIf_pos ?_)
    simp only [recordHeaderSz, recordTagSz]
    omega
  · have hgap : out.gap rec = none :=
      OutRegion.gap_eq_none fun off hoff => hlen ▸ hclear (by omega) off hoff
    rw [if_neg hbig, Prog.eval_bind_of_ok (Prog.eval_failIf_neg ?_),
      recordUnprotectInto_eq hgap, Prog.eval_bind_of_ok hopen]
    · dsimp only
      unfold clientFinishedOk
      by_cases hshape : content.length ≠ 4 + 32 ∨ content.getD 0 0 ≠ hsFinished
      · rw [Prog.eval_bind_of_error (Prog.eval_failIf_pos (.inr hshape)), failIf,
          if_pos hshape]
        rfl
      · rw [Prog.eval_bind_of_ok (Prog.eval_failIf_neg fun h =>
          h.elim (fun hne => hne rfl) hshape), failIf, if_neg hshape]
        by_cases hmac : content.drop 4 ≠ recvMac
        · rw [Prog.eval_failIf_pos hmac, failIf, if_pos hmac]
          rfl
        · rw [Prog.eval_failIf_neg hmac, failIf, if_neg hmac]
          rfl
    · simp only [recordHeaderSz, recordTagSz]
      omega

/-- Padding on the client Finished changes nothing where the server's region takes it. -/
theorem recvClientFinished_pads (hopens : P.OpensSealed) {scratchLen finCap : Nat}
    {out : OutRegion} {recvMac : Bytes}
    (hwire : SealedFlight P keys.cKey keys.cIv scratchLen 0 (items.map .unpadded) wire)
    (hwire' : SealedFlight P keys.cKey keys.cIv scratchLen 0 items wire')
    (hroom : PadRoom (fun _ len pad => len + 1 + pad ≤ finCap) 0 items)
    (hclear : OutClear finCap out items) :
    (recvClientFinished P scratchLen finCap out keys recvMac fuel).run.outcome answer
        ⟨wire ++ more, io⟩ =
      (recvClientFinished P scratchLen finCap out keys recvMac fuel).run.outcome answer
        ⟨wire' ++ more, io⟩ := by
  induction items generalizing wire wire' fuel with
  | nil =>
      cases hwire
      cases hwire'
      rfl
  | cons item items ih =>
      cases fuel with
      | zero => rfl
      | succ fuel =>
          unfold Proc.outcome at ih ⊢
          cases item with
          | ccs =>
              cases hwire with
              | ccs hfits hccs hrest =>
                  cases hwire' with
                  | ccs hfits' hccs' hrest' =>
                      rw [List.append_assoc, List.append_assoc, Prog.run_eval, Prog.run_eval,
                        recvClientFinished_ccs hfits hccs, recvClientFinished_ccs hfits' hccs']
                      exact ih hrest hrest' hroom fun content pad hmem =>
                        hclear content pad (List.mem_cons_of_mem _ hmem)
          | hs content pad =>
              cases hwire with
              | hs hmax hseal hcap hrest =>
                  cases hwire' with
                  | hs hmax' hseal' hcap' hrest' =>
                      have hfar := hclear content pad List.mem_cons_self
                      have hnear : content.length + 1 ≤ finCap → ∀ off, out.off = some off →
                          content.length + 1 + 0 + 21 ≤ off := fun hsmall off hoff =>
                        Nat.le_trans (by omega) (hfar hsmall off hoff)
                      rw [List.append_assoc, List.append_assoc, Prog.run_eval, Prog.run_eval,
                        recvClientFinished_hs hopens hmax hseal hcap hnear,
                        recvClientFinished_hs hopens hmax' hseal' hcap' hfar]
                      by_cases hbig : content.length + 1 + 0 > finCap
                      · rw [if_pos hbig, if_pos (by omega)]
                        rfl
                      · have hsmall := hroom.1 (Nat.le_of_not_lt hbig)
                        rw [if_neg hbig, if_neg (Nat.not_lt.2 hsmall)]
                        rfl

theorem establishServer_pads (hopens : P.OpensSealed) {scratchLen finCap : Nat}
    {out : OutRegion}
    (hwire : SealedFlight P keys.cKey keys.cIv scratchLen 0 (items.map .unpadded) wire)
    (hwire' : SealedFlight P keys.cKey keys.cIv scratchLen 0 items wire')
    (hroom : PadRoom (fun _ len pad => len + 1 + pad ≤ finCap) 0 items)
    (hclear : OutClear finCap out items) :
    (establishServer P fuel sess keys emptyHash th scratchLen finCap out).outcome answer
        ⟨wire ++ more, io⟩ =
      (establishServer P fuel sess keys emptyHash th scratchLen finCap out).outcome answer
        ⟨wire' ++ more, io⟩ := by
  unfold establishServer
  rcases sessionEstablish P .server sess keys.hs emptyHash (zeros 32) th scratchLen with
    ⟨e | u, sess'⟩
  · rfl
  · cases u
    cases hmac : tls13FinishedMac P keys.cHs th 32 .sha256 with
    | error e => rfl
    | ok recvMac =>
        have hfin : (recvClientFinished P scratchLen finCap out keys recvMac
              fuel).run.outcome answer ⟨wire ++ more, io⟩ =
            (recvClientFinished P scratchLen finCap out keys recvMac
              fuel).run.outcome answer ⟨wire' ++ more, io⟩ :=
          recvClientFinished_pads hopens hwire hwire' hroom hclear
        refine (Proc.outcome_bind Proc.eval_emit).trans
          (Eq.trans ?_ (Proc.outcome_bind Proc.eval_emit).symm)
        refine Proc.outcome_congr hfin fun x => ?_
        cases x with
        | error e => trivial
        | ok u => trivial

theorem acceptPskEx_pads (hopens : P.OpensSealed) {rng : P.Rng} {args : PskArgs} {pre : Bytes}
    {io' : σ}
    (hbody : ∀ more, (acceptPskBody P fuel rng args).eval (Tape.handler answer)
      ⟨pre ++ more, io⟩ = some (.ok (keys, emptyHash, th), ⟨more, io'⟩))
    (hwire : SealedFlight P keys.cKey keys.cIv args.scratchLen 0 (items.map .unpadded) wire)
    (hwire' : SealedFlight P keys.cKey keys.cIv args.scratchLen 0 items wire')
    (hroom : PadRoom (fun _ len pad => len + 1 + pad ≤ flightSz) 0 items) :
    (acceptPskEx P fuel rng args sess).outcome answer ⟨pre ++ (wire ++ more), io⟩ =
      (acceptPskEx P fuel rng args sess).outcome answer ⟨pre ++ (wire' ++ more), io⟩ := by
  unfold acceptPskEx
  by_cases hok : args.acceptOk P.build = false
  · rw [if_pos hok]
    rfl
  · rw [if_neg hok]
    refine (Proc.outcome_bind (hbody (wire ++ more))).trans
      (Eq.trans ?_ (Proc.outcome_bind (hbody (wire' ++ more))).symm)
    exact establishServer_pads hopens hwire hwire' hroom fun _ _ _ _ off hoff => by cases hoff

/-- The certificate server opens into the second half of the scratch, so the padded record
has to end in the first. -/
theorem acceptCertEx_pads (hopens : P.OpensSealed) {rng : P.Rng} {args : ServerCertArgs}
    {pre : Bytes} {io' : σ}
    (hbody : ∀ more, (acceptCertBody P fuel rng args).eval (Tape.handler answer)
      ⟨pre ++ more, io⟩ = some (.ok (keys, emptyHash, th), ⟨more, io'⟩))
    (hwire : SealedFlight P keys.cKey keys.cIv args.scratchLen 0 (items.map .unpadded) wire)
    (hwire' : SealedFlight P keys.cKey keys.cIv args.scratchLen 0 items wire')
    (hroom : ∀ content pad, .hs content pad ∈ items → content.length + 1 ≤ args.half →
      content.length + 1 + pad + 21 ≤ args.half) :
    (acceptCertEx P fuel rng args sess).outcome answer ⟨pre ++ (wire ++ more), io⟩ =
      (acceptCertEx P fuel rng args sess).outcome answer ⟨pre ++ (wire' ++ more), io⟩ := by
  unfold acceptCertEx
  by_cases hok : args.acceptOk = false
  · rw [if_pos hok]
    rfl
  · rw [if_neg hok]
    refine (Proc.outcome_bind (hbody (wire ++ more))).trans
      (Eq.trans ?_ (Proc.outcome_bind (hbody (wire' ++ more))).symm)
    refine establishServer_pads hopens hwire hwire' (.of_mem fun _ content pad hmem hsmall => ?_)
      fun content pad hmem hsmall off hoff => ?_
    · have hfits := hroom content pad hmem hsmall
      omega
    · cases hoff
      exact hroom content pad hmem hsmall

end Padding

/-- A run does the same with padding on the peer's encrypted handshake records: in the
certificate client always, and in the other drivers when each padded inner plaintext fits
where it was going to be checked, the rest of the PSK client's `plain`, the PSK server's
`flight` and, with the record around it, the first half of the certificate server's scratch:
a longer record would reach into the half it is opened into. -/
theorem padding_transparent (P : Platform) (X : X509Backend) (hopens : P.OpensSealed)
    {σ : Type} (answer : σ → Bytes → Int × σ) :
    (∀ {fuel : Nat} {rng : P.Rng} {args : PskArgs} {sess : Session}
        {pre wire wire' more : Bytes} {keys : HsKeys} {emptyHash : Bytes} {tc : Transcript}
        {io io' : σ} {items : List FlightRec},
      (∀ more, (connectPskHello P fuel rng args).eval (Tape.handler answer)
        ⟨pre ++ more, io⟩ = some (.ok (keys, emptyHash, tc), ⟨more, io'⟩)) →
      SealedFlight P keys.sKey keys.sIv args.scratchLen 0 (items.map .unpadded) wire →
      SealedFlight P keys.sKey keys.sIv args.scratchLen 0 items wire' →
      PadRoom (fun n len pad => n + len + 1 + pad ≤ pskPlainSz) 0 items →
      (connectPskEx P fuel rng args sess).outcome answer ⟨pre ++ (wire ++ more), io⟩ =
        (connectPskEx P fuel rng args sess).outcome answer ⟨pre ++ (wire' ++ more), io⟩) ∧
    (∀ {fuel : Nat} {rng : P.Rng} {args : CertArgs} {sess : Session}
        {pre wire wire' more : Bytes} {keys : HsKeys} {emptyHash : Bytes} {tc : Transcript}
        {io io' : σ} {items : List FlightRec},
      (∀ more, (connectCertHello P fuel rng args).eval (Tape.handler answer)
        ⟨pre ++ more, io⟩ = some (.ok (keys, emptyHash, tc), ⟨more, io'⟩)) →
      SealedFlight P keys.sKey keys.sIv (args.ioCap P.build) 0 (items.map .unpadded) wire →
      SealedFlight P keys.sKey keys.sIv (args.ioCap P.build) 0 items wire' →
      (connectCertImpl P X fuel rng args sess).outcome answer ⟨pre ++ (wire ++ more), io⟩ =
        (connectCertImpl P X fuel rng args sess).outcome answer
          ⟨pre ++ (wire' ++ more), io⟩) ∧
    (∀ {fuel : Nat} {rng : P.Rng} {args : PskArgs} {sess : Session}
        {pre wire wire' more : Bytes} {keys : HsKeys} {emptyHash th : Bytes} {io io' : σ}
        {items : List FlightRec},
      (∀ more, (acceptPskBody P fuel rng args).eval (Tape.handler answer) ⟨pre ++ more, io⟩ =
        some (.ok (keys, emptyHash, th), ⟨more, io'⟩)) →
      SealedFlight P keys.cKey keys.cIv args.scratchLen 0 (items.map .unpadded) wire →
      SealedFlight P keys.cKey keys.cIv args.scratchLen 0 items wire' →
      PadRoom (fun _ len pad => len + 1 + pad ≤ flightSz) 0 items →
      (acceptPskEx P fuel rng args sess).outcome answer ⟨pre ++ (wire ++ more), io⟩ =
        (acceptPskEx P fuel rng args sess).outcome answer ⟨pre ++ (wire' ++ more), io⟩) ∧
    (∀ {fuel : Nat} {rng : P.Rng} {args : ServerCertArgs} {sess : Session}
        {pre wire wire' more : Bytes} {keys : HsKeys} {emptyHash th : Bytes} {io io' : σ}
        {items : List FlightRec},
      (∀ more, (acceptCertBody P fuel rng args).eval (Tape.handler answer) ⟨pre ++ more, io⟩ =
        some (.ok (keys, emptyHash, th), ⟨more, io'⟩)) →
      SealedFlight P keys.cKey keys.cIv args.scratchLen 0 (items.map .unpadded) wire →
      SealedFlight P keys.cKey keys.cIv args.scratchLen 0 items wire' →
      (∀ content pad, .hs content pad ∈ items → content.length + 1 ≤ args.half →
        content.length + 1 + pad + 21 ≤ args.half) →
      (acceptCertEx P fuel rng args sess).outcome answer ⟨pre ++ (wire ++ more), io⟩ =
        (acceptCertEx P fuel rng args sess).outcome answer ⟨pre ++ (wire' ++ more), io⟩) :=
  ⟨connectPskEx_pads hopens, connectCertImpl_pads hopens, acceptPskEx_pads hopens,
    acceptCertEx_pads hopens⟩

namespace Sample

/-- The flight of the PSK server, as its client opens it. -/
def pskContent : Bytes :=
  match openRecord platform pskStarted.1.sKey pskStarted.1.sIv 0
      (pskReply.drop ((firstRecord pskReply).length + 6)) with
  | .ok (_, content) => content
  | .error _ => []

/-- The ClientHello record of `certClient`. -/
def certHello : Bytes := firstRecord (sentOn certClient [])

/-- A sealed record from a client. -/
def clientRecord (keys : HsKeys) (content : Bytes) (pad : Nat) : Bytes :=
  (sealHs platform keys.cKey keys.cIv 0 content pad).getD []

def serverCertArgs : ServerCertArgs := ⟨[1], [2], 0x0807, 4096, true⟩

theorem served_isSome :
    (started (acceptPskBody platform 4 (100 : Nat) pskArgs) (firstRecord pskHello)).isSome =
      true ∧
    (started (acceptCertBody platform 4 (100 : Nat) serverCertArgs) certHello).isSome =
      true := by
  decide +kernel

/-- The PSK server when it waits for the client Finished. -/
def pskServed : HsKeys × Bytes × Bytes :=
  (started (acceptPskBody platform 4 (100 : Nat) pskArgs) (firstRecord pskHello)).get
    served_isSome.1

theorem pskServed_eval (more : Bytes) :
    (acceptPskBody platform 4 (100 : Nat) pskArgs).eval (Tape.handler takes)
        ⟨firstRecord pskHello ++ more, ()⟩ =
      some (.ok (pskServed.1, pskServed.2.1, pskServed.2.2), ⟨more, ()⟩) :=
  started_eval (x := pskServed) (Option.some_get served_isSome.1).symm more

/-- The certificate server when it waits for the client Finished. -/
def certServed : HsKeys × Bytes × Bytes :=
  (started (acceptCertBody platform 4 (100 : Nat) serverCertArgs) certHello).get
    served_isSome.2

theorem certServed_eval (more : Bytes) :
    (acceptCertBody platform 4 (100 : Nat) serverCertArgs).eval (Tape.handler takes)
        ⟨certHello ++ more, ()⟩ =
      some (.ok (certServed.1, certServed.2.1, certServed.2.2), ⟨more, ()⟩) :=
  started_eval (x := certServed) (Option.some_get served_isSome.2).symm more

/-- The flight of the certificate server, as its client opens it. -/
def certContent : Bytes :=
  match openRecord platform certStarted.1.sKey certStarted.1.sIv 0
      (certReply.drop ((firstRecord certReply).length + 6)) with
  | .ok (_, content) => content
  | .error _ => []

/-- The hash of the transcript a server has when it waits for the client. -/
def clientMac (served : HsKeys × Bytes × Bytes) : Bytes :=
  match tls13FinishedMac platform served.1.cHs served.2.2 32 .sha256 with
  | .ok mac => mac
  | .error _ => []

/-- The Finished a server waits for. -/
def clientFin (served : HsKeys × Bytes × Bytes) : Bytes := finishedMsg (clientMac served)

/-- The PSK flight is an EncryptedExtensions message and a Finished. -/
theorem contents_length :
    (pskContent.length = 42 ∧ pskContent.take 6 = encExt ∧
      (pskContent.drop 6).take 4 = [20, 0, 0, 32]) ∧
    certContent.length ≤ 512 ∧ (clientFin pskServed).length = 36 ∧
      (clientFin certServed).length = 36 := by
  decide +kernel

/-- A record of the server with padding. -/
theorem paddedFlight (keys : HsKeys) {content : Bytes} {cap pad : Nat} (hcap : 2048 ≤ cap)
    (hsmall : content.length + pad ≤ 2026) :
    SealedFlight platform keys.sKey keys.sIv cap 0 [.hs content pad]
      (hsRecord keys 0 content pad ++ []) := by
  refine .hs (Nat.le_trans hsmall (by decide)) hsRecord_seals ?_ .nil
  rw [hsRecord_length]
  omega

/-- A record of the client with padding. -/
theorem paddedFinished (keys : HsKeys) {content : Bytes} {cap pad : Nat} (hcap : 2048 ≤ cap)
    (hsmall : content.length + pad ≤ 2026) :
    SealedFlight platform keys.cKey keys.cIv cap 0 [.hs content pad]
      (clientRecord keys content pad ++ []) := by
  have hseal : sealHs platform keys.cKey keys.cIv 0 content pad =
      some (clientRecord keys content pad) := rfl
  refine .hs (Nat.le_trans hsmall (by decide)) hseal ?_ .nil
  rw [sealHs_length hseal]
  omega

/-- The two runs succeed with one session. -/
def SucceedAlike (p : Proc Ev (Ret × Session)) (b b' : Bytes) : Prop :=
  ∃ s, p.outcome takes ⟨b, ()⟩ = some ((.ok (), s), ()) ∧
    p.outcome takes ⟨b', ()⟩ = some ((.ok (), s), ())

/-- What the program returns on these bytes. -/
def returnOn (p : Proc Ev (Ret × Session)) (b : Bytes) : Option Bool :=
  (p.outcome takes ⟨b, ()⟩).map fun x => x.1.1.isOk

theorem succeedAlike {p : Proc Ev (Ret × Session)} {b b' : Bytes}
    (hok : returnOn p b = some true)
    (heq : p.outcome takes ⟨b, ()⟩ = p.outcome takes ⟨b', ()⟩) : SucceedAlike p b b' := by
  obtain ⟨⟨⟨ret, s⟩, u⟩, hrun, hret⟩ := Option.map_eq_some_iff.1 hok
  cases ret with
  | error e => cases hret
  | ok v => exact ⟨s, hrun, heq ▸ hrun⟩

/-- What the PSK client gets with this much padding on the flight. -/
def pskPadded (pad : Nat) : Bytes :=
  firstRecord pskReply ++ ((hsRecord pskStarted.1 0 pskContent pad ++ []) ++ [])

def certPadded (pad : Nat) : Bytes :=
  firstRecord certReply ++ ((hsRecord certStarted.1 0 certContent pad ++ []) ++ [])

/-- What the PSK server gets with this much padding on the Finished. -/
def pskFinPadded (pad : Nat) : Bytes :=
  firstRecord pskHello ++ ((clientRecord pskServed.1 (clientFin pskServed) pad ++ []) ++ [])

def certFinPadded (pad : Nat) : Bytes :=
  certHello ++ ((clientRecord certServed.1 (clientFin certServed) pad ++ []) ++ [])

/-- A backend that finds the key of `serverCertArgs` in every chain. -/
def trusting : X509Backend := ⟨fun _ _ _ _ _ _ => .ok [2], fun _ _ => true⟩

/-- The runs without padding succeed.  The PSK flight with 600 octets of it fails. -/
theorem padded_returns :
    (returnOn (connectPskEx platform 4 (7 : Nat) pskArgs .zero) (pskPadded 0) = some true ∧
      returnOn (connectPskEx platform 4 (7 : Nat) pskArgs .zero) (pskPadded 600) =
        some false) ∧
    returnOn (connectCertImpl platform trusting 4 (7 : Nat) certArgs .zero) (certPadded 0) =
      some true ∧
    returnOn (acceptPskEx platform 4 (100 : Nat) pskArgs .zero) (pskFinPadded 0) =
      some true ∧
    returnOn (acceptCertEx platform 4 (100 : Nat) serverCertArgs .zero) (certFinPadded 0) =
      some true := by
  decide +kernel

end Sample

open Sample in
-- the type would be evaluated otherwise
seal Sample.pskStarted Sample.certStarted Sample.pskServed Sample.certServed Sample.pskReply
  Sample.certReply Sample.certHello Sample.pskContent Sample.certContent Sample.clientMac
  Sample.clientFin in
theorem padding_transparent_sample :
    SucceedAlike (connectPskEx platform 4 (7 : Nat) pskArgs .zero) (pskPadded 0)
      (pskPadded 3) ∧
    SucceedAlike (connectCertImpl platform trusting 4 (7 : Nat) certArgs .zero) (certPadded 0)
      (certPadded 999) ∧
    SucceedAlike (acceptPskEx platform 4 (100 : Nat) pskArgs .zero) (pskFinPadded 0)
      (pskFinPadded 91) ∧
    SucceedAlike (acceptCertEx platform 4 (100 : Nat) serverCertArgs .zero) (certFinPadded 0)
      (certFinPadded 1990) := by
  obtain ⟨⟨hpsk, -, -⟩, hcertLen, hpskFin, hcertFinLen⟩ := contents_length
  obtain ⟨⟨hpskOk, -⟩, hcertOk, hpskFinOk, hcertFinOk⟩ := padded_returns
  have hcert {pad : Nat} (hpad : pad ≤ 1024) : certContent.length + pad ≤ 2026 :=
    Nat.le_trans (Nat.add_le_add hcertLen hpad) (by decide)
  have hcertFin {pad : Nat} (hpad : pad ≤ 1990) : (clientFin certServed).length + pad ≤ 2026 :=
    Nat.le_trans (Nat.add_le_add (Nat.le_of_eq hcertFinLen) hpad) (by decide)
  refine ⟨succeedAlike hpskOk ?_, succeedAlike hcertOk ?_, succeedAlike hpskFinOk ?_,
    succeedAlike hcertFinOk ?_⟩
  · refine (padding_transparent platform trusting opensSealed takes).1 pskStarted_eval
      (paddedFlight _ (by decide) (by omega)) (paddedFlight _ (by decide) (by omega))
      ⟨fun _ => ?_, trivial⟩
    rw [hpsk]
    decide
  · exact (padding_transparent platform trusting opensSealed takes).2.1 certStarted_eval
      (paddedFlight _ (by decide) (hcert (by decide)))
      (paddedFlight _ (by decide) (hcert (by decide)))
  · refine (padding_transparent platform trusting opensSealed takes).2.2.1 pskServed_eval
      (paddedFinished _ (by decide) (by omega)) (paddedFinished _ (by decide) (by omega))
      ⟨fun _ => ?_, trivial⟩
    rw [hpskFin]
    decide
  · refine (padding_transparent platform trusting opensSealed takes).2.2.2 certServed_eval
      (paddedFinished _ (by decide) (hcertFin (by decide)))
      (paddedFinished _ (by decide) (hcertFin (by decide))) fun content pad hmem _ => ?_
    have heq : FlightRec.hs content pad = .hs (clientFin certServed) 1990 :=
      List.mem_singleton.1 hmem
    injection heq with hcontent hpad
    rw [hcontent, hcertFinLen, hpad]
    decide

open Sample in
seal Sample.pskStarted Sample.pskReply Sample.pskContent in
/-- A padded record that is within the limits of the protocol and fits the read buffer can
be refused. -/
theorem padding_refused :
    ¬ ∀ (P : Platform) {fuel : Nat} {rng : P.Rng} {args : PskArgs} {sess s : Session}
        {pre wire wire' more : Bytes} {keys : HsKeys} {emptyHash : Bytes} {tc : Transcript}
        {items : List FlightRec}, P.OpensSealed →
      (∀ more, (connectPskHello P fuel rng args).eval (Tape.handler takes)
        ⟨pre ++ more, ()⟩ = some (.ok (keys, emptyHash, tc), ⟨more, ()⟩)) →
      SealedFlight P keys.sKey keys.sIv args.scratchLen 0 (items.map .unpadded) wire →
      SealedFlight P keys.sKey keys.sIv args.scratchLen 0 items wire' →
      (connectPskEx P fuel rng args sess).outcome takes ⟨pre ++ (wire ++ more), ()⟩ =
        some ((.ok (), s), ()) →
      (connectPskEx P fuel rng args sess).outcome takes ⟨pre ++ (wire' ++ more), ()⟩ =
        some ((.ok (), s), ()) := by
  intro hall
  have hlen := contents_length.1.1
  obtain ⟨⟨⟨ret, s⟩, u⟩, hrun, hret⟩ := Option.map_eq_some_iff.1 padded_returns.1.1
  cases ret with
  | error e => cases hret
  | ok v =>
      have hmore : SealedFlight platform pskStarted.1.sKey pskStarted.1.sIv 2048 0
          [.hs pskContent 600] (hsRecord pskStarted.1 0 pskContent 600 ++ []) :=
        paddedFlight _ (by decide) (by omega)
      have hpadded := hall platform opensSealed pskStarted_eval
        (paddedFlight _ (by decide) (by omega)) hmore hrun
      have hmany := padded_returns.1.2
      unfold returnOn pskPadded at hmany
      rw [hpadded] at hmany
      cases hmany

end WolfNano
