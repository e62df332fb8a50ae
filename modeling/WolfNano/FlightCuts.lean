/-
The encrypted flight cut into records in different ways: both clients come to the
same end.
-/
import WolfNano.FlightTape

namespace WolfNano

open Duplex

/-! ### Programs that only send -/

section Straight

variable {P : Platform}

theorem recordProtect_straight {cap : Nat} {key iv content : Bytes} {seq : UInt64}
    {contentType : UInt8} :
    (recordProtect P cap key iv seq contentType content).Straight :=
  Prog.Straight.failIf.bind fun _ => Prog.Straight.note.bind fun _ => Prog.Straight.orFail

theorem sendRecord_straight {rec : Bytes} : (sendRecord rec).Straight :=
  Prog.Straight.send.bind fun _ => Prog.Straight.failIf

theorem sendClientFinished_straight {cap : Nat} {keys : HsKeys} {mac : Bytes} :
    (sendClientFinished P cap keys mac).Straight :=
  recordProtect_straight.bind fun _ => sendRecord_straight

theorem sendAlert_straight {keys : HsKeys} {seq : UInt64} {e : Err} :
    (sendAlert P keys seq e).Straight := by
  unfold sendAlert
  by_cases hbuild : P.build.sendAlerts = true
  · rw [if_pos hbuild]
    refine Proc.Straight.bind recordProtect_straight fun x => ?_
    cases x with
    | error e => trivial
    | ok rec => exact fun _ => trivial
  · rw [if_neg hbuild]
    trivial

theorem establishClient_straight {keys : HsKeys} {emptyHash th : Bytes} {scratchLen : Nat} :
    (establishClient P keys emptyHash th scratchLen).Straight := by
  unfold establishClient
  rcases sessionEstablishClient P .zero keys.hs emptyHash (zeros 32) th scratchLen with
    ⟨e | ⟨⟩, sess⟩
  · trivial
  · trivial

end Straight

/-! ### Before the flight -/

section Hello

variable (P : Platform)

/-- `wn_Connect_Psk_ex` up to the handshake keys. -/
def connectPskHello (fuel : Nat) (rng : P.Rng) (args : PskArgs) :
    Shell (HsKeys × Bytes × Transcript) := do
  let st ← Prog.lift (clientStart P rng)
  let (early, hello) ← Prog.lift (pskClientHello P args st)
  let tc ← Prog.lift (st.tc.update P hello)
  sendPlainRecord recHandshake hello
  sendCcs
  let (tc, ecdhe) ← recvServerHello P fuel args.scratchLen 0 st.sid st.ks tc
  let th ← Prog.lift (tc.getHash P)
  let keys ← Prog.lift (deriveHsKeys P early ecdhe st.emptyHash th)
  Prog.note (.writeKey keys.cKey keys.cIv)
  pure (keys, st.emptyHash, tc)

/-- `wn_Connect_Psk_ex` from the flight's transcript to the session. -/
def connectPskFinished (args : PskArgs) (keys : HsKeys) (emptyHash : Bytes) (tc : Transcript) :
    Shell (HsKeys × Bytes × Bytes) := do
  let th ← Prog.lift (tc.getHash P)
  let mac ← Prog.lift (tls13FinishedMac P keys.cHs th 32 .sha256)
  sendClientFinished P args.scratchLen keys mac
  pure (keys, emptyHash, th)

variable {P} {fuel more : Nat} {rng : P.Rng}

theorem connectPskBody_eq {args : PskArgs} :
    connectPskBody P fuel rng args =
      connectPskHello P fuel rng args >>= fun (keys, emptyHash, tc) =>
        pskFlight P args.scratchLen keys fuel ⟨[], 0, 0, false, tc⟩ >>= fun flight =>
          connectPskFinished P args keys emptyHash flight.tc := by
  unfold connectPskBody connectPskHello connectPskFinished
  simp only [Prog.bind_assoc]
  rfl

theorem recvSkipCcs_extends {cap : Nat} (hle : fuel ≤ more) :
    (recvSkipCcs cap fuel).Extends (recvSkipCcs cap more) := by
  induction fuel generalizing more with
  | zero => exact .spin
  | succ fuel ih =>
      obtain ⟨more, rfl⟩ := Nat.exists_eq_succ_of_ne_zero (Nat.ne_zero_of_lt hle)
      refine Prog.Extends.bind .refl fun rec => ?_
      by_cases hccs : rec.isCcs = true
      · rw [if_pos hccs, if_pos hccs]
        exact ih (Nat.le_of_succ_le_succ hle)
      · rw [if_neg hccs, if_neg hccs]
        exact .refl

theorem recvServerHello_extends {cap : Nat} {pskSelected : Int} {sid : Bytes}
    {ks : KeyShare P} {tc : Transcript} (hle : fuel ≤ more) :
    (recvServerHello P fuel cap pskSelected sid ks tc).Extends
      (recvServerHello P more cap pskSelected sid ks tc) :=
  (recvSkipCcs_extends hle).bind fun _ => .refl

theorem connectPskHello_extends {args : PskArgs} (hle : fuel ≤ more) :
    (connectPskHello P fuel rng args).Extends (connectPskHello P more rng args) := by
  refine Prog.Extends.bind .refl fun st => ?_
  refine Prog.Extends.bind .refl fun hello => ?_
  refine Prog.Extends.bind .refl fun tc => ?_
  refine Prog.Extends.bind .refl fun _ => ?_
  refine Prog.Extends.bind .refl fun _ => ?_
  exact (recvServerHello_extends hle).bind fun _ => .refl

theorem connectCertHello_extends {args : CertArgs} (hle : fuel ≤ more) :
    (connectCertHello P fuel rng args).Extends (connectCertHello P more rng args) := by
  refine Prog.Extends.bind .refl fun st => ?_
  refine Prog.Extends.bind .refl fun hello => ?_
  refine Prog.Extends.bind .refl fun tc => ?_
  refine Prog.Extends.bind .refl fun _ => ?_
  refine Prog.Extends.bind .refl fun _ => ?_
  exact (recvServerHello_extends hle).bind fun _ => .refl

end Hello

/-! ### The rest of the drivers -/

section Cuts

variable {P : Platform} {X : X509Backend} {σ : Type} {answer : σ → Bytes → Int × σ}
  {rng : P.Rng} {sess : Session} {pre wire wire' emptyHash : Bytes} {io io' : σ}
  {keys : HsKeys} {tc : Transcript} {n : Nat} {items items' : List FlightRec}

/-- A flight of records without padding that is on the wire in this form. -/
structure UnpaddedFlight (P : Platform) (keys : HsKeys) (cap : Nat) (items : List FlightRec)
    (wire : Bytes) : Prop where
  isSealed : SealedFlight P keys.sKey keys.sIv cap 0 items wire
  unpadded : ∀ r ∈ items, r.unpadded = r

theorem connectPskFinished_straight {args : PskArgs} :
    (connectPskFinished P args keys emptyHash tc).Straight :=
  Prog.Straight.lift.bind fun _ => Prog.Straight.lift.bind fun _ =>
    sendClientFinished_straight.bind fun _ => Prog.Straight.pure

/-- The PSK client on the flight: two ways of cutting the same bytes. -/
theorem pskFlight_cuts (hopens : P.OpensSealed) {args : PskArgs}
    (hwire : UnpaddedFlight P keys args.scratchLen items wire)
    (hwire' : UnpaddedFlight P keys args.scratchLen items' wire')
    (hcut : (flightContents items).flatten = (flightContents items').flatten)
    (hlen : (flightContents items).flatten.length < pskPlainSz) :
    SameEnd answer (fun fuel =>
        (pskFlight P args.scratchLen keys fuel ⟨[], 0, 0, false, tc⟩ >>= fun flight =>
          connectPskFinished P args keys emptyHash flight.tc).run)
      ⟨wire, io⟩ ⟨wire', io⟩ := by
  have hroom : ∀ n len, n + len ≤ 511 → (pskLoop P keys args.scratchLen).room n len 0 := by
    intro n len hsum
    change n + len + 1 + 0 ≤ 512
    omega
  have htotal : 0 + (flightContents items).flatten.length ≤ 511 := by
    simp only [pskPlainSz] at hlen
    omega
  exact FlightLoop.cuts (L := pskLoop P keys args.scratchLen) ⟨[], 0, 0, false, tc⟩
    (fun s => connectPskFinished P args keys emptyHash s.tc) hopens hwire.isSealed
    hwire'.isSealed hcut (Nat.le_refl 0) rfl rfl
    (roomy_of_total hroom hwire.unpadded htotal)
    (roomy_of_total hroom hwire'.unpadded (hcut ▸ htotal))
    fun _ => connectPskFinished_straight

theorem certFinished_straight {seen : Transcript} :
    ((do
      let th ← Prog.lift (seen.getHash P)
      let mac ← Prog.lift (tls13FinishedMac P keys.cHs th 32 .sha256)
      pure (th, mac)) : Shell (Bytes × Bytes)).Straight :=
  Prog.Straight.lift.bind fun _ => Prog.Straight.lift.bind fun _ => Prog.Straight.pure

/-- The certificate client on the flight: two ways of cutting the same bytes. -/
theorem certFlight_cuts (hopens : P.OpensSealed) {args : CertArgs}
    (hwire : UnpaddedFlight P keys (args.ioCap P.build) items wire)
    (hwire' : UnpaddedFlight P keys (args.ioCap P.build) items' wire')
    (hcut : (flightContents items).flatten = (flightContents items').flatten)
    (hlen : (flightContents items).flatten.length ≤ hsAccSz P.build) :
    SameEnd answer (fun fuel => (connectCertFlight P X fuel args keys tc).run)
      ⟨wire, io⟩ ⟨wire', io⟩ := by
  have hroom : ∀ n len, n + len ≤ hsAccSz P.build →
      (certLoop P keys X args).room n len 0 := fun n len hsum => hsum
  have htotal : 0 + (flightContents items).flatten.length ≤ hsAccSz P.build := by
    omega
  exact FlightLoop.cuts (L := certLoop P keys X args) ⟨[], 0, 0, {}, tc, []⟩
    (fun s => do
      let th ← Prog.lift (s.tc.getHash P)
      let mac ← Prog.lift (tls13FinishedMac P keys.cHs th 32 .sha256)
      pure (th, mac)) hopens hwire.isSealed
    hwire'.isSealed hcut (Nat.le_refl 0) rfl rfl
    (roomy_of_total hroom hwire.unpadded htotal)
    (roomy_of_total hroom hwire'.unpadded (hcut ▸ htotal))
    fun _ => certFinished_straight

/-- The PSK client up to the session, after a hello it accepts. -/
theorem connectPskBody_cuts (hopens : P.OpensSealed) {args : PskArgs}
    (hhello : ∀ more, (connectPskHello P n rng args).eval (Tape.handler answer)
      ⟨pre ++ more, io⟩ = some (.ok (keys, emptyHash, tc), ⟨more, io'⟩))
    (hwire : UnpaddedFlight P keys args.scratchLen items wire)
    (hwire' : UnpaddedFlight P keys args.scratchLen items' wire')
    (hcut : (flightContents items).flatten = (flightContents items').flatten)
    (hlen : (flightContents items).flatten.length < pskPlainSz) :
    SameEnd answer (fun fuel => (connectPskBody P fuel rng args).run)
      ⟨pre ++ wire, io⟩ ⟨pre ++ wire', io⟩ := by
  have hsame : ∀ more fuel, n ≤ fuel →
      (connectPskBody P fuel rng args).run.outcome answer ⟨pre ++ more, io⟩ =
        (pskFlight P args.scratchLen keys fuel ⟨[], 0, 0, false, tc⟩ >>= fun flight =>
          connectPskFinished P args keys emptyHash flight.tc).run.outcome answer
            ⟨more, io'⟩ := by
    intro more fuel hfuel
    rw [connectPskBody_eq]
    exact Prog.outcome_bind_of_ok (connectPskHello_extends hfuel _ _ _ _ (hhello more))
  exact (pskFlight_cuts hopens hwire hwire' hcut hlen).before (hsame wire) (hsame wire')

theorem sameEnd_const {α : Type} {p : Proc Ev α} {t t' : Tape σ} {a : α} (hp : p = pure a)
    (ht : t.state = t'.state) : SameEnd answer (fun _ => p) t t' := by
  subst hp
  exact ⟨(a, t.state), ⟨0, fun _ _ => rfl⟩, ⟨0, fun _ _ => by rw [ht]; rfl⟩⟩

theorem connectPskEx_cuts (hopens : P.OpensSealed) {args : PskArgs}
    (hhello : ∀ more, (connectPskHello P n rng args).eval (Tape.handler answer)
      ⟨pre ++ more, io⟩ = some (.ok (keys, emptyHash, tc), ⟨more, io'⟩))
    (hwire : UnpaddedFlight P keys args.scratchLen items wire)
    (hwire' : UnpaddedFlight P keys args.scratchLen items' wire')
    (hcut : (flightContents items).flatten = (flightContents items').flatten)
    (hlen : (flightContents items).flatten.length < pskPlainSz) :
    SameEnd answer (fun fuel => connectPskEx P fuel rng args sess)
      ⟨pre ++ wire, io⟩ ⟨pre ++ wire', io⟩ := by
  unfold connectPskEx
  by_cases hok : args.connectOk = false
  · simp only [if_pos hok]
    exact sameEnd_const rfl rfl
  · simp only [if_neg hok]
    refine (connectPskBody_cuts hopens hhello hwire hwire' hcut hlen).bind fun x => ?_
    cases x with
    | error e => trivial
    | ok y => exact establishClient_straight

variable (P) in
/-- `wn_connect_cert_impl` after the flight: our Finished, the session, and an alert
where something failed. -/
def certEnd (args : CertArgs) (keys : HsKeys) (emptyHash : Bytes) :
    Except Err (Bytes × Bytes) → Proc Ev (Ret × Session)
  | .error e => do
      sendAlert P keys 0 e
      pure (.error e, .zero)
  | .ok (th, mac) => do
      match ← (sendClientFinished P args.scratchLen keys mac).run with
      | .error e => do
          sendAlert P keys 1 e
          pure (.error e, .zero)
      | .ok () => do
          match ← establishClient P keys emptyHash th args.scratchLen with
          | (.error e, sess) => do
              sendAlert P keys 1 e
              pure (.error e, sess)
          | (.ok (), sess) => pure (.ok (), sess)

theorem certEnd_straight {args : CertArgs} {x : Except Err (Bytes × Bytes)} :
    (certEnd P args keys emptyHash x).Straight := by
  cases x with
  | error e => exact sendAlert_straight.bind fun _ => trivial
  | ok y =>
      refine Proc.Straight.bind sendClientFinished_straight fun x => ?_
      cases x with
      | error e => exact sendAlert_straight.bind fun _ => trivial
      | ok u =>
          refine establishClient_straight.bind fun z => ?_
          obtain ⟨e | u, sess⟩ := z
          · exact sendAlert_straight.bind fun _ => trivial
          · trivial

theorem connectCertImpl_cuts (hopens : P.OpensSealed) {args : CertArgs}
    (hhello : ∀ more, (connectCertHello P n rng args).eval (Tape.handler answer)
      ⟨pre ++ more, io⟩ = some (.ok (keys, emptyHash, tc), ⟨more, io'⟩))
    (hwire : UnpaddedFlight P keys (args.ioCap P.build) items wire)
    (hwire' : UnpaddedFlight P keys (args.ioCap P.build) items' wire')
    (hcut : (flightContents items).flatten = (flightContents items').flatten)
    (hlen : (flightContents items).flatten.length ≤ hsAccSz P.build) :
    SameEnd answer (fun fuel => connectCertImpl P X fuel rng args sess)
      ⟨pre ++ wire, io⟩ ⟨pre ++ wire', io⟩ := by
  unfold connectCertImpl
  by_cases hok : args.connectOk P.build = false
  · simp only [if_pos hok]
    exact sameEnd_const rfl rfl
  · simp only [if_neg hok]
    have hflight : SameEnd answer (fun fuel =>
          (connectCertFlight P X fuel args keys tc).run >>= certEnd P args keys emptyHash)
        ⟨wire, io'⟩ ⟨wire', io'⟩ :=
      (certFlight_cuts hopens hwire hwire' hcut hlen).bind fun _ => certEnd_straight
    refine hflight.before (n := n) ?_ ?_
    · intro fuel hfuel
      exact Proc.outcome_bind (connectCertHello_extends hfuel _ _ _ _ (hhello wire))
    · intro fuel hfuel
      exact Proc.outcome_bind (connectCertHello_extends hfuel _ _ _ _ (hhello wire'))

theorem connectCertBody_cuts (hopens : P.OpensSealed) {args : CertArgs}
    (hhello : ∀ more, (connectCertHello P n rng args).eval (Tape.handler answer)
      ⟨pre ++ more, io⟩ = some (.ok (keys, emptyHash, tc), ⟨more, io'⟩))
    (hwire : UnpaddedFlight P keys (args.ioCap P.build) items wire)
    (hwire' : UnpaddedFlight P keys (args.ioCap P.build) items' wire')
    (hcut : (flightContents items).flatten = (flightContents items').flatten)
    (hlen : (flightContents items).flatten.length ≤ hsAccSz P.build) :
    SameEnd answer (fun fuel => (connectCertBody P X fuel rng args).run)
      ⟨pre ++ wire, io⟩ ⟨pre ++ wire', io⟩ := by
  have hflight : SameEnd answer (fun fuel =>
        (connectCertFlight P X fuel args keys tc >>= fun (th, mac) => do
          sendClientFinished P args.scratchLen keys mac
          pure (keys, emptyHash, th)).run) ⟨wire, io'⟩ ⟨wire', io'⟩ := by
    refine (certFlight_cuts hopens hwire hwire' hcut hlen).bind fun x => ?_
    cases x with
    | error e => trivial
    | ok y => exact sendClientFinished_straight.bind fun _ => Prog.Straight.pure
  refine hflight.before (n := n) ?_ ?_
  · intro fuel hfuel
    exact Prog.outcome_bind_of_ok (connectCertHello_extends hfuel _ _ _ _ (hhello wire))
  · intro fuel hfuel
    exact Prog.outcome_bind_of_ok (connectCertHello_extends hfuel _ _ _ _ (hhello wire'))

end Cuts

/-- The flight may be cut into records in any way: after a hello the client accepts, two
wires with the same handshake bytes give the same transcript hash, the same return value and
the same session. -/
theorem flight_cuts (P : Platform) (X : X509Backend) (hopens : P.OpensSealed) {σ : Type}
    (answer : σ → Bytes → Int × σ) :
    (∀ {n : Nat} {rng : P.Rng} {args : PskArgs} {sess : Session} {pre wire wire' : Bytes}
        {keys : HsKeys} {emptyHash : Bytes} {tc : Transcript} {io io' : σ}
        {items items' : List FlightRec},
      (∀ more, (connectPskHello P n rng args).eval (Tape.handler answer) ⟨pre ++ more, io⟩ =
        some (.ok (keys, emptyHash, tc), ⟨more, io'⟩)) →
      UnpaddedFlight P keys args.scratchLen items wire →
      UnpaddedFlight P keys args.scratchLen items' wire' →
      (flightContents items).flatten = (flightContents items').flatten →
      (flightContents items).flatten.length < pskPlainSz →
      SameEnd answer (fun fuel => (connectPskBody P fuel rng args).run)
          ⟨pre ++ wire, io⟩ ⟨pre ++ wire', io⟩ ∧
        SameEnd answer (fun fuel => connectPskEx P fuel rng args sess)
          ⟨pre ++ wire, io⟩ ⟨pre ++ wire', io⟩) ∧
    (∀ {n : Nat} {rng : P.Rng} {args : CertArgs} {sess : Session} {pre wire wire' : Bytes}
        {keys : HsKeys} {emptyHash : Bytes} {tc : Transcript} {io io' : σ}
        {items items' : List FlightRec},
      (∀ more, (connectCertHello P n rng args).eval (Tape.handler answer) ⟨pre ++ more, io⟩ =
        some (.ok (keys, emptyHash, tc), ⟨more, io'⟩)) →
      UnpaddedFlight P keys (args.ioCap P.build) items wire →
      UnpaddedFlight P keys (args.ioCap P.build) items' wire' →
      (flightContents items).flatten = (flightContents items').flatten →
      (flightContents items).flatten.length ≤ hsAccSz P.build →
      SameEnd answer (fun fuel => (connectCertBody P X fuel rng args).run)
          ⟨pre ++ wire, io⟩ ⟨pre ++ wire', io⟩ ∧
        SameEnd answer (fun fuel => connectCertImpl P X fuel rng args sess)
          ⟨pre ++ wire, io⟩ ⟨pre ++ wire', io⟩) := by
  constructor
  · intro n rng args sess pre wire wire' keys emptyHash tc io io' items items' hhello hwire
      hwire' hcut hlen
    exact ⟨connectPskBody_cuts hopens hhello hwire hwire' hcut hlen,
      connectPskEx_cuts hopens hhello hwire hwire' hcut hlen⟩
  · intro n rng args sess pre wire wire' keys emptyHash tc io io' items items' hhello hwire
      hwire' hcut hlen
    exact ⟨connectCertBody_cuts hopens hhello hwire hwire' hcut hlen,
      connectCertImpl_cuts hopens hhello hwire hwire' hcut hlen⟩

namespace Sample

/-- A transport that takes every buffer whole. -/
def takes (_ : Unit) (buf : Bytes) : Int × Unit := (buf.length, ())

def notShort : Act Ev → Bool
  | .short _ => false
  | _ => true

/-- What a program returns when it reads exactly these bytes. -/
def started {γ : Type} (p : Shell (HsKeys × Bytes × γ)) (b : Bytes) :
    Option (HsKeys × Bytes × γ) :=
  match p.run.exec (Tape.handler takes) ⟨b, ()⟩ with
  | some (.ok x, ⟨[], ()⟩, tr) => if tr.all notShort then some x else none
  | _ => none

/-- It does the same when more bytes follow. -/
theorem started_eval {γ : Type} {p : Shell (HsKeys × Bytes × γ)} {b : Bytes}
    {x : HsKeys × Bytes × γ} (h : started p b = some x) (more : Bytes) :
    p.eval (Tape.handler takes) ⟨b ++ more, ()⟩ =
      some (.ok (x.1, x.2.1, x.2.2), ⟨more, ()⟩) := by
  unfold started at h
  split at h
  · rename_i y tr hexec
    by_cases hall : tr.all notShort = true
    · rw [if_pos hall] at h
      cases h
      have hshort : ∀ n, .short n ∉ tr := by
        intro n hn
        have hno : notShort (.short n) = true := List.all_eq_true.1 hall _ hn
        exact absurd hno Bool.false_ne_true
      unfold Prog.eval Proc.eval
      rw [Proc.exec_longer hexec hshort]
      rfl
    · rw [if_neg hall] at h
      cases h
  · cases h

/-- The first record of some bytes. -/
def firstRecord (b : Bytes) : Bytes := b.take (5 + ofBE (slice b 3 2))

/-- The record a handshake key seals. -/
def hsRecord (keys : HsKeys) (seq : UInt64) (content : Bytes) (pad : Nat) : Bytes :=
  (sealHs platform keys.sKey keys.sIv seq content pad).getD []

def ccsRecord : Rec := ⟨recChangeCipher, [20, 3, 3, 0, 1, 1]⟩

theorem ccsRecord_fits {cap : Nat} (hcap : 6 ≤ cap) : ccsRecord.Fits cap :=
  ⟨rfl, rfl, by decide, hcap, by decide, fun _ => ⟨rfl, rfl⟩⟩

theorem pskStarted_isSome :
    (started (connectPskHello platform 4 (7 : Nat) pskArgs) (firstRecord pskReply)).isSome =
      true := by
  decide +kernel

/-- The PSK client when it waits for the flight. -/
def pskStarted : HsKeys × Bytes × Transcript :=
  (started (connectPskHello platform 4 (7 : Nat) pskArgs) (firstRecord pskReply)).get
    pskStarted_isSome

/-- An EncryptedExtensions message. -/
def encExt : Bytes := [8, 0, 0, 2, 0, 0]

theorem hsRecord_seals {keys : HsKeys} {seq : UInt64} {content : Bytes} {pad : Nat} :
    sealHs platform keys.sKey keys.sIv seq content pad =
      some (hsRecord keys seq content pad) := rfl

theorem hsRecord_length {keys : HsKeys} {seq : UInt64} {content : Bytes} {pad : Nat} :
    (hsRecord keys seq content pad).length = content.length + 1 + pad + 21 :=
  sealHs_length hsRecord_seals

/-- The message in one record. -/
theorem oneRecord (keys : HsKeys) {cap : Nat} (hcap : 2048 ≤ cap) :
    UnpaddedFlight platform keys cap [.hs encExt 0] (hsRecord keys 0 encExt 0 ++ []) := by
  refine ⟨.hs (by decide) hsRecord_seals ?_ .nil, by decide⟩
  rw [hsRecord_length]
  exact Nat.le_trans (by decide) hcap

/-- Its header cut in two, with a ChangeCipherSpec in the middle. -/
theorem twoRecords (keys : HsKeys) {cap : Nat} (hcap : 2048 ≤ cap) :
    UnpaddedFlight platform keys cap [.hs [8, 0] 0, .ccs, .hs [0, 2, 0, 0] 0]
      (hsRecord keys 0 [8, 0] 0 ++
        (ccsRecord.bytes ++ (hsRecord keys 1 [0, 2, 0, 0] 0 ++ []))) := by
  refine ⟨.hs (by decide) hsRecord_seals ?_ (.ccs (ccsRecord_fits ?_) (by decide)
    (.hs (by decide) hsRecord_seals ?_ .nil)), by decide⟩
  · rw [hsRecord_length]
    exact Nat.le_trans (by decide) hcap
  · exact Nat.le_trans (by decide) hcap
  · rw [hsRecord_length]
    exact Nat.le_trans (by decide) hcap

/-- Everything a certificate server sends to `certClient`. -/
def certReply : Bytes :=
  sentOn (acceptCertEx platform 4 (100 : Nat) ⟨[1], [2], 0x0807, 4096, true⟩ .zero)
    (sentOn certClient [])

theorem certStarted_isSome :
    (started (connectCertHello platform 4 (7 : Nat) certArgs)
      (firstRecord certReply)).isSome = true := by
  decide +kernel

/-- The certificate client when it waits for the flight. -/
def certStarted : HsKeys × Bytes × Transcript :=
  (started (connectCertHello platform 4 (7 : Nat) certArgs) (firstRecord certReply)).get
    certStarted_isSome

theorem pskStarted_eval (more : Bytes) :
    (connectPskHello platform 4 (7 : Nat) pskArgs).eval (Tape.handler takes)
        ⟨firstRecord pskReply ++ more, ()⟩ =
      some (.ok (pskStarted.1, pskStarted.2.1, pskStarted.2.2), ⟨more, ()⟩) :=
  started_eval (x := pskStarted) (Option.some_get pskStarted_isSome).symm more

theorem certStarted_eval (more : Bytes) :
    (connectCertHello platform 4 (7 : Nat) certArgs).eval (Tape.handler takes)
        ⟨firstRecord certReply ++ more, ()⟩ =
      some (.ok (certStarted.1, certStarted.2.1, certStarted.2.2), ⟨more, ()⟩) :=
  started_eval (x := certStarted) (Option.some_get certStarted_isSome).symm more

/-- A message in one record and in two. -/
def wires (keys : HsKeys) : Bytes × Bytes :=
  (hsRecord keys 0 encExt 0 ++ [], hsRecord keys 0 [8, 0] 0 ++
    (ccsRecord.bytes ++ (hsRecord keys 1 [0, 2, 0, 0] 0 ++ [])))

end Sample

open Sample in
-- the type would be evaluated otherwise
seal Sample.pskStarted Sample.certStarted Sample.pskReply Sample.certReply in
theorem flight_cuts_sample :
    (SameEnd takes (fun fuel => (connectPskBody platform fuel (7 : Nat) pskArgs).run)
        ⟨firstRecord pskReply ++ (wires pskStarted.1).1, ()⟩
        ⟨firstRecord pskReply ++ (wires pskStarted.1).2, ()⟩ ∧
      SameEnd takes (fun fuel => connectPskEx platform fuel (7 : Nat) pskArgs .zero)
        ⟨firstRecord pskReply ++ (wires pskStarted.1).1, ()⟩
        ⟨firstRecord pskReply ++ (wires pskStarted.1).2, ()⟩) ∧
    SameEnd takes (fun fuel => (connectCertBody platform noTrust fuel (7 : Nat) certArgs).run)
        ⟨firstRecord certReply ++ (wires certStarted.1).1, ()⟩
        ⟨firstRecord certReply ++ (wires certStarted.1).2, ()⟩ ∧
      SameEnd takes (fun fuel => connectCertImpl platform noTrust fuel (7 : Nat) certArgs .zero)
        ⟨firstRecord certReply ++ (wires certStarted.1).1, ()⟩
        ⟨firstRecord certReply ++ (wires certStarted.1).2, ()⟩ :=
  ⟨(flight_cuts platform noTrust opensSealed takes).1
      pskStarted_eval
      (oneRecord _ (by decide)) (twoRecords _ (by decide)) (by decide) (by decide),
    (flight_cuts platform noTrust opensSealed takes).2
      certStarted_eval
      (oneRecord _ (by decide)) (twoRecords _ (by decide)) (by decide) (by decide)⟩

end WolfNano
