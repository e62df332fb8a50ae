/-
Two sessions that mirror each other, in conversation.  Each end makes its calls one after the
other, and the operations of the two interleave in any way; the channel is a queue of bytes in
either direction.
-/
import WolfNano.CallCourses
import WolfNano.Interleaving

namespace WolfNano

open Duplex

/-! ### The system -/

/-- What an end is at: nothing, or a call and what is left of it. -/
inductive Doing where
  | idle (s : Session)
  | sending (data : Bytes) (p : Proc Ev (Ret × Session))
  | receiving (p : Proc Ev RecvOut)
  | closing (p : Proc Ev (Ret × Session))

/-- One end. -/
structure Party where
  doing : Doing
  /-- the bytes on their way to it -/
  input : Bytes
  /-- the data of the calls of `wn_Send` that succeeded -/
  accepted : List Bytes
  /-- what the calls of `wn_Recv` returned -/
  results : List (Ret × Option Bytes)
  /-- `wn_Close` was called -/
  shut : Bool

/-- A call an end may make.  What is sent has at most `limit` bytes, and the buffer of a receive
holds as many. -/
inductive Asks where
  | send (data : Bytes)
  | recv (fuel : Nat) (out : Bytes) (outCap outLen : Nat)
  | close

/-- The data that was sent when `wn_Send` returns this. -/
def sentBy (data : Bytes) : Ret → List Bytes
  | .ok () => [data]
  | .error _ => []

/-- A call returns, or goes on by one operation; with the bytes it sent. -/
def carryOn {α β : Type} (p : Proc Ev α) (input : Bytes) (finish : α → β)
    (go : Proc Ev α → Bytes → β) :
    Option (β × Bytes) :=
  match p with
  | .done a => some (finish a, [])
  | p => (p.step input).map fun o => (go o.next o.input, o.out.getD [])

namespace Party

/-- The data that was received. -/
def received (x : Party) : List Bytes := x.results.filterMap Prod.snd

/-- The data of the call of `wn_Send` in progress. -/
def pending (x : Party) : List Bytes :=
  match x.doing with
  | .sending data _ => [data]
  | _ => []

variable (P : Platform) (limit : Nat)

/-- An idle end makes a call. -/
def ask (x : Party) (a : Asks) : Option Party :=
  match x.doing, a with
  | .idle s, .send data =>
      if data.length ≤ limit then
        some { x with doing := .sending data (wnSend P s (some data)) }
      else
        none
  | .idle s, .recv fuel out outCap outLen =>
      if limit ≤ outCap then
        some { x with doing := .receiving (wnRecv P (fuel + 1) s (some out) outCap (some outLen)) }
      else
        none
  | .idle s, .close => some { x with doing := .closing (wnClose P s), shut := true }
  | _, _ => none

/-- The call in progress goes on by one operation, or returns; with the bytes it sent. -/
def advance (x : Party) : Option (Party × Bytes) :=
  match x.doing with
  | .idle _ => none
  | .sending data p =>
      carryOn p x.input
        (fun res => { x with doing := .idle res.2, accepted := x.accepted ++ sentBy data res.1 })
        fun p' b => { x with doing := .sending data p', input := b }
  | .receiving p =>
      carryOn p x.input
        (fun res => { x with doing := .idle res.s, results := x.results ++ [(res.ret, res.data)] })
        fun p' b => { x with doing := .receiving p', input := b }
  | .closing p =>
      carryOn p x.input (fun res => { x with doing := .idle res.2 })
        fun p' b => { x with doing := .closing p', input := b }

/-- A move of an end: a call, or the next operation of the call in progress. -/
def act (x : Party) : Option Asks → Option (Party × Bytes)
  | some a => (x.ask P limit a).map fun y => (y, [])
  | none => x.advance

/-- More bytes arrive. -/
def gets (x : Party) (out : Bytes) : Party := { x with input := x.input ++ out }

def start (s : Session) : Party := ⟨.idle s, [], [], [], false⟩

end Party

/-- Both ends. -/
structure Conversation where
  left : Party
  right : Party

namespace Conversation

variable (P : Platform) (limit : Nat)

/-- A move of the left end or of the right one. -/
def move (c : Conversation) (atLeft : Bool) (m : Option Asks) : Option Conversation :=
  if atLeft then
    (c.left.act P limit m).map fun x => ⟨x.1, c.right.gets x.2⟩
  else
    (c.right.act P limit m).map fun x => ⟨c.left.gets x.2, x.1⟩

/-- Any moves, one after the other. -/
def moves (c : Conversation) : List (Bool × Option Asks) → Option Conversation
  | [] => some c
  | m :: ms => (c.move P limit m.1 m.2).bind fun d => d.moves ms

end Conversation

/-- What `y` has heard of `x`: the first of what `x` sent, in order and whole; no receive fails but
for the end of the session, and the peer's end is reported behind everything it sent. -/
structure Party.Heard (x y : Party) : Prop where
  order : y.received <+: x.accepted ++ x.pending
  sound : ∀ res ∈ y.results, (∃ data, res = (.ok (), some data)) ∨ res = (.error .closed, none) ∨
    res = (.error .badState, none) ∧ y.shut = true
  whole : (.error .closed, none) ∈ y.results → x.shut = true ∧ y.received = x.accepted

/-- `x` cannot go on: it is between two calls, or in a receive when everything that `y` sent was
received. -/
def Party.Waits (x y : Party) : Prop :=
  (∃ s, x.doing = .idle s) ∨ (∃ p, x.doing = .receiving p) ∧ y.shut = false ∧
    x.received = y.accepted

/-! ### What a move does -/

section Carry

variable {α β : Type} {p p' : Proc Ev α} {input b out : Bytes} {finish : α → β}
  {go : Proc Ev α → Bytes → β} {y : β}

theorem carryOn_eq_some (h : carryOn p input finish go = some (y, out)) :
    (∃ a, p = .done a ∧ y = finish a ∧ out = []) ∨
      ∃ p' b, p.Moves input out p' b ∧ y = go p' b := by
  unfold carryOn at h
  split at h
  · cases h
    exact .inl ⟨_, rfl, rfl, rfl⟩
  · obtain ⟨o, hstep, heq⟩ := Option.map_eq_some_iff.1 h
    cases heq
    exact .inr ⟨_, _, .of_step hstep, rfl⟩

theorem carryOn_moves (h : p.Moves input out p' b) : carryOn p input finish go ≠ none := by
  obtain ⟨o, hstep, -⟩ := h.step
  unfold carryOn
  split
  · exact Option.some_ne_none _
  · rw [hstep]
    exact Option.some_ne_none _

/-- A program on its way to a result can go on. -/
theorem carryOn_of_goes {a : α} {c : Bytes} (more : Bytes) (h : p.Goes input out (.done a) c) :
    carryOn p (input ++ more) finish go ≠ none := by
  rcases h.ready with ⟨rfl, -⟩ | ⟨_, _, _, hmove⟩
  · exact Option.some_ne_none _
  · exact carryOn_moves (hmove.later more)

end Carry

/-! ### The invariant -/

/-- What a record of a session holds. -/
inductive Entry where
  | data (b : Bytes)
  | close
  deriving DecidableEq

namespace Entry

def contentType : Entry → UInt8
  | data _ => recAppdata
  | close => recAlert

def content : Entry → Bytes
  | data b => b
  | close => [1, 0]

def data? : Entry → Option Bytes
  | data b => some b
  | close => none

end Entry

/-- Records that were sealed one after the other; `isOpen` is `false` when the last of them is a
close_notify, and none before it is. -/
inductive SealedRun (P : Platform) (limit : Nat) (t : TrafficKeys) :
    UInt64 → List (Entry × Bytes) → UInt64 → Bool → Prop where
  | nil (n : UInt64) : SealedRun P limit t n [] n true
  | close {n : UInt64} {rec : Bytes}
      (hseal : sealRecord P t.key t.iv n recAlert [1, 0] = some rec) :
      SealedRun P limit t n [(.close, rec)] (n + 1) false
  | data {n m : UInt64} {b rec : Bytes} {rest : List (Entry × Bytes)} {isOpen : Bool}
      (hlimit : b.length ≤ limit) (hmax : b.length ≤ maxPlaintext)
      (hseal : sealRecord P t.key t.iv n recAppdata b = some rec)
      (hrest : SealedRun P limit t (n + 1) rest m isOpen) :
      SealedRun P limit t n ((.data b, rec) :: rest) m isOpen

section Runs

variable {P : Platform} {limit : Nat} {t : TrafficKeys} {n m : UInt64} {log : List (Entry × Bytes)}
  {b rec : Bytes}

theorem SealedRun.more (h : SealedRun P limit t n log m true) (hlimit : b.length ≤ limit)
    (hmax : b.length ≤ maxPlaintext) (hseal : sealRecord P t.key t.iv m recAppdata b = some rec) :
    SealedRun P limit t n (log ++ [(.data b, rec)]) (m + 1) true := by
  generalize hopen : true = isOpen at h
  induction h with
  | nil n => exact .data hlimit hmax hseal (.nil _)
  | close => cases hopen
  | data hlimit' hmax' hseal' _ ih => exact .data hlimit' hmax' hseal' (ih hseal hopen)

theorem SealedRun.last (h : SealedRun P limit t n log m true)
    (hseal : sealRecord P t.key t.iv m recAlert [1, 0] = some rec) :
    SealedRun P limit t n (log ++ [(.close, rec)]) (m + 1) false := by
  generalize hopen : true = isOpen at h
  induction h with
  | nil n => exact .close hseal
  | close => cases hopen
  | data hlimit hmax hseal' _ ih => exact .data hlimit hmax hseal' (ih hseal hopen)

end Runs

/-- How far an end has got with its session. -/
inductive Phase where
  | live
  /-- the peer's close_notify was read -/
  | told
  /-- `wn_Close` was called -/
  | gone
  deriving DecidableEq

theorem Phase.gone_ne_live : Phase.gone ≠ .live := by decide

theorem Phase.gone_ne_told : Phase.gone ≠ .told := by decide

/-- Where an end stands: its stage, its counters, what the call in progress has yet to send and to
read, the data the call will turn out to have sent or received, and whether the peer's close_notify
was read. -/
structure Standing where
  stage : Phase
  w : UInt64
  r : UInt64
  out : Bytes
  left : Bytes
  giving : List Bytes
  taking : List Bytes
  heard : Bool

section Invariant

variable (P : Platform) (limit : Nat) (our peer : TrafficKeys)

/-- The session of an end at a stage. -/
def Standing.Holds (g : Standing) (s : Session) : Prop :=
  match g.stage with
  | .live => s.Live limit our peer g.w g.r
  | .told => s.closed = true
  | .gone => s = .zero

/-- What a receive returns. -/
def Standing.Returns (g : Standing) (shut : Bool) (res : Ret × Option Bytes) : Prop :=
  (∃ data, res = (.ok (), some data) ∧ g.taking = [data]) ∨
    (res = (.error .closed, none) ∧ g.taking = [] ∧ g.heard = true) ∨
    (res = (.error .badState, none) ∧ g.taking = [] ∧ shut = true)

/-- What is going on at an end. -/
inductive Standing.Does (g : Standing) (shut : Bool) : Doing → Prop where
  | idle {s : Session} (hs : g.Holds limit our peer s) (hout : g.out = []) (hleft : g.left = [])
      (hgiving : g.giving = []) (htaking : g.taking = []) : Does g shut (.idle s)
  | sending {data : Bytes} {p : Proc Ev (Ret × Session)} {ret : Ret} {s : Session}
      (hway : p.Goes [] g.out (.done (ret, s)) []) (hs : g.Holds limit our peer s)
      (hleft : g.left = []) (hgiving : g.giving = sentBy data ret) (htaking : g.taking = []) :
      Does g shut (.sending data p)
  | asking {s : Session} {fuel outCap outLen : Nat} {out : Bytes}
      (hs : s.Live limit our peer g.w g.r) (hlive : g.stage = .live) (hcap : limit ≤ outCap)
      (hout : g.out = []) (hleft : g.left = []) (hgiving : g.giving = [])
      (htaking : g.taking = []) :
      Does g shut (.receiving (wnRecv P (fuel + 1) s (some out) outCap (some outLen)))
  | receiving {p : Proc Ev RecvOut} {res : RecvOut} (hway : p.Goes g.left [] (.done res) [])
      (hs : g.Holds limit our peer res.s) (hout : g.out = []) (hgiving : g.giving = [])
      (hres : g.Returns shut (res.ret, res.data)) : Does g shut (.receiving p)
  | closing {p : Proc Ev (Ret × Session)} {ret : Ret} {s : Session}
      (hway : p.Goes [] g.out (.done (ret, s)) []) (hs : g.Holds limit our peer s)
      (hleft : g.left = []) (hgiving : g.giving = []) (htaking : g.taking = []) :
      Does g shut (.closing p)

/-- One end. -/
structure Party.Stands (x : Party) (g : Standing) : Prop where
  doing : g.Does P limit our peer x.shut x.doing
  shut : x.shut = true ↔ g.stage = .gone
  told : g.stage = .told → g.heard = true
  mute : g.stage ≠ .live → g.giving = []
  hush : g.heard = true → g.taking = []
  sound : ∀ res ∈ x.results, (∃ data, res = (.ok (), some data)) ∨
    (res = (.error .closed, none) ∧ g.heard = true) ∨
    (res = (.error .badState, none) ∧ x.shut = true)

/-- One direction: `unread` are the records of `x` that `y` has not begun to read, sealed with
`t`. -/
structure Course (t : TrafficKeys) (x y : Party) (gx gy : Standing)
    (unread : List (Entry × Bytes)) :
    Prop where
  queue : y.input ++ gx.out = gy.left ++ (unread.map Prod.snd).flatten
  data : y.received ++ gy.taking ++ unread.filterMap (fun e => e.1.data?) = x.accepted ++ gx.giving
  sealings : gy.stage = .live → ∃ m isOpen, SealedRun P limit t gy.r unread m isOpen ∧
    (gx.stage = .live → isOpen = true ∧ m = gx.w) ∧ (gx.stage ≠ .live → isOpen = false)
  heard : gy.heard = true → unread = [] ∧ gx.stage = .gone

end Invariant

section Keeps

variable {P : Platform} {limit : Nat} {our peer : TrafficKeys} {x x' y : Party} {gx gy : Standing}
  {u v : List (Entry × Bytes)} {s : Session} {out : Bytes}

theorem Party.gets_nil (x : Party) : x.gets [] = x := by
  rw [gets, List.append_nil]

/-- A session that has ended refuses its calls. -/
theorem Standing.Holds.check_error (hs : gx.Holds limit our peer s) (hnot : gx.stage ≠ .live) :
    (gx.stage = .told ∧ s.check = .error .closed) ∨
    (gx.stage = .gone ∧ s.check = .error .badState) := by
  unfold Standing.Holds at hs
  cases hstage : gx.stage with
  | live => exact absurd hstage hnot
  | told =>
      rw [hstage] at hs
      refine .inl ⟨rfl, ?_⟩
      unfold Session.check
      rw [if_pos hs]
  | gone =>
      rw [hstage] at hs
      obtain rfl : s = .zero := hs
      exact .inr ⟨rfl, rfl⟩

theorem Standing.Holds.live (hs : gx.Holds limit our peer s) (hlive : gx.stage = .live) :
    s.Live limit our peer gx.w gx.r := by
  unfold Standing.Holds at hs
  rw [hlive] at hs
  exact hs

theorem Standing.holds_live (hlive : gx.stage = .live) (hs : s.Live limit our peer gx.w gx.r) :
    gx.Holds limit our peer s := by
  unfold Standing.Holds
  rw [hlive]
  exact hs

theorem Standing.holds_told (htold : gx.stage = .told) (hs : s.closed = true) :
    gx.Holds limit our peer s := by
  unfold Standing.Holds
  rw [htold]
  exact hs

theorem Standing.holds_gone (hgone : gx.stage = .gone) : gx.Holds limit our peer .zero := by
  unfold Standing.Holds
  rw [hgone]

/-! ### Calls -/

theorem Party.Stands.ask_send (hP : P.RecordOk) (hour : our.Proper)
    (h : x.Stands P limit our peer gx) (fwd : Course P limit our x y gx gy u)
    (bwd : Course P limit peer y x gy gx v) (hidle : x.doing = .idle s) {data : Bytes}
    (hdata : data.length ≤ limit) : ∃ gx' u',
      { x with doing := .sending data (wnSend P s (some data)) }.Stands P limit our peer gx' ∧
      Course P limit our { x with doing := .sending data (wnSend P s (some data)) } y gx' gy u' ∧
      Course P limit peer y { x with doing := .sending data (wnSend P s (some data)) }
        gy gx' v := by
  have hdoing := h.doing
  rw [hidle] at hdoing
  cases hdoing with
  | idle hs hout hleft hgiving htaking =>
      by_cases hlive : gx.stage = .live
      · have hsession := hs.live hlive
        rcases wnSend_course hP hour hsession data with hrefused | ⟨rec, hmax, hseal, hgoes⟩
        · have hway : (wnSend P s (some data)).Goes [] gx.out (.done (.error .invalidArg, s))
              [] := by
            rw [hrefused, hout]
            exact .start _ _
          exact ⟨gx, u, { h with doing := .sending hway hs hleft hgiving htaking }, { fwd with },
            { bwd with }⟩
        · have hqueue := fwd.queue
          have hsent := fwd.data
          rw [hout, List.append_nil] at hqueue
          rw [hgiving, List.append_nil] at hsent
          refine ⟨{ gx with w := gx.w + 1, out := rec, giving := [data] }, u ++ [(.data data, rec)],
            { h with doing := ?_, mute := fun hnot => absurd hlive hnot }, ⟨?_, ?_, ?_, ?_⟩,
            { bwd with }⟩
          · exact .sending hgoes (Standing.holds_live hlive hsession.sent) hleft rfl htaking
          · rw [List.map_append, List.flatten_append, ← List.append_assoc, ← hqueue]
            simp
          · rw [List.filterMap_append, ← List.append_assoc, hsent]
            rfl
          · intro hreads
            obtain ⟨m, isOpen, hrun, hopen, -⟩ := fwd.sealings hreads
            obtain ⟨rfl, rfl⟩ := hopen hlive
            exact ⟨_, true, hrun.more hdata hmax hseal, fun _ => ⟨rfl, rfl⟩,
              fun hnot => absurd hlive hnot⟩
          · intro hheard
            exact absurd ((fwd.heard hheard).2.symm.trans hlive) (by decide)
      · have hended : ∃ e, s.check = .error e := by
          rcases hs.check_error hlive with ⟨-, he⟩ | ⟨-, he⟩
          · exact ⟨_, he⟩
          · exact ⟨_, he⟩
        obtain ⟨e, he⟩ := hended
        have hway : (wnSend P s (some data)).Goes [] gx.out (.done (.error e, s)) [] := by
          rw [(@ended_calls P s 0 0 0 [] e he data).1, hout]
          exact .start _ _
        exact ⟨gx, u, { h with doing := .sending hway hs hleft hgiving htaking }, { fwd with },
          { bwd with }⟩

theorem Party.Stands.ask_recv (h : x.Stands P limit our peer gx) (hidle : x.doing = .idle s)
    {fuel outCap outLen : Nat} {buf : Bytes} (hcap : limit ≤ outCap) :
    { x with doing := .receiving (wnRecv P (fuel + 1) s (some buf) outCap (some outLen))
      }.Stands P limit
      our peer gx := by
  have hdoing := h.doing
  rw [hidle] at hdoing
  refine { h with doing := ?_ }
  cases hdoing with
  | idle hs hout hleft hgiving htaking =>
      by_cases hlive : gx.stage = .live
      · exact .asking (hs.live hlive) hlive hcap hout hleft hgiving htaking
      · have hreturn : ∀ e, s.check = .error e →
            wnRecv P (fuel + 1) s (some buf) outCap (some outLen) =
            .done ⟨.error e, some buf, some outLen, s⟩ := fun e he =>
          (@ended_calls P s (fuel + 1) outCap outLen buf e he []).2
        have hway : ∀ res : RecvOut, (Proc.done res : Proc Ev RecvOut).Goes gx.left []
            (.done res) [] := by
          intro res
          rw [hleft]
          exact .start _ _
        rcases hs.check_error hlive with ⟨hstage, he⟩ | ⟨hstage, he⟩
        · rw [hreturn _ he]
          exact .receiving (hway _) hs hout hgiving (.inr (.inl ⟨rfl, htaking, h.told hstage⟩))
        · rw [hreturn _ he]
          exact .receiving (hway _) hs hout hgiving (.inr (.inr ⟨rfl, htaking, h.shut.2 hstage⟩))

theorem Party.Stands.ask_close (hP : P.RecordOk) (hour : our.Proper)
    (h : x.Stands P limit our peer gx) (fwd : Course P limit our x y gx gy u)
    (bwd : Course P limit peer y x gy gx v) (hidle : x.doing = .idle s) : ∃ gx' u',
      { x with doing := .closing (wnClose P s), shut := true }.Stands P limit our peer gx' ∧
      Course P limit our { x with doing := .closing (wnClose P s), shut := true } y gx' gy u' ∧
      Course P limit peer y { x with doing := .closing (wnClose P s), shut := true } gy gx' v := by
  have hdoing := h.doing
  rw [hidle] at hdoing
  have hsound : ∀ res ∈ x.results, (∃ data, res = (.ok (), some data)) ∨
      (res = (.error .closed, none) ∧ gx.heard = true) ∨
      (res = (.error .badState, none) ∧ true = true) := by
    intro res hres
    rcases h.sound res hres with hok | hclosed | ⟨hbad, -⟩
    · exact .inl hok
    · exact .inr (.inl hclosed)
    · exact .inr (.inr ⟨hbad, rfl⟩)
  have hbwd : ∀ out w, Course P limit peer y
      { x with doing := .closing (wnClose P s), shut := true } gy
        { gx with stage := .gone, w := w, out := out } v := fun out w =>
    ⟨bwd.queue, bwd.data, fun hgone => absurd hgone Phase.gone_ne_live, bwd.heard⟩
  cases hdoing with
  | idle hs hout hleft hgiving htaking =>
      have hqueue := fwd.queue
      have hsent := fwd.data
      rw [hout, List.append_nil] at hqueue
      by_cases hlive : gx.stage = .live
      · obtain ⟨rec, hseal, hgoes⟩ := wnClose_course hP hour (hs.live hlive)
        refine ⟨{ gx with stage := .gone, w := gx.w + 1, out := rec }, u ++ [(.close, rec)],
          ⟨?_, ⟨fun _ => rfl, fun _ => rfl⟩, fun htold => absurd htold Phase.gone_ne_told,
          fun _ => hgiving,
            h.hush, hsound⟩, ⟨?_, ?_, ?_, ?_⟩, hbwd _ _⟩
        · exact .closing hgoes (Standing.holds_gone rfl) hleft hgiving htaking
        · rw [List.map_append, List.flatten_append, ← List.append_assoc, ← hqueue]
          simp
        · rw [List.filterMap_append, ← List.append_assoc, hsent]
          exact List.append_nil _
        · intro hreads
          obtain ⟨m, isOpen, hrun, hopen, -⟩ := fwd.sealings hreads
          obtain ⟨rfl, rfl⟩ := hopen hlive
          exact ⟨_, false, hrun.last hseal, fun hgone => absurd hgone Phase.gone_ne_live,
            fun _ => rfl⟩
        · intro hheard
          exact absurd ((fwd.heard hheard).2.symm.trans hlive) (by decide)
      · have hended : ∃ e, s.check = .error e := by
          rcases hs.check_error hlive with ⟨-, he⟩ | ⟨-, he⟩
          · exact ⟨_, he⟩
          · exact ⟨_, he⟩
        obtain ⟨e, he⟩ := hended
        have hway : (wnClose P s).Goes [] [] (.done (.ok (), .zero)) [] := by
          rw [wnClose_ended he]
          exact .start _ _
        refine ⟨{ gx with stage := .gone, out := [] }, u,
          ⟨?_, ⟨fun _ => rfl, fun _ => rfl⟩, fun htold => absurd htold Phase.gone_ne_told,
          fun _ => hgiving,
            h.hush, hsound⟩, ⟨?_, hsent, ?_, ?_⟩, hbwd _ _⟩
        · exact .closing hway (Standing.holds_gone rfl) hleft hgiving htaking
        · rw [List.append_nil]
          exact hqueue
        · intro hreads
          obtain ⟨m, isOpen, hrun, -, hshut⟩ := fwd.sealings hreads
          exact ⟨m, isOpen, hrun, fun hgone => absurd hgone Phase.gone_ne_live,
            fun _ => hshut hlive⟩
        · intro hheard
          exact ⟨(fwd.heard hheard).1, rfl⟩

/-! ### Operations -/

/-- What a step of the other end's sending leaves of the way to us. -/
theorem Course.sends (fwd : Course P limit our x y gx gy u) {out out' : Bytes}
    (hout : gx.out = out ++ out') {doing : Doing} :
    Course P limit our { x with doing := doing } (y.gets out) { gx with out := out' } gy u := by
  refine ⟨?_, fwd.data, fwd.sealings, fwd.heard⟩
  have hqueue := fwd.queue
  rw [hout, ← List.append_assoc] at hqueue
  exact hqueue

/-- A call that only sends goes on or returns. -/
theorem Party.Stands.send_on (h : x.Stands P limit our peer gx)
    (fwd : Course P limit our x y gx gy u) (bwd : Course P limit peer y x gy gx v)
    {data b : Bytes} {p p' : Proc Ev (Ret × Session)} (hdoing : x.doing = .sending data p)
    (hmove : p.Moves x.input out p' b) : ∃ gx',
      { x with doing := .sending data p', input := b }.Stands P limit our peer gx' ∧
      Course P limit our { x with doing := .sending data p', input := b } (y.gets out) gx' gy u ∧
      Course P limit peer (y.gets out) { x with doing := .sending data p', input := b }
        gy gx' v := by
  have hdoes := h.doing
  rw [hdoing] at hdoes
  cases hdoes with
  | sending hway hs hleft hgiving htaking =>
      obtain ⟨out', rfl, hout, hrest⟩ := hway.next_send hmove
      exact ⟨{ gx with out := out' }, { h with doing := .sending hrest hs hleft hgiving htaking },
        { fwd.sends hout with }, { bwd with }⟩

theorem Party.Stands.sent (h : x.Stands P limit our peer gx)
    (fwd : Course P limit our x y gx gy u) (bwd : Course P limit peer y x gy gx v)
    {data : Bytes} {res : Ret × Session} (hdoing : x.doing = .sending data (.done res)) : ∃ gx',
      { x with doing := .idle res.2, accepted := x.accepted ++ sentBy data res.1 }.Stands P
        limit our peer gx' ∧
      Course P limit our
        { x with doing := .idle res.2, accepted := x.accepted ++ sentBy data res.1 } y gx' gy u ∧
      Course P limit peer y
        { x with doing := .idle res.2, accepted := x.accepted ++ sentBy data res.1 }
        gy gx' v := by
  have hdoes := h.doing
  rw [hdoing] at hdoes
  cases hdoes with
  | sending hway hs hleft hgiving htaking =>
      obtain ⟨rfl, -, hout⟩ := hway.of_done
      refine ⟨{ gx with giving := [] },
        { h with doing := .idle hs hout hleft rfl htaking, mute := fun _ => rfl },
        ⟨fwd.queue, ?_, fwd.sealings, fwd.heard⟩, { bwd with }⟩
      have hsent := fwd.data
      rw [hgiving] at hsent
      rw [hsent]
      exact (List.append_nil _).symm

theorem Party.Stands.close_on (h : x.Stands P limit our peer gx)
    (fwd : Course P limit our x y gx gy u) (bwd : Course P limit peer y x gy gx v)
    {b : Bytes} {p p' : Proc Ev (Ret × Session)} (hdoing : x.doing = .closing p)
    (hmove : p.Moves x.input out p' b) : ∃ gx',
      { x with doing := .closing p', input := b }.Stands P limit our peer gx' ∧
      Course P limit our { x with doing := .closing p', input := b } (y.gets out) gx' gy u ∧
      Course P limit peer (y.gets out) { x with doing := .closing p', input := b } gy gx' v := by
  have hdoes := h.doing
  rw [hdoing] at hdoes
  cases hdoes with
  | closing hway hs hleft hgiving htaking =>
      obtain ⟨out', rfl, hout, hrest⟩ := hway.next_send hmove
      exact ⟨{ gx with out := out' }, { h with doing := .closing hrest hs hleft hgiving htaking },
        { fwd.sends hout with }, { bwd with }⟩

theorem Party.Stands.closed (h : x.Stands P limit our peer gx) {res : Ret × Session}
    (hdoing : x.doing = .closing (.done res)) :
    { x with doing := .idle res.2 }.Stands P limit our peer gx := by
  have hdoes := h.doing
  rw [hdoing] at hdoes
  cases hdoes with
  | closing hway hs hleft hgiving htaking =>
      obtain ⟨rfl, -, hout⟩ := hway.of_done
      exact { h with doing := .idle hs hout hleft hgiving htaking }

/-- A record is sealed so that it is read and opened at the other end. -/
theorem sealed_reads (hopens : P.OpensSealed) (hs : s.Live limit our peer gx.w gx.r)
    {contentType : UInt8} {content rec : Bytes} (htype : contentType ≠ 0)
    (hlimit : content.length ≤ limit) (hmax : content.length ≤ maxPlaintext)
    (hseal : sealRecord P peer.key peer.iv gx.r contentType content = some rec) :
    openRecord P peer.key peer.iv gx.r rec = .ok (contentType, content) ∧
      (⟨recAppdata, rec⟩ : Rec).Fits s.scratchLen ∧ 22 ≤ rec.length := by
  have hlen := sealRecord_length hseal
  have hscratch := hs.scratch
  exact ⟨openRecord_sealRecord hopens htype hseal, sealRecord_fits hseal hmax (by omega), by omega⟩

/-- A receive that waits reads the first bytes of the next record. -/
theorem Party.Stands.first_read (hopens : P.OpensSealed) (hlimit : 2 ≤ limit)
    (h : x.Stands P limit our peer gx) (hy : y.Stands P limit peer our gy)
    (fwd : Course P limit our x y gx gy u) (bwd : Course P limit peer y x gy gx v)
    {fuel outCap outLen : Nat} {buf b : Bytes} {p' : Proc Ev RecvOut}
    (hs : s.Live limit our peer gx.w gx.r) (hlive : gx.stage = .live) (hcap : limit ≤ outCap)
    (hout : gx.out = []) (hleft : gx.left = []) (hgiving : gx.giving = [])
    (htaking : gx.taking = []) (hmove :
      (wnRecv P (fuel + 1) s (some buf) outCap (some outLen)).Moves x.input out p' b) : ∃ gx' v',
      out = [] ∧ { x with doing := .receiving p', input := b }.Stands P limit our peer gx' ∧
      Course P limit our { x with doing := .receiving p', input := b } y gx' gy u ∧
      Course P limit peer y { x with doing := .receiving p', input := b } gy gx' v' := by
  have hqueue := bwd.queue
  have hdata := bwd.data
  rw [hleft, List.nil_append] at hqueue
  rw [htaking, List.append_nil] at hdata
  obtain ⟨m, isOpen, hrun, hopen, hclosed⟩ := bwd.sealings hlive
  cases hrun with
  | nil =>
      obtain ⟨k, hk⟩ := @wnRecv_asks P s limit fuel outCap outLen our peer gx.w gx.r buf hs
      have hnone : x.input = [] := (List.append_eq_nil_iff.1 hqueue).1
      rw [hk, hnone] at hmove
      cases hmove with
      | recv _ _ _ hn => exact absurd hn (by decide)
  | @close _ rec hseal =>
      have hshort : ([1, 0] : Bytes).length ≤ limit := hlimit
      obtain ⟨hrec, hfits, hlen⟩ := sealed_reads hopens hs (show recAlert ≠ 0 by decide) hshort
        (by decide) hseal
      obtain ⟨res, hret, hnone, hended, hway⟩ :=
        @wnRecv_close P s limit fuel outCap outLen our peer gx.w gx.r buf rec hs hrec hfits hlen
      obtain ⟨b', rfl, hinput, hrest⟩ := hway.next_read hqueue hmove
      have hgone : gy.stage = .gone := by
        cases hstage : gy.stage with
        | live => exact absurd (hopen hstage).1 Bool.false_ne_true
        | told => exact absurd ((fwd.heard (hy.told hstage)).2.symm.trans hlive) Phase.gone_ne_live
        | gone => rfl
      refine ⟨{ gx with stage := .told, left := b', heard := true }, [], rfl,
        ⟨?_, ⟨fun hshut => ?_, fun hgone => ?_⟩, fun _ => rfl, fun _ => hgiving,
        fun _ => htaking, ?_⟩, ⟨fwd.queue, fwd.data, ?_, ?_⟩,
        ⟨hinput, ?_, fun htold => ?_, fun _ => ⟨rfl, hgone⟩⟩⟩
      · refine .receiving hrest (Standing.holds_told rfl hended) hout hgiving
          (.inr (.inl ⟨?_, htaking, rfl⟩))
        rw [hret, hnone]
      · exact absurd ((h.shut.1 hshut).symm.trans hlive) Phase.gone_ne_live
      · cases hgone
      · intro res hres
        rcases h.sound res hres with hok | ⟨hclosed, -⟩ | hbad
        · exact .inl hok
        · exact .inr (.inl ⟨hclosed, rfl⟩)
        · exact .inr (.inr hbad)
      · intro hreads
        exact absurd (hgone.symm.trans hreads) Phase.gone_ne_live
      · intro hheard
        exact absurd ((fwd.heard hheard).2.symm.trans hlive) Phase.gone_ne_live
      · rw [← hdata]
        simp [Entry.data?, htaking, Party.received]
      · cases htold
  | @data _ _ content rec rest _ hsmall hmax hseal hmore =>
      obtain ⟨hrec, hfits, hlen⟩ :=
        sealed_reads hopens hs (show recAppdata ≠ 0 by decide) hsmall hmax hseal
      obtain ⟨res, hret, hsome, hsession, hway⟩ :=
        @wnRecv_data P s limit fuel outCap outLen our peer gx.w gx.r buf rec content hs hrec
          hfits hlen (hsmall.trans hcap)
      obtain ⟨b', rfl, hinput, hrest⟩ := hway.next_read hqueue hmove
      refine ⟨{ gx with r := gx.r + 1, left := b', taking := [content] }, rest, rfl,
        ⟨?_, h.shut, h.told, h.mute, fun hheard => ?_, h.sound⟩,
        ⟨fwd.queue, fwd.data, fwd.sealings, fwd.heard⟩,
        ⟨hinput, ?_, fun _ => ⟨_, _, hmore, hopen, hclosed⟩, fun hheard => ?_⟩⟩
      · refine .receiving hrest (Standing.holds_live hlive hsession) hout hgiving
          (.inl ⟨content, ?_, rfl⟩)
        rw [hret, hsome]
      · exact absurd (bwd.heard hheard).1 (List.cons_ne_nil _ _)
      · rw [← hdata]
        simp [Entry.data?, Party.received]
      · exact absurd (bwd.heard hheard).1 (List.cons_ne_nil _ _)

/-- A receive goes on. -/
theorem Party.Stands.recv_on (hopens : P.OpensSealed) (hlimit : 2 ≤ limit)
    (h : x.Stands P limit our peer gx) (hy : y.Stands P limit peer our gy)
    (fwd : Course P limit our x y gx gy u) (bwd : Course P limit peer y x gy gx v) {b : Bytes}
    {p p' : Proc Ev RecvOut} (hdoing : x.doing = .receiving p) (hmove : p.Moves x.input out p' b) :
    ∃ gx' v', out = [] ∧ { x with doing := .receiving p', input := b }.Stands P limit our peer gx' ∧
      Course P limit our { x with doing := .receiving p', input := b } y gx' gy u ∧
      Course P limit peer y { x with doing := .receiving p', input := b } gy gx' v' := by
  have hdoes := h.doing
  rw [hdoing] at hdoes
  cases hdoes with
  | asking hs hlive hcap hout hleft hgiving htaking =>
      exact h.first_read hopens hlimit hy fwd bwd hs hlive hcap hout hleft hgiving htaking hmove
  | receiving hway hs hout hgiving hres =>
      obtain ⟨b', rfl, hinput, hrest⟩ := hway.next_read bwd.queue hmove
      exact ⟨{ gx with left := b' }, v, rfl,
        { h with doing := .receiving hrest hs hout hgiving hres }, { fwd with },
        ⟨hinput, bwd.data, bwd.sealings, bwd.heard⟩⟩

theorem Party.Stands.recvd (h : x.Stands P limit our peer gx)
    (fwd : Course P limit our x y gx gy u) (bwd : Course P limit peer y x gy gx v) {res : RecvOut}
    (hdoing : x.doing = .receiving (.done res)) : ∃ gx',
      { x with doing := .idle res.s, results := x.results ++ [(res.ret, res.data)] }.Stands P
        limit our peer gx' ∧
      Course P limit our
        { x with doing := .idle res.s, results := x.results ++ [(res.ret, res.data)] } y gx' gy u ∧
      Course P limit peer y
        { x with doing := .idle res.s, results := x.results ++ [(res.ret, res.data)] }
        gy gx' v := by
  have hdoes := h.doing
  rw [hdoing] at hdoes
  generalize hwait : (Proc.done res : Proc Ev RecvOut) = p at hdoes
  generalize hx : Doing.receiving p = doing at hdoes
  cases hdoes with
  | idle => cases hx
  | sending => cases hx
  | closing => cases hx
  | @asking s fuel outCap outLen buf hs =>
      obtain ⟨k, hk⟩ := @wnRecv_asks P s limit fuel outCap outLen our peer gx.w gx.r buf hs
      cases hx
      rw [hk] at hwait
      cases hwait
  | receiving hway hs hout hgiving hres =>
      cases hx
      subst hwait
      obtain ⟨rfl, hleft, -⟩ := hway.of_done
      have hdata := bwd.data
      have hreceived : x.received ++ res.data.toList ++ v.filterMap (fun e => e.1.data?) =
          y.accepted ++ gy.giving := by
        rcases hres with ⟨data, heq, htaking⟩ | ⟨heq, htaking, -⟩ | ⟨heq, htaking, -⟩
        · rw [(Prod.mk.inj heq).2]
          rw [htaking] at hdata
          exact hdata
        · rw [(Prod.mk.inj heq).2]
          rw [htaking] at hdata
          exact hdata
        · rw [(Prod.mk.inj heq).2]
          rw [htaking] at hdata
          exact hdata
      refine ⟨{ gx with taking := [] },
        ⟨.idle hs hout hleft hgiving rfl, h.shut, h.told, h.mute, fun _ => rfl, ?_⟩,
        { fwd with }, ⟨bwd.queue, ?_, bwd.sealings, bwd.heard⟩⟩
      · intro r hr
        rcases List.mem_append.1 hr with hr | hr
        · exact h.sound r hr
        · rw [List.mem_singleton.1 hr]
          rcases hres with ⟨data, heq, -⟩ | ⟨heq, -, hheard⟩ | ⟨heq, -, hshut⟩
          · exact .inl ⟨data, heq⟩
          · exact .inr (.inl ⟨heq, hheard⟩)
          · exact .inr (.inr ⟨heq, hshut⟩)
      · rw [← hreceived, List.append_nil]
        have hone :
          ({ x with doing := .idle res.s, results := x.results ++ [(res.ret, res.data)] } :
            Party).received = x.received ++ res.data.toList := by
          unfold Party.received
          rw [List.filterMap_append]
          cases res.data <;> rfl
        rw [hone]

/-! ### Both ends -/

/-- Any move of an end. -/
theorem Party.Stands.act (hP : P.RecordOk) (hopens : P.OpensSealed) (hour : our.Proper)
    (hlimit : 2 ≤ limit) (h : x.Stands P limit our peer gx) (hy : y.Stands P limit peer our gy)
    (fwd : Course P limit our x y gx gy u) (bwd : Course P limit peer y x gy gx v) {m : Option Asks}
    (hact : x.act P limit m = some (x', out)) : ∃ gx' u' v',
      x'.Stands P limit our peer gx' ∧ Course P limit our x' (y.gets out) gx' gy u' ∧
        Course P limit peer (y.gets out) x' gy gx' v' := by
  cases m with
  | some a =>
      obtain ⟨x₁, hask, heq⟩ := Option.map_eq_some_iff.1 hact
      cases heq
      rw [y.gets_nil]
      unfold Party.ask at hask
      split at hask
      · rename_i hidle
        obtain ⟨hdata, heq⟩ := Option.ite_none_right_eq_some.1 hask
        cases heq
        obtain ⟨gx', u', hx', hfwd, hbwd⟩ := h.ask_send hP hour fwd bwd hidle hdata
        exact ⟨gx', u', v, hx', hfwd, hbwd⟩
      · rename_i hidle
        obtain ⟨hcap, heq⟩ := Option.ite_none_right_eq_some.1 hask
        cases heq
        exact ⟨gx, u, v, h.ask_recv hidle hcap, { fwd with }, { bwd with }⟩
      · rename_i hidle
        cases hask
        obtain ⟨gx', u', hx', hfwd, hbwd⟩ := h.ask_close hP hour fwd bwd hidle
        exact ⟨gx', u', v, hx', hfwd, hbwd⟩
      · cases hask
  | none =>
      have hgo : x.advance = some (x', out) := hact
      unfold Party.advance at hgo
      split at hgo
      · cases hgo
      · rename_i hdoing
        rcases carryOn_eq_some hgo with ⟨res, rfl, rfl, rfl⟩ | ⟨p', b, hmove, rfl⟩
        · rw [y.gets_nil]
          obtain ⟨gx', hx', hfwd, hbwd⟩ := h.sent fwd bwd hdoing
          exact ⟨gx', u, v, hx', hfwd, hbwd⟩
        · obtain ⟨gx', hx', hfwd, hbwd⟩ := h.send_on fwd bwd hdoing hmove
          exact ⟨gx', u, v, hx', hfwd, hbwd⟩
      · rename_i hdoing
        rcases carryOn_eq_some hgo with ⟨res, rfl, rfl, rfl⟩ | ⟨p', b, hmove, rfl⟩
        · rw [y.gets_nil]
          obtain ⟨gx', hx', hfwd, hbwd⟩ := h.recvd fwd bwd hdoing
          exact ⟨gx', u, v, hx', hfwd, hbwd⟩
        · obtain ⟨gx', v', rfl, hx', hfwd, hbwd⟩ := h.recv_on hopens hlimit hy fwd bwd hdoing hmove
          rw [y.gets_nil]
          exact ⟨gx', u, v', hx', hfwd, hbwd⟩
      · rename_i hdoing
        rcases carryOn_eq_some hgo with ⟨res, rfl, rfl, rfl⟩ | ⟨p', b, hmove, rfl⟩
        · rw [y.gets_nil]
          exact ⟨gx, u, v, h.closed hdoing, { fwd with }, { bwd with }⟩
        · obtain ⟨gx', hx', hfwd, hbwd⟩ := h.close_on fwd bwd hdoing hmove
          exact ⟨gx', u, v, hx', hfwd, hbwd⟩

/-- More bytes at an end do not change where it stands. -/
theorem Party.Stands.gets (h : x.Stands P limit our peer gx) (out : Bytes) :
    (x.gets out).Stands P limit our peer gx := { h with }

/-- The two ends and the two directions. -/
def Conversation.Inv (P : Platform) (limit : Nat) (our peer : TrafficKeys)
    (c : Conversation) : Prop :=
  ∃ gx gy u v, c.left.Stands P limit our peer gx ∧ c.right.Stands P limit peer our gy ∧
    Course P limit our c.left c.right gx gy u ∧ Course P limit peer c.right c.left gy gx v

theorem Conversation.Inv.move (hP : P.RecordOk) (hopens : P.OpensSealed) (hour : our.Proper)
    (hpeer : peer.Proper) (hlimit : 2 ≤ limit) {c c' : Conversation} {atLeft : Bool}
    {m : Option Asks} (h : c.Inv P limit our peer)
    (hmove : c.move P limit atLeft m = some c') : c'.Inv P limit our peer := by
  obtain ⟨gx, gy, u, v, hx, hy, fwd, bwd⟩ := h
  unfold Conversation.move at hmove
  split at hmove
  · obtain ⟨⟨x', out⟩, hact, heq⟩ := Option.map_eq_some_iff.1 hmove
    cases heq
    obtain ⟨gx', u', v', hx', hfwd, hbwd⟩ := hx.act hP hopens hour hlimit hy fwd bwd hact
    exact ⟨gx', gy, u', v', hx', hy.gets out, hfwd, hbwd⟩
  · obtain ⟨⟨y', out⟩, hact, heq⟩ := Option.map_eq_some_iff.1 hmove
    cases heq
    obtain ⟨gy', v', u', hy', hbwd, hfwd⟩ := hy.act hP hopens hpeer hlimit hx bwd fwd hact
    exact ⟨gx, gy', u', v', hx.gets out, hy', hfwd, hbwd⟩

theorem Conversation.Inv.moves (hP : P.RecordOk) (hopens : P.OpensSealed) (hour : our.Proper)
    (hpeer : peer.Proper) (hlimit : 2 ≤ limit) {c c' : Conversation}
    {ms : List (Bool × Option Asks)} (h : c.Inv P limit our peer)
    (hmoves : c.moves P limit ms = some c') : c'.Inv P limit our peer := by
  induction ms generalizing c with
  | nil =>
      cases hmoves
      exact h
  | cons m ms ih =>
      obtain ⟨d, hmove, hrest⟩ := Option.bind_eq_some_iff.1 hmoves
      exact ih (h.move hP hopens hour hpeer hlimit hmove) hrest

/-! ### What the invariant says -/

theorem Party.Stands.giving_prefix (h : x.Stands P limit our peer gx) :
    gx.giving <+: x.pending := by
  have hnone : gx.giving = [] → ∀ l, gx.giving <+: l := fun hgiving l =>
    hgiving.symm ▸ List.nil_prefix
  have hdoing := h.doing
  unfold Party.pending
  cases hdoes : x.doing with
  | idle s =>
      rw [hdoes] at hdoing
      cases hdoing with
      | idle _ _ _ hgiving =>
          exact hnone hgiving _
  | sending data p =>
      rw [hdoes] at hdoing
      cases hdoing with
      | @sending _ _ ret _ _ _ _ hgiving =>
          rw [hgiving]
          cases ret with
          | ok => exact List.prefix_rfl
          | error => exact List.nil_prefix
  | receiving p =>
      rw [hdoes] at hdoing
      cases hdoing with
      | asking _ _ _ _ _ hgiving =>
          exact hnone hgiving _
      | receiving _ _ _ hgiving =>
          exact hnone hgiving _
  | closing p =>
      rw [hdoes] at hdoing
      cases hdoing with
      | closing _ _ _ hgiving =>
          exact hnone hgiving _

theorem Course.heard_of (fwd : Course P limit our x y gx gy u) (hx : x.Stands P limit our peer gx)
    (hy : y.Stands P limit peer our gy) : x.Heard y where
  order := by
    have hfront : y.received <+: x.accepted ++ gx.giving := by
      rw [← fwd.data, List.append_assoc]
      exact List.prefix_append _ _
    exact hfront.trans (List.prefix_append_right_inj _ |>.2 hx.giving_prefix)
  sound res hres := by
    rcases hy.sound res hres with hok | ⟨hclosed, -⟩ | hbad
    · exact .inl hok
    · exact .inr (.inl hclosed)
    · exact .inr (.inr hbad)
  whole hres := by
    have hheard : gy.heard = true := by
      rcases hy.sound _ hres with ⟨data, hok⟩ | ⟨-, hheard⟩ | ⟨hbad, -⟩
      · cases hok
      · exact hheard
      · cases hbad
    obtain ⟨rfl, hgone⟩ := fwd.heard hheard
    have hdata := fwd.data
    have hnot : gx.stage ≠ .live := fun hlive => Phase.gone_ne_live (hgone.symm.trans hlive)
    rw [hy.hush hheard, hx.mute hnot, List.filterMap_nil, List.append_nil, List.append_nil,
      List.append_nil] at hdata
    exact ⟨hx.shut.2 hgone, hdata⟩

/-- An end that cannot go on has nothing to send. -/
theorem Party.Stands.silent (h : x.Stands P limit our peer gx) (hnone : x.advance = none) :
    gx.out = [] ∧ gx.giving = [] := by
  have hdoing := h.doing
  unfold Party.advance at hnone
  cases hdoes : x.doing with
  | idle s =>
      rw [hdoes] at hdoing
      cases hdoing with
      | idle _ hout _ hgiving => exact ⟨hout, hgiving⟩
  | sending data p =>
      rw [hdoes] at hdoing hnone
      cases hdoing with
      | sending hway => exact absurd hnone (carryOn_of_goes x.input hway)
  | receiving p =>
      rw [hdoes] at hdoing
      cases hdoing with
      | asking _ _ _ hout _ hgiving => exact ⟨hout, hgiving⟩
      | receiving _ _ hout hgiving => exact ⟨hout, hgiving⟩
  | closing p =>
      rw [hdoes] at hdoing hnone
      cases hdoing with
      | closing hway => exact absurd hnone (carryOn_of_goes x.input hway)

/-- A receive that waits can go on once a record is there. -/
theorem Session.Live.recv_moves (hs : s.Live limit our peer gx.w gx.r) {fuel outCap outLen : Nat}
    {buf input : Bytes} (hinput : 5 ≤ input.length) : ∃ p' b,
      (wnRecv P (fuel + 1) s (some buf) outCap (some outLen)).Moves input [] p' b := by
  obtain ⟨k, hk⟩ := @wnRecv_asks P s limit fuel outCap outLen our peer gx.w gx.r buf hs
  rw [hk]
  exact ⟨_, _, .recv 5 k input hinput⟩

theorem SealedRun.size {t : TrafficKeys} {n m : UInt64} {isOpen : Bool} {e : Entry × Bytes}
    {rest : List (Entry × Bytes)} (h : SealedRun P limit t n (e :: rest) m isOpen) :
    22 ≤ e.2.length := by
  cases h with
  | close hseal =>
      have hlen := sealRecord_length hseal
      simp only
      omega
  | data _ _ hseal _ =>
      have hlen := sealRecord_length hseal
      simp only
      omega

theorem Party.Stands.waits (h : x.Stands P limit our peer gx) (hy : y.Stands P limit peer our gy)
    (bwd : Course P limit peer y x gy gx v) (hnone : x.advance = none) (hnone' : y.advance = none) :
    x.Waits y := by
  obtain ⟨hout, hgiving⟩ := hy.silent hnone'
  have hqueue := bwd.queue
  rw [hout, List.append_nil] at hqueue
  have hdoing := h.doing
  unfold Party.advance at hnone
  cases hdoes : x.doing with
  | idle s => exact .inl ⟨s, hdoes⟩
  | sending data p =>
      rw [hdoes] at hdoing hnone
      cases hdoing with
      | sending hway => exact absurd hnone (carryOn_of_goes x.input hway)
  | closing p =>
      rw [hdoes] at hdoing hnone
      cases hdoing with
      | closing hway => exact absurd hnone (carryOn_of_goes x.input hway)
  | receiving p =>
      rw [hdoes] at hdoing hnone
      cases hdoing with
      | receiving hway =>
          refine absurd hnone ?_
          dsimp only
          rw [hqueue]
          exact carryOn_of_goes _ hway
      | asking hs hlive _ _ hleft _ htaking =>
          obtain ⟨m, isOpen, hrun, -, hshut⟩ := bwd.sealings hlive
          rw [hleft, List.nil_append] at hqueue
          cases v with
          | cons e rest =>
              have hsize := hrun.size
              have hinput : 5 ≤ x.input.length := by
                rw [hqueue, List.map_cons, List.flatten_cons, List.length_append]
                omega
              obtain ⟨p', b, hmove⟩ := hs.recv_moves hinput
              exact absurd hnone (carryOn_moves hmove)
          | nil =>
              have hdata := bwd.data
              rw [htaking, hgiving, List.filterMap_nil, List.append_nil, List.append_nil,
                List.append_nil] at hdata
              have hopen : gy.stage = .live := by
                by_contra hnot
                cases hrun with
                | nil => exact absurd (hshut hnot) (by decide)
              refine .inr ⟨⟨_, hdoes⟩, ?_, hdata⟩
              rw [← Bool.not_eq_true]
              intro hyshut
              exact Phase.gone_ne_live ((hy.shut.1 hyshut).symm.trans hopen)

theorem Conversation.Inv.start {t : Session} {w r : UInt64} (hs : s.Live limit our peer w r)
    (ht : t.Live limit peer our r w) :
    (Conversation.mk (.start s) (.start t)).Inv P limit our peer := by
  have hstands : ∀ (s : Session) (our peer : TrafficKeys) (w r : UInt64),
      s.Live limit our peer w r →
      (Party.start s).Stands P limit our peer ⟨.live, w, r, [], [], [], [], false⟩ := by
    intro s our peer w r hs
    refine ⟨.idle (Standing.holds_live rfl hs) rfl rfl rfl rfl,
      ⟨fun h => ?_, fun h => ?_⟩, fun h => ?_, fun _ => rfl, fun _ => rfl, fun res hres => ?_⟩
    · cases h
    · cases h
    · cases h
    · cases hres
  have hcourse : ∀ (t : TrafficKeys) (s s' : Session) (w r : UInt64),
      Course P limit t (.start s) (.start s') ⟨.live, w, r, [], [], [], [], false⟩
        ⟨.live, r, w, [], [], [], [], false⟩ [] := by
    intro t s s' w r
    refine ⟨rfl, rfl, fun _ => ⟨w, true, .nil w, fun _ => ⟨rfl, rfl⟩, fun h => absurd rfl h⟩,
      fun h => ?_⟩
    cases h
  exact ⟨_, _, [], [], hstands s our peer w r hs, hstands t peer our r w ht, hcourse our s t w r,
    hcourse peer t s r w⟩

theorem Conversation.Inv.sound {c : Conversation} (h : c.Inv P limit our peer) :
    c.left.Heard c.right ∧ c.right.Heard c.left ∧
      (c.left.advance = none → c.right.advance = none → c.left.Waits c.right ∧
      c.right.Waits c.left) := by
  obtain ⟨gx, gy, u, v, hx, hy, fwd, bwd⟩ := h
  exact ⟨fwd.heard_of hx hy, bwd.heard_of hy hx, fun hleft hright =>
    ⟨hx.waits hy bwd hleft hright, hy.waits hx fwd hright hleft⟩⟩

end Keeps

/-- Two sessions that mirror each other, whatever calls are made at the two ends and however
their operations interleave: each end receives what the other sent, in order, whole and once;
no call of `wn_Recv` fails but for the end of the session; a close_notify is reported behind
everything that was sent; and when neither end can go on, nothing is on the way to an end that
waits. -/
theorem sessions_converse (P : Platform) (hP : P.RecordOk) (hopens : P.OpensSealed) (limit : Nat)
    (hlimit : 2 ≤ limit) (s t : Session) (our peer : TrafficKeys) (hour : our.Proper)
    (hpeer : peer.Proper) (w r : UInt64) (hs : s.Live limit our peer w r)
    (ht : t.Live limit peer our r w) (ms : List (Bool × Option Asks)) (c : Conversation)
    (hmoves : (Conversation.mk (.start s) (.start t)).moves P limit ms = some c) :
    c.left.Heard c.right ∧ c.right.Heard c.left ∧
      (c.left.advance = none → c.right.advance = none → c.left.Waits c.right ∧
      c.right.Waits c.left) := by
  exact ((Conversation.Inv.start hs ht).moves hP hopens hour hpeer hlimit hmoves).sound

/-- What the drivers leave behind is ready for a conversation. -/
theorem Session.fresh_live {our peer : TrafficKeys} {limit scratchLen : Nat}
    (hscratch : limit + 22 ≤ scratchLen) :
    (Session.fresh our peer scratchLen).Live limit our peer 0 0 :=
  ⟨rfl, rfl, rfl, hscratch, rfl, rfl, rfl, rfl⟩

namespace Sample

/-- The session at the other end. -/
def mirror : Session := .fresh ⟨be 32 4, be 16 5, be 12 6⟩ ⟨be 32 1, be 16 2, be 12 3⟩ 2048

/-- The left end sends while the right one waits for data; the right end closes. -/
def conversation : List (Bool × Option Asks) :=
  [(false, some (.recv 0 [] 2000 0)), (true, some (.send [1, 2]))] ++
    List.replicate 3 (true, none) ++
    List.replicate 5 (false, none) ++ [(true, some (.recv 0 [] 2000 0)), (false, some .close)] ++
    List.replicate 3 (false, none) ++ List.replicate 4 (true, none)

end Sample

theorem sessions_converse_sample : ∃ c,
    (Conversation.mk (.start Sample.session) (.start Sample.mirror)).moves Sample.platform 2000
      Sample.conversation = some c ∧ c.left.Heard c.right ∧ c.right.Heard c.left ∧
        c.right.received = [[1, 2]] ∧ c.left.results = [(.error .closed, none)] := by
  have hplays :
      ((Conversation.mk (.start Sample.session) (.start Sample.mirror)).moves Sample.platform
        2000 Sample.conversation).map (fun c => (c.right.received, c.left.results)) =
        some ([[1, 2]], [(.error .closed, none)]) := by
    decide +kernel
  obtain ⟨c, hc, heq⟩ := Option.map_eq_some_iff.1 hplays
  obtain ⟨hreceived, hresults⟩ := Prod.mk.inj heq
  obtain ⟨hleft, hright, -⟩ := sessions_converse Sample.platform Sample.recordOk
    Sample.opensSealed 2000 (by decide) Sample.session Sample.mirror
      ⟨be 32 1, be 16 2, be 12 3⟩ ⟨be 32 4, be 16 5, be 12 6⟩
    ⟨by decide, by decide⟩ ⟨by decide, by decide⟩ 0 0 (Session.fresh_live (by decide))
    (Session.fresh_live (by decide)) Sample.conversation c hc
  exact ⟨c, hc, hleft, hright, hreceived, hresults⟩

end WolfNano
