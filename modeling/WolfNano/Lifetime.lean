/-
A connection from its first byte on: each end makes its handshake and then its calls, and neither
knows how far the other one is.  What an end sends after its handshake may lie on the channel behind
the last bytes of the handshake.
-/
import WolfNano.CertAgreement
import WolfNano.Conversation

namespace WolfNano

open Duplex

/-! ### The system -/

/-- An end of a connection: what is left of its handshake and what has arrived, or its calls after a
handshake that returned `ret`. -/
inductive Endpoint where
  | shaking (p : Proc Ev (Ret × Session)) (input : Bytes)
  | talking (ret : Ret) (x : Party)

namespace Endpoint

def gets : Endpoint → Bytes → Endpoint
  | shaking p input, out => shaking p (input ++ out)
  | talking ret x, out => talking ret (x.gets out)

/-- The handshake or the call in progress goes on by one operation, or returns. -/
def advance : Endpoint → Option (Endpoint × Bytes)
  | shaking p input => carryOn p input
      (fun res => talking res.1 ((Party.start res.2).gets input)) shaking
  | talking ret x => x.advance.map fun y => (talking ret y.1, y.2)

/-- A move of an end; it makes no call before its handshake has returned. -/
def act (P : Platform) (limit : Nat) (e : Endpoint) : Option Asks → Option (Endpoint × Bytes)
  | none => e.advance
  | some a =>
      match e with
      | shaking _ _ => none
      | talking ret x => (x.ask P limit a).map fun y => (talking ret y, [])

/-- The calls of an end and what they returned. -/
def party : Endpoint → Party
  | shaking _ _ => .start .zero
  | talking _ x => x

/-- The handshake has not failed. -/
def Unfailed : Endpoint → Prop
  | shaking _ _ => True
  | talking ret _ => ret = .ok ()

end Endpoint

structure Connection where
  left : Endpoint
  right : Endpoint

namespace Connection

variable (P : Platform) (limit : Nat)

def move (c : Connection) (atLeft : Bool) (m : Option Asks) : Option Connection :=
  if atLeft then
    (c.left.act P limit m).map fun e => ⟨e.1, c.right.gets e.2⟩
  else
    (c.right.act P limit m).map fun e => ⟨c.left.gets e.2, e.1⟩

/-- Any moves, one after the other. -/
def moves (c : Connection) : List (Bool × Option Asks) → Option Connection
  | [] => some c
  | m :: ms => (c.move P limit m.1 m.2).bind fun d => d.moves ms

/-- Two ends that have sent nothing yet. -/
def start (client server : Proc Ev (Ret × Session)) : Connection :=
  ⟨.shaking client [], .shaking server []⟩

end Connection

/-! ### One end after the other's handshake -/

/-- The other end is through with its handshake: this one is on its way to the session `s` with all
it has to read, or has got it.  `x` is the end as the conversation knows it. -/
inductive Endpoint.Joins (s : Session) : Party → Endpoint → Prop where
  | coming {p : Proc Ev (Ret × Session)} {b : Bytes} (input : Bytes)
      (hway : p.Goes b [] (.done (.ok (), s)) []) :
      Joins s ((Party.start s).gets input) (.shaking p (b ++ input))
  | here (x : Party) : Joins s x (.talking (.ok ()) x)

section Joins

variable {P : Platform} {limit : Nat} {s : Session} {x y : Party} {e e' : Endpoint} {out : Bytes}
  {m : Option Asks}

theorem Party.gets_gets (x : Party) (a b : Bytes) : (x.gets a).gets b = x.gets (a ++ b) := by
  simp [Party.gets]

theorem Endpoint.Joins.gets (h : e.Joins s x) (out : Bytes) :
    (e.gets out).Joins s (x.gets out) := by
  cases h with
  | coming input hway =>
      rw [Party.gets_gets, Endpoint.gets, List.append_assoc]
      exact .coming (input ++ out) hway
  | here => exact .here _

/-- A move is one of the handshake, which sends nothing more, or one of the conversation. -/
theorem Endpoint.Joins.act (h : e.Joins s x) (hact : e.act P limit m = some (e', out)) :
    (out = [] ∧ e'.Joins s x) ∨ ∃ x', x.act P limit m = some (x', out) ∧ e'.Joins s x' := by
  cases h with
  | @coming p b input hway =>
      cases m with
      | some a => cases hact
      | none =>
          refine .inl ?_
          rcases carryOn_eq_some hact with ⟨res, rfl, rfl, rfl⟩ | ⟨p', b₁, hmove, rfl⟩
          · obtain ⟨rfl, rfl, -⟩ := hway.of_done
            exact ⟨rfl, .here _⟩
          · obtain ⟨b', out₂, -, rfl, hnone, hrest⟩ := hway.next hmove
            obtain ⟨rfl, rfl⟩ := List.append_eq_nil_iff.1 hnone.symm
            exact ⟨rfl, .coming input hrest⟩
  | here =>
      refine .inr ?_
      cases m with
      | some a =>
          obtain ⟨x', hask, heq⟩ := Option.map_eq_some_iff.1 hact
          cases heq
          refine ⟨x', ?_, .here _⟩
          rw [Party.act, hask]
          rfl
      | none =>
          obtain ⟨⟨x', out'⟩, hgo, heq⟩ := Option.map_eq_some_iff.1 hact
          cases heq
          exact ⟨x', hgo, .here _⟩

/-- An end that cannot go on has its session. -/
theorem Endpoint.Joins.stuck (h : e.Joins s x) (hnone : e.advance = none) :
    e = .talking (.ok ()) x ∧ x.advance = none := by
  cases h with
  | coming input hway => exact absurd hnone (carryOn_of_goes input hway)
  | here => exact ⟨rfl, Option.map_eq_none_iff.1 hnone⟩

theorem Endpoint.Joins.unfailed (h : e.Joins s x) : e.Unfailed := by
  cases h with
  | coming => exact trivial
  | here => rfl

theorem Endpoint.Joins.heard {t : Session} {f : Endpoint} (h : e.Joins s x) (h' : f.Joins t y)
    (hheard : x.Heard y) : e.party.Heard f.party := by
  cases h with
  | coming =>
      cases h' with
      | coming => exact ⟨hheard.order, hheard.sound, hheard.whole⟩
      | here => exact ⟨hheard.order, hheard.sound, hheard.whole⟩
  | here =>
      cases h' with
      | coming => exact ⟨hheard.order, hheard.sound, hheard.whole⟩
      | here => exact hheard

end Joins

/-! ### Both ends -/

/-- Both ends are in their handshakes, or one of them is through with it and the conversation has
begun. -/
inductive Connection.Inv (P : Platform) (limit : Nat) (our peer : TrafficKeys) (s t : Session) :
    Connection → Prop where
  | shaking {p q : Proc Ev (Ret × Session)} {a b : Bytes} {n : Nat}
      (hends : Pair.EndsIn ⟨p, q, a, b⟩ n ⟨.done (.ok (), s), .done (.ok (), t), [], []⟩) :
      Inv P limit our peer s t ⟨.shaking p a, .shaking q b⟩
  | talking {c : Conversation} {e f : Endpoint} (hinv : c.Inv P limit our peer)
      (hleft : e.Joins s c.left) (hright : f.Joins t c.right) : Inv P limit our peer s t ⟨e, f⟩

section Invariant

variable {P : Platform} {limit : Nat} {our peer : TrafficKeys} {s t : Session} {w r : UInt64}

theorem Connection.Inv.move (hP : P.RecordOk) (hopens : P.OpensSealed) (hour : our.Proper)
    (hpeer : peer.Proper) (hlimit : 2 ≤ limit) (hs : s.Live limit our peer w r)
    (ht : t.Live limit peer our r w) {c c' : Connection} {atLeft : Bool} {m : Option Asks}
    (h : c.Inv P limit our peer s t) (hmove : c.move P limit atLeft m = some c') :
    c'.Inv P limit our peer s t := by
  cases h with
  | @shaking p q a b n hends =>
      have hstart := Conversation.Inv.start (P := P) hs ht
      cases atLeft with
      | true =>
          obtain ⟨⟨e, out⟩, hact, rfl⟩ := Option.map_eq_some_iff.1 hmove
          cases m with
          | some a => cases hact
          | none =>
              rcases carryOn_eq_some hact with ⟨res, rfl, rfl, rfl⟩ | ⟨p', a', hgo, rfl⟩
              · obtain ⟨rfl, rfl, hway⟩ := (hends.2 0 _ (.start _)).2.right_alone
                refine .talking hstart ?_ ?_
                · rw [Party.gets_nil]
                  exact .here _
                · exact .coming [] hway
              · obtain ⟨k, hnext⟩ := hends.next (.left hgo)
                exact .shaking hnext
      | false =>
          obtain ⟨⟨e, out⟩, hact, rfl⟩ := Option.map_eq_some_iff.1 hmove
          cases m with
          | some a => cases hact
          | none =>
              rcases carryOn_eq_some hact with ⟨res, rfl, rfl, rfl⟩ | ⟨q', b', hgo, rfl⟩
              · obtain ⟨rfl, rfl, hway⟩ := (hends.2 0 _ (.start _)).2.left_alone
                refine .talking hstart ?_ ?_
                · exact .coming [] hway
                · rw [Party.gets_nil]
                  exact .here _
              · obtain ⟨k, hnext⟩ := hends.next (.right hgo)
                exact .shaking hnext
  | @talking c e f hinv hleft hright =>
      cases atLeft with
      | true =>
          obtain ⟨⟨e', out⟩, hact, rfl⟩ := Option.map_eq_some_iff.1 hmove
          rcases hleft.act hact with ⟨rfl, hleft'⟩ | ⟨x', hgo, hleft'⟩
          · have hright' := hright.gets []
            rw [Party.gets_nil] at hright'
            exact .talking hinv hleft' hright'
          · have hnext : c.move P limit true m = some ⟨x', c.right.gets out⟩ := by
              rw [Conversation.move, if_pos rfl, hgo]
              rfl
            exact .talking (hinv.move hP hopens hour hpeer hlimit hnext) hleft' (hright.gets out)
      | false =>
          obtain ⟨⟨f', out⟩, hact, rfl⟩ := Option.map_eq_some_iff.1 hmove
          rcases hright.act hact with ⟨rfl, hright'⟩ | ⟨y', hgo, hright'⟩
          · have hleft' := hleft.gets []
            rw [Party.gets_nil] at hleft'
            exact .talking hinv hleft' hright'
          · have hnext : c.move P limit false m = some ⟨c.left.gets out, y'⟩ := by
              rw [Conversation.move, if_neg Bool.false_ne_true, hgo]
              rfl
            exact .talking (hinv.move hP hopens hour hpeer hlimit hnext) (hleft.gets out) hright'

theorem Connection.Inv.moves (hP : P.RecordOk) (hopens : P.OpensSealed) (hour : our.Proper)
    (hpeer : peer.Proper) (hlimit : 2 ≤ limit) (hs : s.Live limit our peer w r)
    (ht : t.Live limit peer our r w) {c c' : Connection} {ms : List (Bool × Option Asks)}
    (h : c.Inv P limit our peer s t) (hmoves : c.moves P limit ms = some c') :
    c'.Inv P limit our peer s t := by
  induction ms generalizing c with
  | nil =>
      cases hmoves
      exact h
  | cons m ms ih =>
      obtain ⟨d, hmove, hrest⟩ := Option.bind_eq_some_iff.1 hmoves
      exact ih (h.move hP hopens hour hpeer hlimit hs ht hmove) hrest

/-- No handshake fails, each end has heard what the other one sent, and when neither can go on both
are through with their handshakes and wait for nothing that is on its way. -/
structure Connection.Sound (c : Connection) : Prop where
  left : c.left.Unfailed
  right : c.right.Unfailed
  leftHeard : c.right.party.Heard c.left.party
  rightHeard : c.left.party.Heard c.right.party
  waits : c.left.advance = none → c.right.advance = none →
    ∃ x y, c = ⟨.talking (.ok ()) x, .talking (.ok ()) y⟩ ∧ x.Waits y ∧ y.Waits x

theorem Party.start_heard (s t : Session) : (Party.start s).Heard (.start t) where
  order := List.nil_prefix
  sound res hres := by cases hres
  whole hres := by cases hres

theorem Connection.Inv.sound {c : Connection} (h : c.Inv P limit our peer s t) : c.Sound := by
  cases h with
  | @shaking p q a b n hends =>
      refine ⟨trivial, trivial, Party.start_heard _ _, Party.start_heard _ _,
        fun hleft hright => ?_⟩
      rcases hends.ready with heq | ⟨u, hstep⟩
      · cases heq
        cases hleft
      · cases hstep with
        | left hgo => exact absurd hleft (carryOn_moves hgo)
        | right hgo => exact absurd hright (carryOn_moves hgo)
  | talking hinv hleft hright =>
      obtain ⟨hlr, hrl, hwaits⟩ := hinv.sound
      refine ⟨hleft.unfailed, hright.unfailed, hright.heard hleft hrl, hleft.heard hright hlr,
        fun hl hr => ?_⟩
      obtain ⟨rfl, hx⟩ := hleft.stuck hl
      obtain ⟨rfl, hy⟩ := hright.stuck hr
      exact ⟨_, _, rfl, hwaits hx hy⟩

/-- Two drivers that meet, with any calls after them. -/
theorem Meet.connection {client server : Proc Ev (Ret × Session)} {scratchLen scratchLen' : Nat}
    (h : Meet client server scratchLen scratchLen') (hP : P.RecordOk) (hopens : P.OpensSealed)
    (hlimit : 2 ≤ limit) (hroom : limit + 22 ≤ scratchLen) (hroom' : limit + 22 ≤ scratchLen')
    {ms : List (Bool × Option Asks)} {c : Connection}
    (hmoves : (Connection.start client server).moves P limit ms = some c) : c.Sound := by
  obtain ⟨our, peer, n, hour, hpeer, hends⟩ := h
  have hinv : (Connection.start client server).Inv P limit our peer (.fresh our peer scratchLen)
      (.fresh peer our scratchLen') := .shaking hends
  exact (hinv.moves hP hopens hour hpeer hlimit (Session.fresh_live hroom)
    (Session.fresh_live hroom') hmoves).sound

end Invariant

/-- A PSK client and a PSK server, from their first byte on, with any calls after the
handshakes and any interleaving of single operations: no handshake fails, each end receives
what the other one sent, in order, whole and once, also what was sent before its own handshake
was over, and when neither end can go on both have their sessions and nothing is on the way to
an end that waits. -/
theorem psk_connection (P : Platform) (hP : P.HandshakeOk) (hopens : P.OpensSealed)
    (hagree : P.KeysAgree) (client server : PskArgs) (hargs : PskPair P.build client server)
    (rng rng' : P.Rng) (hrandom : ∀ b g, P.rngBlock rng' 32 = some (b, g) → b ≠ hrrRandom)
    (sess sess' : Session) (fuel fuel' : Nat) (hfuel : 2 ≤ fuel) (hfuel' : 2 ≤ fuel') (limit : Nat)
    (hlimit : 2 ≤ limit) (hroom : limit + 22 ≤ client.scratchLen)
    (hroom' : limit + 22 ≤ server.scratchLen) (ms : List (Bool × Option Asks)) (c : Connection)
    (hmoves : (Connection.start (connectPskEx P fuel rng client sess)
      (acceptPskEx P fuel' rng' server sess')).moves P limit ms = some c) : c.Sound :=
  (psk_meet hP hopens hagree hargs hrandom sess sess' hfuel hfuel').connection hP.toRecordOk
    hopens hlimit hroom hroom' hmoves

namespace Sample

/-- The client, which makes `n` operations from the ServerHello to its session, sends its data
before the server has read the Finished. -/
def earlySend (n : Nat) : List (Bool × Option Asks) :=
  List.replicate 4 (true, none) ++ List.replicate 14 (false, none) ++
    List.replicate n (true, none) ++
    [(true, some (.send [1, 2]))] ++ List.replicate 3 (true, none) ++
    List.replicate 4 (false, none) ++
    [(false, some (.recv 0 [] 2000 0))] ++ List.replicate 5 (false, none)

end Sample

theorem psk_connection_sample : ∃ c,
    (Connection.start (connectPskEx Sample.platform 2 (7 : Nat) Sample.pskArgs .zero)
      (acceptPskEx Sample.platform 2 (100 : Nat) Sample.pskArgs .zero)).moves Sample.platform 2000
        (Sample.earlySend 12) = some c ∧ c.Sound ∧ c.right.party.received = [[1, 2]] := by
  have hplays : ((Connection.start (connectPskEx Sample.platform 2 (7 : Nat) Sample.pskArgs .zero)
      (acceptPskEx Sample.platform 2 (100 : Nat) Sample.pskArgs .zero)).moves Sample.platform 2000
        (Sample.earlySend 12)).map (fun c => c.right.party.received) = some [[1, 2]] := by
    decide +kernel
  obtain ⟨c, hc, hreceived⟩ := Option.map_eq_some_iff.1 hplays
  refine ⟨c, hc, ?_, hreceived⟩
  refine psk_connection Sample.platform Sample.handshakeOk Sample.opensSealed Sample.keysAgree
    Sample.pskArgs Sample.pskArgs Sample.pskPair (7 : Nat)
    (100 : Nat) ?_ .zero .zero 2 2 (Nat.le_refl 2) (Nat.le_refl 2) 2000 (by decide)
    (by decide) (by decide) (Sample.earlySend 12) c hc
  intro b g h
  obtain ⟨hb, -⟩ := Prod.mk.inj (Option.some.inj h)
  rw [← hb]
  decide

/-- The same for the certificate client and the certificate server. -/
theorem cert_connection (P : Platform) (X : X509Backend) (hP : P.HandshakeOk)
    (hopens : P.OpensSealed) (hagree : P.KeysAgree) (client : CertArgs)
    (server : ServerCertArgs) (alg : SigAlg) (spki : Bytes) (sigMax : Nat)
    (hpair : CertPair P X client server alg spki sigMax) (rng rng' : P.Rng)
    (hrandom : ∀ b g, P.rngBlock rng' 32 = some (b, g) → b ≠ hrrRandom) (sess sess' : Session)
    (fuel fuel' : Nat) (hfuel : 2 ≤ fuel) (hfuel' : 2 ≤ fuel') (limit : Nat)
    (hlimit : 2 ≤ limit) (hroom : limit + 22 ≤ client.scratchLen)
    (hroom' : limit + 22 ≤ server.scratchLen) (ms : List (Bool × Option Asks))
    (c : Connection) (hmoves : (Connection.start (connectCertImpl P X fuel rng client sess)
      (acceptCertEx P fuel' rng' server sess')).moves P limit ms = some c) : c.Sound :=
  (cert_meet hP hopens hagree hpair hrandom sess sess' hfuel hfuel').connection hP.toRecordOk hopens
    hlimit hroom hroom' hmoves

theorem cert_connection_sample : ∃ c,
    (Connection.start (connectCertImpl Sample.platform Sample.pairBackend 2 (7 : Nat)
      Sample.pairClient .zero) (acceptCertEx Sample.platform 2 (100 : Nat)
        Sample.pairServer .zero)).moves Sample.platform 2000 (Sample.earlySend 13) = some c ∧
        c.Sound ∧ c.right.party.received = [[1, 2]] := by
  have hplays : ((Connection.start (connectCertImpl Sample.platform Sample.pairBackend 2 (7 : Nat)
      Sample.pairClient .zero) (acceptCertEx Sample.platform 2 (100 : Nat)
        Sample.pairServer .zero)).moves Sample.platform 2000 (Sample.earlySend 13)).map
          (fun c => c.right.party.received) =
          some [[1, 2]] := by
    decide +kernel
  obtain ⟨c, hc, hreceived⟩ := Option.map_eq_some_iff.1 hplays
  refine ⟨c, hc, ?_, hreceived⟩
  refine cert_connection Sample.platform Sample.pairBackend Sample.handshakeOk Sample.opensSealed
    Sample.keysAgree Sample.pairClient Sample.pairServer .ed25519 Sample.pairSpki 32 Sample.certPair
    (7 : Nat) (100 : Nat) ?_ .zero .zero 2 2 (Nat.le_refl 2) (Nat.le_refl 2) 2000 (by decide)
    (by decide) (by decide) (Sample.earlySend 13) c hc
  intro b g h
  obtain ⟨hb, -⟩ := Prod.mk.inj (Option.some.inj h)
  rw [← hb]
  decide

end WolfNano
