/-
The write keys of an endpoint's whole life: its handshake key, the first application key, and one
key for each update of the application secret, generation after generation, also when an update
fails half-way.  They are different unless HKDF-Expand-Label has a collision among the endpoint's
own inputs, and then no key and nonce are used twice.
-/
import WolfNano.NonceReuse
import WolfNano.Duplex.Ratchet

namespace WolfNano

open Duplex

/-! ### The schedule -/

/-- What `wn_Tls13_ExpandLabel` is called with. -/
structure ExpandCall where
  okmLen : Nat
  secret : Bytes
  label : String
  info : Bytes
  deriving DecidableEq

/-- The label of the secret an endpoint protects its handshake flight with. -/
def Role.hsLabel (role : Role) : String :=
  if role = .client then "c hs traffic" else "s hs traffic"

/-- The label of the secret an endpoint starts its application data with. -/
def Role.apLabel (role : Role) : String :=
  if role = .client then "c ap traffic" else "s ap traffic"

/-- Where the write secrets of a connection start: the handshake and the master secret, with the
transcript hashes. -/
structure WriteSchedule where
  role : Role
  hs : Bytes
  helloHash : Bytes
  master : Bytes
  finishedHash : Bytes

variable (P : Platform)

def WriteSchedule.ratchet (W : WriteSchedule) : Ratchet ExpandCall Bytes where
  expand call := (tls13ExpandLabel P call.okmLen call.secret call.label call.info .sha256).toOption
  first := ⟨32, W.hs, W.role.hsLabel, W.helloHash⟩
  second := ⟨32, W.master, W.role.apLabel, W.finishedHash⟩
  update secret := ⟨32, secret, "traffic upd", []⟩
  keyInput secret := ⟨16, secret, "key", []⟩
  update_injective _ _ h := congrArg ExpandCall.secret h
  keyInput_injective _ _ h := congrArg ExpandCall.secret h
  first_ne_second h := by
    have hlabel : W.role.hsLabel = W.role.apLabel := congrArg ExpandCall.label h
    cases hrole : W.role <;> simp [hrole, Role.hsLabel, Role.apLabel] at hlabel
  update_ne_first _ h := by
    have hlabel : "traffic upd" = W.role.hsLabel := congrArg ExpandCall.label h
    cases hrole : W.role <;> simp [hrole, Role.hsLabel] at hlabel
  update_ne_second _ h := by
    have hlabel : "traffic upd" = W.role.apLabel := congrArg ExpandCall.label h
    cases hrole : W.role <;> simp [hrole, Role.apLabel] at hlabel

/-- The sample platform's derivation adds numbers up, which come to different sums here. -/
example :
    ((⟨.server, [1], [2], [3], [4]⟩ : WriteSchedule).ratchet Sample.platform).Fresh 4 := by
  decide +kernel

/-- The keys a run installs. -/
def installed (tr : List (Act Ev)) : List Bytes :=
  (KeyLog.installs (keyLog P (notes tr))).map Prod.fst

variable {P} {W : WriteSchedule}

theorem installed_append (tr tr' : List (Act Ev)) :
    installed P (tr ++ tr') = installed P tr ++ installed P tr' := by
  unfold installed keyLog
  rw [notes_append, List.filterMap_append, KeyLog.installs_append, List.map_append]

theorem installed_eq_nil {tr : List (Act Ev)}
    (h : ∀ e ∈ notes tr, ∀ k, keyEv? P e ≠ some (.install k)) : installed P tr = [] := by
  have hnone : ∀ k, .install k ∉ keyLog P (notes tr) := by
    intro k hk
    obtain ⟨e, he, hinstall⟩ := List.mem_filterMap.1 hk
    exact h e he k hinstall
  rw [installed, KeyLog.installs_eq_nil hnone]
  rfl

/-- A step of the ratchet is a call of HKDF-Expand-Label. -/
theorem expand_eq_some {n : Nat} {secret info okm : Bytes} {label : String} :
    (W.ratchet P).expand ⟨n, secret, label, info⟩ = some okm ↔
      tls13ExpandLabel P n secret label info .sha256 = .ok okm := by
  change (tls13ExpandLabel P n secret label info .sha256).toOption = some okm ↔ _
  cases tls13ExpandLabel P n secret label info .sha256 with
  | error e => simp [Except.toOption]
  | ok okm' => simp [Except.toOption]

/-! ### The session -/

/-- The session writes with the secret of generation `n + 1`, and may have its key. -/
def Session.AtGeneration (P : Platform) (W : WriteSchedule) (n : Nat) (s : Session) : Prop :=
  (W.ratchet P).secret (n + 1) = some s.cAppSecret ∧ s.digest = .sha256

/-- From generation on the session installs keys of later ones. -/
def Turns (P : Platform) (W : WriteSchedule) (s : Session) (tr : List (Act Ev)) (s' : Session) :
    Prop :=
  ∀ n, s.AtGeneration P W n → ∃ n', (W.ratchet P).Advances (n + 2) (installed P tr) (n' + 2) ∧
    s'.AtGeneration P W n'

/-- Two parts of a run, one after the other: the generations add up. -/
theorem Turns.trans {s s₁ s' : Session} {tr tr' : List (Act Ev)} (h : Turns P W s tr s₁)
    (h' : Turns P W s₁ tr' s') : Turns P W s (tr ++ tr') s' := by
  intro n hn
  obtain ⟨n₁, hadv, hn₁⟩ := h n hn
  obtain ⟨n', hadv', hn'⟩ := h' n₁ hn₁
  exact ⟨n', by rw [installed_append]; exact hadv.trans hadv', hn'⟩

/-- What installs no key and keeps the write secret stays at its generation. -/
theorem Turns.quiet {s s' : Session} {tr : List (Act Ev)} (hsecret : s'.cAppSecret = s.cAppSecret)
    (hdigest : s'.digest = s.digest) (h : ∀ e ∈ notes tr, ∀ k, keyEv? P e ≠ some (.install k)) :
    Turns P W s tr s' := by
  rintro n ⟨hn, hsha⟩
  refine ⟨n, ?_, by rw [hsecret]; exact hn, hdigest.trans hsha⟩
  rw [installed_eq_nil h]
  exact .skip le_rfl

/-- An update replaces the secret by that of the next generation, and then the key; when the first
step fails both stay, when the second fails the key does. -/
theorem tls13KeyUpdate_turns {t t' : TrafficKeys} {ret : Ret}
    (h : tls13KeyUpdate P t .sha256 = (ret, t')) {n : Nat}
    (hn : (W.ratchet P).secret (n + 1) = some t.secret) :
    (t'.secret = t.secret ∧ t'.key = t.key ∧ ret ≠ .ok ()) ∨
      (W.ratchet P).secret (n + 2) = some t'.secret ∧
        (t'.key = t.key ∧ ret ≠ .ok () ∨ (W.ratchet P).key (n + 2) = some t'.key) := by
  have hnext : ∀ {secret : Bytes},
      tls13ExpandLabel P (digestSize P .sha256) t.secret "traffic upd" [] .sha256 = .ok secret →
      (W.ratchet P).secret (n + 2) = some secret := fun hexpand =>
    Option.bind_eq_some_iff.2 ⟨t.secret, hn, expand_eq_some.2 hexpand⟩
  have hkey : ∀ {secret key : Bytes}, (W.ratchet P).secret (n + 2) = some secret →
      tls13ExpandLabel P 16 secret "key" [] .sha256 = .ok key →
      (W.ratchet P).key (n + 2) = some key := fun hsecret hexpand =>
    Option.bind_eq_some_iff.2 ⟨_, hsecret, expand_eq_some.2 hexpand⟩
  unfold tls13KeyUpdate at h
  split at h
  · cases h
    exact .inl ⟨rfl, rfl, by simp⟩
  · split at h
    · cases h
      exact .inl ⟨rfl, rfl, by simp⟩
    · rename_i secret hsecret
      split at h
      · cases h
        exact .inr ⟨hnext hsecret, .inl ⟨rfl, by simp⟩⟩
      · rename_i key hexpand
        split at h
        · cases h
          exact .inr ⟨hnext hsecret, .inr (hkey (hnext hsecret) hexpand)⟩
        · cases h
          exact .inr ⟨hnext hsecret, .inr (hkey (hnext hsecret) hexpand)⟩

/-- The rotation, also when it fails half-way: the session stays at its generation or is
at the next one, and a key that is installed is the key of that. -/
theorem rotateWrite_turns {s s' : Session} {tr : List (Act Ev)} {ret : Ret}
    (h : (rotateWrite P s).Runs tr (ret, s')) : Turns P W s tr s' := by
  rintro n ⟨hn, hsha⟩
  have hskip : ∀ {n'}, n ≤ n' → (W.ratchet P).Advances (n + 2) (installed P []) (n' + 2) :=
    fun hle => .skip (Nat.add_le_add_right hle 2)
  unfold rotateWrite at h
  rw [hsha] at h
  split at h
  · rename_i t hupd
    simp only [Proc.runs_seq, Proc.runs_emit, Proc.runs_pure, Prod.mk.injEq] at h
    obtain ⟨-, _, _, rfl, rfl, rfl, rfl, rfl⟩ := h
    rcases tls13KeyUpdate_turns hupd hn with ⟨-, -, hret⟩ | ⟨hsecret, ⟨-, hret⟩ | hkey⟩
    · exact absurd rfl hret
    · exact absurd rfl hret
    · exact ⟨n + 1, .one hkey, hsecret, hsha⟩
  · rename_i e t hupd
    split at h
    · rename_i hne
      simp only [Proc.runs_seq, Proc.runs_emit, Proc.runs_pure, Prod.mk.injEq] at h
      obtain ⟨-, _, _, rfl, rfl, rfl, rfl, rfl⟩ := h
      rcases tls13KeyUpdate_turns hupd hn with ⟨-, hsame, -⟩ | ⟨hsecret, ⟨hsame, -⟩ | hkey⟩
      · exact absurd hsame hne
      · exact absurd hsame hne
      · exact ⟨n + 1, .one hkey, hsecret, hsha⟩
    · simp only [Proc.runs_pure, Prod.mk.injEq] at h
      obtain ⟨rfl, rfl, rfl⟩ := h
      rcases tls13KeyUpdate_turns hupd hn with ⟨hsame, -, -⟩ | ⟨hsecret, -⟩
      · exact ⟨n, hskip le_rfl, hn.trans (congrArg some hsame.symm), hsha⟩
      · exact ⟨n + 1, hskip n.le_succ, hsecret, hsha⟩

/-- The answer to a KeyUpdate rotates once its record was sent. -/
theorem sendKeyUpdate_turns {s s' : Session} {tr : List (Act Ev)} {ret : Ret}
    (h : (sendKeyUpdate P s).Runs tr (ret, s')) : Turns P W s tr s' := by
  rcases sendKeyUpdate_runs h with ⟨-, rfl, -, rfl⟩ | ⟨rec, -, ⟨r, -, rfl, -, rfl⟩ | ⟨t, rfl, hrot⟩⟩
  · exact .quiet rfl rfl (by simp [Session.keyUpdateEv, keyEv?])
  · exact .quiet rfl rfl (by simp [Session.keyUpdateEv, keyEv?])
  · have hsent : Turns P W s [.note s.keyUpdateEv, .sent rec rec.length] s.countSent :=
      .quiet rfl rfl (by simp [Session.keyUpdateEv, keyEv?])
    exact hsent.trans (rotateWrite_turns hrot)

/-- By induction on the messages of a record, each of which rotates at most once. -/
theorem sessionPosths_turns {s s' : Session} {msg : Bytes} {tr : List (Act Ev)} {ret : Ret}
    (h : (sessionPosths P s msg).Runs tr (ret, s')) : Turns P W s tr s' :=
  posthsLoop_induction
    (fun _ _ hs => .quiet (congrArg TrafficKeys.secret hs.writeKeys) hs.frame.digest (by simp))
    (fun _ _ _ _ => sendKeyUpdate_turns) (fun _ _ _ _ _ => .trans) h

/-- One record of `wn_Recv`: only post-handshake messages rotate. -/
theorem recvOne_turns {s s' : Session} {outCap : Nat} {tr : List (Act Ev)}
    {x : Except Err (Option Bytes)} (h : RecvOne P s outCap tr x s') : Turns P W s tr s' := by
  cases h with
  | unread hfail => exact .quiet rfl rfl (by simp [(recvRecord_fails hfail).1])
  | ccs => exact .quiet rfl rfl (by simp)
  | short => exact .quiet rfl rfl (by simp)
  | unopened => exact .quiet rfl rfl (by simp [Session.openEv, keyEv?])
  | @opened rec contentType plain tr x s' hfits hccs hlen hopen hhandled =>
      have hread : Turns P W s (rec.reads ++ [.note (s.openEv rec.bytes)]) s.countRead :=
        .quiet rfl rfl (by simp [Session.openEv, keyEv?])
      have hhandle : Turns P W s.countRead tr s' := by
        cases hhandled with
        | deliver => exact .quiet rfl rfl (by simp [keyEv?])
        | refuse => exact .quiet rfl rfl (by simp)
        | posths hrun => exact sessionPosths_turns hrun
        | closeNotify => exact .quiet rfl rfl (by simp)
        | alert => exact .quiet rfl rfl (by simp)
        | other => exact .quiet rfl rfl (by simp)
      simpa using hread.trans hhandle

/-- By induction on the records one call reads. -/
theorem recvMany_turns {s s' : Session} {outCap : Nat} {tr : List (Act Ev)} {x : Except Err Bytes}
    (h : RecvMany P outCap s tr x s') : Turns P W s tr s' := by
  induction h with
  | stop hone => exact recvOne_turns hone
  | data hone => exact recvOne_turns hone
  | skip hone _ ih => exact (recvOne_turns hone).trans ih

/-- An established session has its place in the schedule. -/
def Session.Placed (P : Platform) (W : WriteSchedule) (n : Nat) (s : Session) : Prop :=
  s.established = true → ∃ m, n = m + 2 ∧ s.AtGeneration P W m

/-- From a session at generation `n` a run installs keys of later generations, one after
the other, and leaves the session at the last of them. -/
theorem Turns.placed {s s' : Session} {tr : List (Act Ev)} (h : Turns P W s tr s')
    (hest : s.established = true) {n : Nat} (hs : s.Placed P W n) :
    ∃ n', (W.ratchet P).Advances n (installed P tr) n' ∧ s'.Placed P W n' := by
  obtain ⟨m, rfl, hm⟩ := hs hest
  obtain ⟨m', hadv, hm'⟩ := h m hm
  exact ⟨m' + 2, hadv, fun _ => ⟨m', rfl, hm'⟩⟩

/-- One call of an endpoint, whichever it is. -/
theorem Call.Runs.turns {call : Call} {s s' : Session} {tr : List (Act Ev)} {ret : Ret}
    {data : Option Bytes} (h : call.Runs P s tr ret data s') {n : Nat} (hs : s.Placed P W n) :
    ∃ n', (W.ratchet P).Advances n (installed P tr) n' ∧ s'.Placed P W n' := by
  cases h with
  | send hrun =>
      rcases wnSend_runs hrun with ⟨rfl, rfl, -⟩ | ⟨buf, -, hcheck, -, -, hsend⟩
      · exact ⟨n, .skip le_rfl, hs⟩
      · refine Turns.placed ?_ (Session.check_ok.1 hcheck).1 hs
        rcases hsend with ⟨-, rfl, -, rfl⟩ | ⟨rec, r, -, rfl, rfl, -⟩
        · exact .quiet rfl rfl (by simp [Session.sendEv, keyEv?])
        · exact .quiet rfl rfl (by simp [Session.sendEv, keyEv?])
  | recv hrun =>
      rcases wnRecv_runs hrun with ⟨rfl, e, heq, -⟩ |
        ⟨buf, k, x, s₁, -, -, hcheck, hmany, ⟨e, -, heq⟩ | ⟨plain, -, heq⟩⟩
      · cases heq
        exact ⟨n, .skip le_rfl, hs⟩
      · cases heq
        exact (recvMany_turns hmany).placed (Session.check_ok.1 hcheck).1 hs
      · cases heq
        exact (recvMany_turns hmany).placed (Session.check_ok.1 hcheck).1 hs
  | close hrun =>
      obtain ⟨rfl, htr⟩ := wnClose_runs hrun
      have hnone : installed P tr = [] := by
        refine installed_eq_nil ?_
        rcases htr with rfl | ⟨-, rfl | ⟨rec, r, rfl⟩⟩ <;> simp [Session.closeEv, keyEv?]
      exact ⟨n, hnone ▸ .skip le_rfl, fun hest => absurd hest (by decide)⟩

/-- By induction on the calls. -/
theorem SessionRun.turns {s s' : Session} {calls : List CallSeen} (h : SessionRun P s calls s')
    {n : Nat} (hs : s.Placed P W n) :
    ∃ n', (W.ratchet P).Advances n (installed P (runTrace calls)) n' ∧ s'.Placed P W n' := by
  induction h generalizing n with
  | nil => exact ⟨n, .skip le_rfl, hs⟩
  | cons hcall hrest ih =>
      obtain ⟨n₁, hadv, hs₁⟩ := hcall.turns hs
      obtain ⟨n', hadv', hs'⟩ := ih hs₁
      refine ⟨n', ?_, hs'⟩
      rw [runTrace, List.flatMap_cons, installed_append]
      exact hadv.trans hadv'

/-! ### The handshake -/

/-- No key yet, or the handshake key of the role. -/
def HsInstalled (P : Platform) (role : Role) (ks : List Bytes) : Prop :=
  ks = [] ∨ ∃ hs th secret key, tls13DeriveSecret P hs role.hsLabel th 32 .sha256 = .ok secret ∧
    tls13ExpandLabel P 16 secret "key" [] .sha256 = .ok key ∧ ks = [key]

/-- The handshake write keys of both roles, each the one key its opening installs. -/
theorem deriveHsKeys_installed {early ecdhe emptyHash th : Bytes} {keys : HsKeys}
    (h : deriveHsKeys P early ecdhe emptyHash th = .ok keys) :
    HsInstalled P .client [keys.cKey] ∧ HsInstalled P .server [keys.sKey] := by
  simp only [deriveHsKeys, except_bind_eq_ok, except_pure_eq_ok] at h
  obtain ⟨_, -, hs, -, cHs, hcHs, sHs, hsHs, cKey, hcKey, _, -, sKey, hsKey, _, -, rfl⟩ := h
  exact ⟨.inr ⟨hs, th, cHs, cKey, hcHs, hcKey, rfl⟩, .inr ⟨hs, th, sHs, sKey, hsHs, hsKey, rfl⟩⟩

/-- No run of the program installs a key. -/
abbrev Installless {α : Type} (P : Platform) (p : Shell α) : Prop :=
  Prog.Notes (fun e => ∀ k, keyEv? P e ≠ some (.install k)) p

/-- Every run of the program installs the handshake key at most once, and no other. -/
abbrev Opening {α : Type} (P : Platform) (role : Role) (p : Shell α) : Prop :=
  Prog.Safe (fun ks tr ks' => ks' = ks ++ installed P tr) [] p (fun _ => HsInstalled P role)
    fun _ => HsInstalled P role

variable {α β : Type} {role : Role} {p : Shell α} {f : α → Shell β}

theorem grows_append (ks ks₁ ks' : List Bytes) (tr tr' : List (Act Ev))
    (h : ks₁ = ks ++ installed P tr) (h' : ks' = ks₁ ++ installed P tr') :
    ks' = ks ++ installed P (tr ++ tr') := by
  rw [h', h, installed_append, List.append_assoc]

/-- A program that notes no key installs none. -/
theorem Quiet.installless (h : Quiet p) : Installless P p :=
  Proc.Notes.mono h fun e he k hk => by simp [keyEv?_quiet (P := P) he] at hk

/-- The monitor of installed keys stays where it is over such a program. -/
theorem Installless.safe (h : Installless P p) (ks : List Bytes) :
    Prog.Safe (fun ks tr ks' => ks' = ks ++ installed P tr) ks p (fun _ ks' => ks' = ks)
      fun _ ks' => ks' = ks := by
  have hnil : ∀ {tr : List (Act Ev)}, (∀ e ∈ notes tr, ∀ k, keyEv? P e ≠ some (.install k)) →
      ks = ks ++ installed P tr := fun hnone => by rw [installed_eq_nil hnone, List.append_nil]
  exact ⟨fun tr a hok => ⟨ks, hnil (hok.notes h), rfl⟩,
    fun tr e hfail => ⟨ks, hnil (hfail.notes h), rfl⟩⟩

/-- A part that installs nothing before one that installs the handshake key. -/
theorem Installless.then_opening (h : Installless P p) (hf : ∀ a, Opening P role (f a)) :
    Opening P role (p >>= f) :=
  Prog.Safe.bind grows_append ((h.safe []).mono (fun _ _ heq => heq) fun _ _ heq => .inl heq)
    fun a _ heq => heq ▸ hf a

theorem Opening.lift_then {x : Except Err α} (hf : ∀ a, x = .ok a → Opening P role (f a)) :
    Opening P role (Prog.lift x >>= f) :=
  Prog.Safe.bind grows_append (.lift rfl fun _ => .inl rfl) fun a _ heq => heq.1 ▸ hf a heq.2

/-- The installation of the handshake key, followed by a rest without one. -/
theorem Opening.install_then {key iv : Bytes} {f : Unit → Shell β}
    (hkey : HsInstalled P role [key]) (hf : Installless P (f ())) :
    Opening P role (Prog.note (.writeKey key iv) >>= f) := by
  refine Prog.Safe.bind grows_append (Q := fun _ ks => ks = [key]) ?_ fun _ ks heq => ?_
  · refine ⟨fun tr a hok => ?_, fun tr e hfail => absurd hfail Prog.fails_note⟩
    obtain rfl := Prog.ok_note.1 hok
    exact ⟨_, rfl, rfl⟩
  · subst heq
    exact (hf.safe [key]).mono (fun _ _ heq => heq ▸ hkey) fun _ _ heq => heq ▸ hkey

theorem recordProtect_installless {cap : Nat} {key iv : Bytes} {seq : UInt64} {contentType : UInt8}
    {content : Bytes} : Installless P (recordProtect P cap key iv seq contentType content) :=
  .bind .failIf fun _ => .bind (.note (by simp [keyEv?])) fun _ => .orFail

theorem sendClientFinished_installless {cap : Nat} {keys : HsKeys} {mac : Bytes} :
    Installless P (sendClientFinished P cap keys mac) :=
  .bind recordProtect_installless fun _ => sendRecord_notes

/-- The PSK client installs its handshake key once, behind the ServerHello. -/
theorem connectPskBody_opening {fuel : Nat} {rng : P.Rng} {args : PskArgs} :
    Opening P .client (connectPskBody P fuel rng args) := by
  refine Installless.then_opening .lift fun start => ?_
  refine Installless.then_opening .lift fun ⟨early, hello⟩ => ?_
  refine Installless.then_opening .lift fun tc => ?_
  refine Installless.then_opening sendPlainRecord_notes fun _ => ?_
  refine Installless.then_opening sendPlainRecord_notes fun _ => ?_
  refine Installless.then_opening recvServerHello_notes fun ⟨tc, ecdhe⟩ => ?_
  refine Installless.then_opening .lift fun th => ?_
  refine Opening.lift_then fun keys hkeys => ?_
  refine Opening.install_then (deriveHsKeys_installed hkeys).1 ?_
  exact .bind pskFlight_quiet.installless fun _ => .bind .lift fun _ => .bind .lift fun _ =>
    .bind sendClientFinished_installless fun _ => .pure

/-- So does the certificate client. -/
theorem connectCertHello_opening {fuel : Nat} {rng : P.Rng} {args : CertArgs} :
    Opening P .client (connectCertHello P fuel rng args) := by
  refine Installless.then_opening .lift fun start => ?_
  refine Installless.then_opening .lift fun hello => ?_
  refine Installless.then_opening .lift fun tc => ?_
  refine Installless.then_opening sendPlainRecord_notes fun _ => ?_
  refine Installless.then_opening sendPlainRecord_notes fun _ => ?_
  refine Installless.then_opening recvServerHello_notes fun ⟨tc, ecdhe⟩ => ?_
  refine Installless.then_opening .lift fun th => ?_
  refine Installless.then_opening .lift fun early => ?_
  refine Opening.lift_then fun keys hkeys => ?_
  exact Opening.install_then (deriveHsKeys_installed hkeys).1 .pure

theorem sendPskFlight_installless {scratchLen : Nat} {keys : HsKeys} {tc : Transcript} :
    Installless P (sendPskFlight P scratchLen keys tc) :=
  .bind .lift fun _ => .bind .lift fun _ => .bind .lift fun _ => .bind .lift fun _ =>
    .bind (.note (by simp [keyEv?])) fun _ => .bind .lift fun _ =>
      .bind recordProtect_installless fun _ => .bind sendRecord_notes fun _ => .pure

/-- The PSK server installs its handshake key once, before its flight. -/
theorem acceptPskBody_opening {fuel : Nat} {rng : P.Rng} {args : PskArgs} :
    Opening P .server (acceptPskBody P fuel rng args) := by
  refine Installless.then_opening .lift fun ⟨tc, emptyHash, random32, rng⟩ => ?_
  refine Installless.then_opening acceptHello_quiet.installless fun hello => ?_
  refine Installless.then_opening .lift fun ⟨early, tc⟩ => ?_
  refine Installless.then_opening sendServerHello_notes fun ⟨tc, ecdhe, _⟩ => ?_
  refine Installless.then_opening .lift fun th => ?_
  refine Opening.lift_then fun keys hkeys => ?_
  refine Opening.install_then (deriveHsKeys_installed hkeys).2 ?_
  exact .bind sendPskFlight_installless fun _ => .bind .lift fun _ => .pure

theorem sendCertFlight_installless {args : ServerCertArgs} {keys : HsKeys} {tc : Transcript}
    {rng : P.Rng} : Installless P (sendCertFlight P args keys tc rng) :=
  .bind .lift fun _ => .bind .lift fun _ => .bind .lift fun _ => .bind .lift fun _ =>
    .bind .lift fun _ => .bind .lift fun _ => .bind .lift fun _ => .bind .lift fun _ =>
      .bind .lift fun _ => .bind .failIf fun _ => .bind (.note (by simp [keyEv?])) fun _ =>
        .bind .lift fun _ => .bind recordProtect_installless fun _ =>
          .bind sendRecord_notes fun _ => .pure

/-- So does the certificate server. -/
theorem acceptCertBody_opening {fuel : Nat} {rng : P.Rng} {args : ServerCertArgs} :
    Opening P .server (acceptCertBody P fuel rng args) := by
  refine Installless.then_opening .lift fun ⟨tc, emptyHash, random32, rng⟩ => ?_
  refine Installless.then_opening acceptHello_quiet.installless fun hello => ?_
  refine Installless.then_opening .failIf fun _ => ?_
  refine Installless.then_opening .lift fun tc => ?_
  refine Installless.then_opening sendServerHello_notes fun ⟨tc, ecdhe, rng⟩ => ?_
  refine Installless.then_opening .lift fun early => ?_
  refine Installless.then_opening .lift fun th => ?_
  refine Opening.lift_then fun keys hkeys => ?_
  refine Opening.install_then (deriveHsKeys_installed hkeys).2 ?_
  exact .bind sendCertFlight_installless fun _ => .bind .lift fun _ => .pure

/-! ### Whole handshakes -/

/-- The session was filled in from the schedule of its role. -/
def Session.Established (P : Platform) (role : Role) (s : Session) : Prop :=
  ∃ peerLabel sess hs emptyHash zeros32 th scratchLen,
    sessionEstablishWith P role.apLabel peerLabel sess hs emptyHash zeros32 th scratchLen =
    (.ok (), s)

/-- What follows the body of a driver installs nothing and leaves the session unused, or
installs the first application key. -/
def Closing (P : Platform) (role : Role) (tr : List (Act Ev)) (s : Session) : Prop :=
  (installed P tr = [] ∧ s.established = false) ∨
    ∃ s₁, installed P tr = [s₁.cKey] ∧ s₁.Established P role ∧ (s = s₁ ∨ s.established = false)

/-- A handshake's place in a schedule: an established session is at the start of the application
data. -/
def Born (P : Platform) (role : Role) (tr : List (Act Ev)) (s : Session) : Prop :=
  ∃ W n, W.role = role ∧ (W.ratchet P).Advances 0 (installed P tr) n ∧
    (s.established = true → n = 2 ∧ s.AtGeneration P W 0)

/-- The handshake key as the first of a schedule that is open behind it. -/
theorem HsInstalled.advances {ks : List Bytes} (h : HsInstalled P role ks) :
    ∃ hs th, ∀ master finishedHash,
      ((⟨role, hs, th, master, finishedHash⟩ : WriteSchedule).ratchet P).Advances 0 ks 1 := by
  obtain rfl | ⟨hs, th, secret, key, hsecret, hkey, rfl⟩ := h
  · exact ⟨[], [], fun _ _ => .skip (Nat.zero_le 1)⟩
  · refine ⟨hs, th, fun master finishedHash => .one ?_⟩
    have hexpand : tls13ExpandLabel P 32 hs role.hsLabel th .sha256 = .ok secret := hsecret
    exact Option.bind_eq_some_iff.2 ⟨secret, expand_eq_some.2 hexpand, expand_eq_some.2 hkey⟩

/-- An established session: its write key is the key of generation 1 of a schedule, and
its write secret the one to update, whatever the handshake secret was. -/
theorem Session.Established.secret {s : Session} (h : s.Established P role) :
    ∃ master finishedHash, ∀ hs helloHash,
      ((⟨role, hs, helloHash, master, finishedHash⟩ : WriteSchedule).ratchet P).key 1 =
      some s.cKey ∧
        s.AtGeneration P ⟨role, hs, helloHash, master, finishedHash⟩ 0 := by
  obtain ⟨peerLabel, sess, hs, emptyHash, zeros32, th, scratchLen, hest⟩ := h
  obtain ⟨our, peer, hsecrets, rfl⟩ := sessionEstablishWith_ok.1 hest
  simp only [appSecrets, appTraffic, except_bind_eq_ok, except_pure_eq_ok] at hsecrets
  obtain ⟨_, -, master, -, _, ⟨secret, hsecret, key, hkey, _, -, rfl⟩, _, -, heq⟩ := hsecrets
  cases heq
  have hexpand : tls13ExpandLabel P 32 master role.apLabel th .sha256 = .ok secret := hsecret
  exact ⟨master, th, fun hs helloHash => ⟨Option.bind_eq_some_iff.2
    ⟨secret, expand_eq_some.2 hexpand, expand_eq_some.2 hkey⟩, expand_eq_some.2 hexpand, rfl⟩⟩

/-- A part that installs nothing, and ends without a session. -/
theorem Closing.unused {tr : List (Act Ev)} {s : Session}
    (h : ∀ e ∈ notes tr, ∀ k, keyEv? P e ≠ some (.install k)) (hs : s.established = false) :
    Closing P role tr s := .inl ⟨installed_eq_nil h, hs⟩

/-- A part that installs nothing before the end of a handshake. -/
theorem Closing.append {tr tr' : List (Act Ev)} {s : Session}
    (h : ∀ e ∈ notes tr, ∀ k, keyEv? P e ≠ some (.install k)) (h' : Closing P role tr' s) :
    Closing P role (tr ++ tr') s := by
  unfold Closing at *
  rwa [installed_append, installed_eq_nil h, List.nil_append]

/-- After the body of a driver. -/
theorem Closing.born {tr tr' : List (Act Ev)} {s : Session}
    (h : HsInstalled P role (installed P tr)) (h' : Closing P role tr' s) :
    Born P role (tr ++ tr') s := by
  obtain ⟨hs, helloHash, hadv⟩ := h.advances
  unfold Born
  rw [installed_append]
  obtain ⟨hnil, hunused⟩ | ⟨s₁, hkey, hest, hs₁⟩ := h'
  · rw [hnil, List.append_nil]
    exact ⟨⟨role, hs, helloHash, [], []⟩, 1, rfl, hadv [] [],
      fun hest => absurd hest (by simp [hunused])⟩
  · obtain ⟨master, finishedHash, hplace⟩ := hest.secret
    obtain ⟨hkey₁, hat⟩ := hplace hs helloHash
    refine ⟨⟨role, hs, helloHash, master, finishedHash⟩, 2, rfl, ?_, fun hest => ⟨rfl, ?_⟩⟩
    · rw [hkey]
      exact (hadv master finishedHash).trans (.one hkey₁)
    · rcases hs₁ with rfl | hunused
      · exact hat
      · exact absurd hest (by simp [hunused])

/-- A driver that refuses its arguments. -/
theorem born_refused {s : Session} (hs : s.established = false) : Born P role [] s := by
  have hnil : HsInstalled P role (installed P []) := .inl rfl
  exact Closing.born hnil (.unused (by simp) hs)

/-- A driver wipes the session when its body fails, and goes on from what it returns. -/
theorem Opening.born {k : Except Err α → Proc Ev (Ret × Session)} (h : Opening P role p)
    (herr : ∀ e, k (.error e) = pure (.error e, .zero))
    (hok : ∀ a tr x, (k (.ok a)).Runs tr x → Closing P role tr x.2) {tr : List (Act Ev)} {ret : Ret}
    {s : Session} (hrun : (p.run >>= k).Runs tr (ret, s)) : Born P role tr s := by
  rw [Prog.runs_run_bind] at hrun
  rcases hrun with ⟨e, _, _, rfl, hfail, hrest⟩ | ⟨a, _, _, rfl, hbody, hrest⟩
  · rw [herr] at hrest
    obtain ⟨rfl, heq⟩ := hrest
    cases heq
    obtain ⟨_, rfl, hks⟩ := h.2 _ _ hfail
    exact Closing.born hks (.unused (by simp) rfl)
  · obtain ⟨_, rfl, hks⟩ := h.1 _ _ hbody
    exact Closing.born hks (hok _ _ _ hrest)

/-- The end of a client: the application key is installed with the session or not at all.
-/
theorem establishClient_closing {keys : HsKeys} {emptyHash th : Bytes} {scratchLen : Nat}
    {tr : List (Act Ev)} {ret : Ret} {sess : Session}
    (h : (establishClient P keys emptyHash th scratchLen).Runs tr (ret, sess)) :
    Closing P .client tr sess ∧ (ret ≠ .ok () → tr = [] ∧ sess.established = false) := by
  unfold establishClient at h
  split at h
  · rename_i e sess' hest
    obtain ⟨rfl, heq⟩ := h
    cases heq
    have hclear : sess.established = false := (sessionEstablishWith_error hest).2.1
    exact ⟨.unused (by simp) hclear, fun _ => ⟨rfl, hclear⟩⟩
  · rename_i sess' hest
    simp only [Proc.runs_seq, Proc.runs_emit, Proc.runs_pure, Prod.mk.injEq] at h
    obtain ⟨_, _, _, rfl, rfl, rfl, rfl, rfl⟩ := h
    exact ⟨.inr ⟨sess', rfl, ⟨_, _, _, _, _, _, _, hest⟩, .inl rfl⟩, fun hne => absurd rfl hne⟩

theorem sendAlert_installless {keys : HsKeys} {seq : UInt64} {e : Err} :
    (sendAlert P keys seq e).Notes fun e => ∀ k, keyEv? P e ≠ some (.install k) := by
  unfold sendAlert
  split
  · refine Proc.notes_bind recordProtect_installless fun x => ?_
    cases x with
    | error e => trivial
    | ok rec => exact fun _ => trivial
  · trivial

/-- The PSK client over its whole run: no key, the handshake key, or that and the
application key of the session it leaves. -/
theorem connectPskEx_born {fuel : Nat} {rng : P.Rng} {args : PskArgs} {sess sess' : Session}
    {tr : List (Act Ev)} {ret : Ret} (hstart : args.connectOk = true ∨ sess.established = false)
    (h : (connectPskEx P fuel rng args sess).Runs tr (ret, sess')) : Born P .client tr sess' := by
  unfold connectPskEx at h
  split at h
  · rename_i hargs
    obtain ⟨rfl, heq⟩ := h
    cases heq
    exact born_refused (hstart.resolve_left (by simp [hargs]))
  · exact connectPskBody_opening.born (fun _ => rfl)
      (fun _ _ _ hrest => (establishClient_closing hrest).1) h

/-- After its hello the certificate client has many ways out, most of them with an alert. -/
theorem connectCertImpl_born {X : X509Backend} {fuel : Nat} {rng : P.Rng} {args : CertArgs}
    {sess sess' : Session} {tr : List (Act Ev)} {ret : Ret}
    (hstart : args.connectOk P.build = true ∨ sess.established = false)
    (h : (connectCertImpl P X fuel rng args sess).Runs tr (ret, sess')) :
    Born P .client tr sess' := by
  unfold connectCertImpl at h
  split at h
  · rename_i hargs
    obtain ⟨rfl, heq⟩ := h
    cases heq
    exact born_refused (hstart.resolve_left (by simp [hargs]))
  · refine connectCertHello_opening.born (fun _ => rfl) (fun x tr₂ y hrest => ?_) h
    obtain ⟨keys, emptyHash, tc⟩ := x
    simp only at hrest
    rw [Prog.runs_run_bind] at hrest
    rcases hrest with ⟨e, tr₃, _, rfl, hfail, hrest⟩ | ⟨⟨th, mac⟩, tr₃, _, rfl, hok, hrest⟩
    · refine .append (hfail.notes connectCertFlight_quiet.installless) ?_
      simp only [Proc.runs_seq] at hrest
      obtain ⟨_, tr₄, _, rfl, halert, rfl, rfl⟩ := hrest
      exact .append (halert.notes sendAlert_installless) (.unused (by simp) rfl)
    · refine .append (hok.notes connectCertFlight_quiet.installless) ?_
      simp only at hrest
      rw [Prog.runs_run_bind] at hrest
      rcases hrest with ⟨e, tr₄, _, rfl, hfail, hrest⟩ | ⟨_, tr₄, _, rfl, hok, hrest⟩
      · refine .append (hfail.notes sendClientFinished_installless) ?_
        simp only [Proc.runs_seq] at hrest
        obtain ⟨_, tr₅, _, rfl, halert, rfl, rfl⟩ := hrest
        exact .append (halert.notes sendAlert_installless) (.unused (by simp) rfl)
      · refine .append (hok.notes sendClientFinished_installless) ?_
        simp only [Proc.runs_seq] at hrest
        obtain ⟨⟨ret', sess₁⟩, tr₅, _, rfl, hestablish, hrest⟩ := hrest
        obtain ⟨hclosing, hfailed⟩ := establishClient_closing hestablish
        cases ret' with
        | error e =>
            obtain ⟨rfl, hclear⟩ := hfailed (by simp)
            simp only [Proc.runs_seq] at hrest
            obtain ⟨_, tr₆, _, rfl, halert, rfl, rfl⟩ := hrest
            refine .append (by simp) (.append (halert.notes sendAlert_installless) ?_)
            exact .unused (by simp) hclear
        | ok u =>
            obtain ⟨rfl, rfl⟩ := hrest
            rwa [List.append_nil]

/-- The end of a server installs the application key, and wipes the session again when the
client's Finished is wrong. -/
theorem establishServer_closing {fuel : Nat} {sess sess' : Session} {keys : HsKeys}
    {emptyHash th : Bytes} {scratchLen finCap : Nat} {out : OutRegion} {tr : List (Act Ev)}
    {ret : Ret} (h : (establishServer P fuel sess keys emptyHash th scratchLen finCap out).Runs tr
      (ret, sess')) : Closing P .server tr sess' := by
  unfold establishServer at h
  split at h
  · obtain ⟨rfl, heq⟩ := h
    cases heq
    exact .unused (by simp) rfl
  · rename_i sess₁ hest
    have hfin : ∀ recvMac, Installless P (Prog.lift recvMac >>= fun mac =>
        recvClientFinished P scratchLen finCap out keys mac fuel) :=
      fun _ => .bind .lift fun _ => recvClientFinished_quiet.installless
    have hafter : ∀ {tr' : List (Act Ev)},
        (∀ e ∈ notes tr', ∀ k, keyEv? P e ≠ some (.install k)) →
        installed P ([.note (.writeKey sess₁.cKey sess₁.cIv)] ++ tr') = [sess₁.cKey] := by
      intro tr' hnone
      rw [installed_append, installed_eq_nil hnone]
      rfl
    have hest₁ : sess₁.Established P .server := ⟨_, _, _, _, _, _, _, hest⟩
    rw [Proc.runs_seq] at h
    obtain ⟨_, _, tr₁, rfl, hemit, h⟩ := h
    obtain rfl := Proc.runs_emit.1 hemit
    rw [Prog.runs_run_bind] at h
    rcases h with ⟨e, tr₂, _, rfl, hfail, rfl, heq⟩ | ⟨_, tr₂, _, rfl, hok, rfl, heq⟩
    · cases heq
      rw [List.append_nil]
      exact .inr ⟨sess₁, hafter (hfail.notes (hfin _)), hest₁, .inr rfl⟩
    · cases heq
      rw [List.append_nil]
      exact .inr ⟨sess', hafter (hok.notes (hfin _)), hest₁, .inl rfl⟩

/-- The same for the PSK server. -/
theorem acceptPskEx_born {fuel : Nat} {rng : P.Rng} {args : PskArgs} {sess sess' : Session}
    {tr : List (Act Ev)} {ret : Ret}
    (hstart : args.acceptOk P.build = true ∨ sess.established = false)
    (h : (acceptPskEx P fuel rng args sess).Runs tr (ret, sess')) : Born P .server tr sess' := by
  unfold acceptPskEx at h
  split at h
  · rename_i hargs
    obtain ⟨rfl, heq⟩ := h
    cases heq
    exact born_refused (hstart.resolve_left (by simp [hargs]))
  · exact acceptPskBody_opening.born (fun _ => rfl) (fun _ _ _ => establishServer_closing) h

/-- The same for the certificate server. -/
theorem acceptCertEx_born {fuel : Nat} {rng : P.Rng} {args : ServerCertArgs} {sess sess' : Session}
    {tr : List (Act Ev)} {ret : Ret} (hstart : args.acceptOk = true ∨ sess.established = false)
    (h : (acceptCertEx P fuel rng args sess).Runs tr (ret, sess')) : Born P .server tr sess' := by
  unfold acceptCertEx at h
  split at h
  · rename_i hargs
    obtain ⟨rfl, heq⟩ := h
    cases heq
    exact born_refused (hstart.resolve_left (by simp [hargs]))
  · exact acceptCertBody_opening.born (fun _ => rfl) (fun _ _ _ => establishServer_closing) h

/-- Whichever of the four handshakes it was. -/
theorem HandshakeRun.born {sess sess' : Session} {tr : List (Act Ev)} {ret : Ret}
    (h : HandshakeRun P sess tr ret sess') : ∃ role, Born P role tr sess' := by
  cases h with
  | connectPsk hstart hrun => exact ⟨.client, connectPskEx_born hstart hrun⟩
  | connectCert hstart hrun => exact ⟨.client, connectCertImpl_born hstart hrun⟩
  | acceptPsk hstart hrun => exact ⟨.server, acceptPskEx_born hstart hrun⟩
  | acceptCert hstart hrun => exact ⟨.server, acceptCertEx_born hstart hrun⟩

/-! ### No key and nonce twice -/

/-- After any handshake and any calls, whatever the transport did, the keys installed are
those of generations of one schedule, later ones later, that of the role's handshake secret
first and then those of its application secret and of the updates of it.  When
HKDF-Expand-Label has no collision among the inputs of these generations, the keys are
different, and no call of `wn_Record_Protect` is made with the key and the nonce of an earlier
one that produced a record. -/
theorem key_nonces_distinct {sess sess' s' : Session} {tr : List (Act Ev)} {ret : Ret}
    {calls : List CallSeen} (hhandshake : HandshakeRun P sess tr ret sess')
    (hcalls : SessionRun P sess' calls s')
    (hrecords : ∀ g, KeyLog.completedIn g (protectCalls P (tr ++ runTrace calls)) < 2 ^ 64) :
    ∃ (W : WriteSchedule) (gens : List Nat), gens.Pairwise (· < ·) ∧
      (installed P (tr ++ runTrace calls)).map some = gens.map (W.ratchet P).key ∧
      (sess'.established = true → (W.ratchet P).secret 1 = some sess'.cAppSecret) ∧
      ∀ n, (∀ g ∈ gens, g < n) → (W.ratchet P).Fresh n →
        (installed P (tr ++ runTrace calls)).Nodup ∧
          (protectCalls P (tr ++ runTrace calls)).Pairwise fun a b =>
            a.completed → a.key.1 = b.key.1 → callNonce a ≠ callNonce b := by
  obtain ⟨role, W, n₁, -, hborn, hstart⟩ := hhandshake.born
  have hplaced : sess'.Placed P W n₁ := fun hest => ⟨0, hstart hest⟩
  obtain ⟨n', hadv, -⟩ := hcalls.turns hplaced
  obtain ⟨-, gens, hgens, -, hkeys⟩ := hborn.trans hadv
  rw [← installed_append] at hkeys
  refine ⟨W, gens, hgens, hkeys, fun hest => (hstart hest).2.1, fun n hlt hfresh => ?_⟩
  have hnodup := Ratchet.nodup_keys hfresh hgens hlt hkeys
  obtain ⟨st, hlog, hready⟩ := hhandshake.log
  obtain ⟨st', hlog'⟩ := hcalls.log hready
  have hwhole := hlog.append hlog'
  refine ⟨hnodup, (KeyLog.run_distinct counter64 hwhole.1 hrecords).imp_of_mem ?_⟩
  intro a b ha hb hdistinct hcompleted hsame heq
  have hgen : a.gen = b.gen := KeyLog.gen_eq_of_key counter64 hwhole.1 hnodup ha hb hsame
  obtain ⟨hkey, hcount⟩ := hdistinct hgen hcompleted
  rw [callNonce, callNonce, ← hkey] at heq
  exact hcount (buildNonce_injective (protectCalls_iv hwhole ha) heq)

seal Proc.Runs in
theorem key_nonces_distinct_sample :
    (installed Sample.platform Sample.busyTrace).length = 3 ∧
      ∃ (W : WriteSchedule) (gens : List Nat), gens.Pairwise (· < ·) ∧
        (installed Sample.platform Sample.busyTrace).map some
          = gens.map (W.ratchet Sample.platform).key ∧
        (Sample.clientSession.established = true →
          (W.ratchet Sample.platform).secret 1 = some Sample.clientSession.cAppSecret) ∧
        ∀ n, (∀ g ∈ gens, g < n) → (W.ratchet Sample.platform).Fresh n →
          (installed Sample.platform Sample.busyTrace).Nodup ∧
            (protectCalls Sample.platform Sample.busyTrace).Pairwise fun a b =>
              a.completed → a.key.1 = b.key.1 → callNonce a ≠ callNonce b := by
  obtain ⟨hkeys, hlen, hplays⟩ : (installed Sample.platform Sample.busyTrace).length = 3 ∧
      (protectCalls Sample.platform Sample.busyTrace).length = 5 ∧
      (Sample.playCalls Sample.platform Sample.clientSession Sample.busyCalls).isSome := by
    decide +kernel
  have hhandshake :
      HandshakeRun Sample.platform .zero Sample.clientTrace (.ok ()) Sample.clientSession :=
    .connectPsk (.inl (by decide)) Sample.pskClient_runs
  obtain ⟨s', hcalls⟩ := Sample.seen_runs hplays
  refine ⟨hkeys, key_nonces_distinct hhandshake hcalls fun g => ?_⟩
  exact (List.length_filter_le _ _).trans_lt (by
    change (protectCalls Sample.platform Sample.busyTrace).length < _
    rw [hlen]
    decide)

end WolfNano
