/-
What a failed handshake of a client leaves in the caller's session.  Up to the
session nothing is stored; `wn_SessionEstablish` stores what it derives one by
one and goes on after a failure.
-/
import WolfNano.Sample

namespace WolfNano

open Duplex

variable (P : Platform)

/-- The derivations of the client's `wn_SessionEstablish` whose results go into
the session. -/
def establishWrites (hs emptyHash th : Bytes) : List (Except Err Bytes) :=
  let derived := written (zeros 32) (tls13DeriveSecret P hs "derived" emptyHash 32 .sha256)
  let master := written (zeros 32) (tls13Extract P derived (zeros 32) .sha256)
  let cApp? := tls13DeriveSecret P master "c ap traffic" th 32 .sha256
  let sApp? := tls13DeriveSecret P master "s ap traffic" th 32 .sha256
  let cApp := written (zeros 32) cApp?
  let sApp := written (zeros 32) sApp?
  [cApp?, sApp?, tls13ExpandLabel P 16 cApp "key" [] .sha256,
    tls13ExpandLabel P 12 cApp "iv" [] .sha256, tls13ExpandLabel P 16 sApp "key" [] .sha256,
    tls13ExpandLabel P 12 sApp "iv" [] .sha256]

/-- None of them yields anything but zeros. -/
def NothingDerived (hs emptyHash th : Bytes) : Prop :=
  ∀ x ∈ establishWrites P hs emptyHash th, ∀ b, x = .ok b → b = zeros b.length

/-- The session is all zero, and neither sends nor receives. -/
structure Session.Wiped (s : Session) : Prop where
  zero : s = .zero
  send : ∀ data tr ret s', (wnSend P s (some data)).Runs tr (ret, s') → ret = .error .badState
  recv : ∀ fuel out outCap outLen tr res,
    (wnRecv P fuel s (some out) outCap (some outLen)).Runs tr res → res.ret = .error .badState

variable {P}

theorem Session.wiped_zero : Session.zero.Wiped P := by
  refine ⟨rfl, ?_, ?_⟩
  · intro data tr ret s' h
    obtain ⟨-, heq⟩ := h
    cases heq
    rfl
  · intro fuel out outCap outLen tr res h
    obtain ⟨-, rfl⟩ := h
    rfl

theorem Session.wiped_iff {s : Session} : s.Wiped P ↔ s = .zero := by
  constructor
  · intro h
    exact h.zero
  · rintro rfl
    exact wiped_zero

/-- A buffer that was zero stays zero exactly when nothing else was derived. -/
theorem written_zeros {n : Nat} {x : Except Err Bytes} (hlen : ∀ b, x = .ok b → b.length = n) :
    written (zeros n) x = zeros n ↔ ∀ b, x = .ok b → b = zeros b.length := by
  cases x with
  | error e => simp [written]
  | ok new =>
      have hnew := hlen new rfl
      simp [hnew]

theorem tls13DeriveSecret_length {secret th okm : Bytes} {label : String}
    (h : tls13DeriveSecret P secret label th 32 .sha256 = .ok okm) : okm.length = 32 := by
  unfold tls13DeriveSecret at h
  split at h
  · cases h
  · exact tls13ExpandLabel_length h

/-- What a failed attempt on a zeroed session leaves there. -/
theorem sessionEstablishClient_error {hs emptyHash th : Bytes} {scratchLen : Nat}
    {e : Err} {s : Session}
    (h : sessionEstablishClient P .zero hs emptyHash (zeros 32) th scratchLen = (.error e, s)) :
    s = .zero ↔ NothingDerived P hs emptyHash th := by
  unfold sessionEstablishClient sessionEstablishWith at h
  dsimp only at h
  split at h
  · cases h
    simp only [NothingDerived, establishWrites, List.forall_mem_cons, List.not_mem_nil,
      false_implies, implies_true, and_true]
    simp only [Session.zero, Session.mk.injEq, true_and, and_true]
    rw [written_zeros fun _ => tls13DeriveSecret_length,
      written_zeros fun _ => tls13DeriveSecret_length,
      written_zeros fun _ => tls13ExpandLabel_length,
      written_zeros fun _ => tls13ExpandLabel_length,
      written_zeros fun _ => tls13ExpandLabel_length,
      written_zeros fun _ => tls13ExpandLabel_length]
  · cases h

theorem establishClient_error {keys : HsKeys} {emptyHash th : Bytes} {scratchLen : Nat}
    {tr : List (Act Ev)} {e : Err} {s : Session}
    (h : (establishClient P keys emptyHash th scratchLen).Runs tr (.error e, s)) :
    tr = [] ∧ (s = .zero ↔ NothingDerived P keys.hs emptyHash th) := by
  unfold establishClient at h
  split at h
  · rename_i hest
    obtain ⟨rfl, heq⟩ := h
    cases heq
    exact ⟨rfl, sessionEstablishClient_error hest⟩
  · simp at h

/-! ### The drivers -/

variable {fuel : Nat} {rng : P.Rng} {sess s : Session} {tr : List (Act Ev)} {e : Err}

/-- A failed PSK client stopped before the session, or in it. -/
theorem connectPskEx_error {args : PskArgs} (hok : args.connectOk = true)
    (h : (connectPskEx P fuel rng args sess).Runs tr (.error e, s)) :
    (Prog.Fails (connectPskBody P fuel rng args) tr e ∧ s = .zero) ∨
      ∃ keys emptyHash th, Prog.Ok (connectPskBody P fuel rng args) tr (keys, emptyHash, th) ∧
        (s = .zero ↔ NothingDerived P keys.hs emptyHash th) := by
  unfold connectPskEx at h
  rw [if_neg (by simp [hok]), Prog.runs_run_bind] at h
  rcases h with ⟨e', t, _, rfl, hfail, rfl, heq⟩ | ⟨⟨keys, emptyHash, th⟩, t, u, rfl, hbody, h⟩
  · cases heq
    rw [List.append_nil]
    exact .inl ⟨hfail, rfl⟩
  · obtain ⟨rfl, hiff⟩ := establishClient_error h
    rw [List.append_nil]
    exact .inr ⟨keys, emptyHash, th, hbody, hiff⟩

variable (P) (X : X509Backend)

/-- `wn_connect_cert_impl` up to the session. -/
def connectCertBody (fuel : Nat) (rng : P.Rng) (args : CertArgs) :
    Shell (HsKeys × Bytes × Bytes) := do
  let (keys, emptyHash, tc) ← connectCertHello P fuel rng args
  let (th, mac) ← connectCertFlight P X fuel args keys tc
  sendClientFinished P args.scratchLen keys mac
  pure (keys, emptyHash, th)

variable {P X}

/-- A failed certificate client stopped before the session, or in it, and may
have sent an alert then. -/
theorem connectCertImpl_error {args : CertArgs} (hok : args.connectOk P.build = true)
    (h : (connectCertImpl P X fuel rng args sess).Runs tr (.error e, s)) :
    ∃ t u, tr = t ++ u ∧
      ((Prog.Fails (connectCertBody P X fuel rng args) t e ∧ s = .zero) ∨
        ∃ keys emptyHash th,
          Prog.Ok (connectCertBody P X fuel rng args) t (keys, emptyHash, th) ∧
            (s = .zero ↔ NothingDerived P keys.hs emptyHash th)) := by
  unfold connectCertImpl at h
  rw [if_neg (by simp [hok]), Prog.runs_run_bind] at h
  rcases h with ⟨e', t, _, rfl, hfail, rfl, heq⟩ |
    ⟨⟨keys, emptyHash, tc⟩, t₁, _, rfl, hhello, h⟩
  · cases heq
    exact ⟨t, [], rfl, .inl ⟨Prog.fails_bind.2 (.inl hfail), rfl⟩⟩
  rw [Prog.runs_run_bind] at h
  rcases h with ⟨e', t₂, u, rfl, hfail, h⟩ | ⟨⟨th, mac⟩, t₂, _, rfl, hflight, h⟩
  · rw [Proc.runs_seq] at h
    obtain ⟨-, v, _, rfl, -, rfl, heq⟩ := h
    cases heq
    refine ⟨t₁ ++ t₂, v, by simp, .inl ⟨?_, rfl⟩⟩
    exact Prog.fails_bind.2 (.inr ⟨_, t₁, t₂, rfl, hhello, Prog.fails_bind.2 (.inl hfail)⟩)
  rw [Prog.runs_run_bind] at h
  rcases h with ⟨e', t₃, u, rfl, hfail, h⟩ | ⟨_, t₃, u, rfl, hfin, h⟩
  · rw [Proc.runs_seq] at h
    obtain ⟨-, v, _, rfl, -, rfl, heq⟩ := h
    cases heq
    refine ⟨t₁ ++ (t₂ ++ t₃), v, by simp, .inl ⟨?_, rfl⟩⟩
    exact Prog.fails_bind.2 (.inr ⟨_, t₁, t₂ ++ t₃, rfl, hhello,
      Prog.fails_bind.2 (.inr ⟨_, t₂, t₃, rfl, hflight, Prog.fails_bind.2 (.inl hfail)⟩)⟩)
  · rw [Proc.runs_seq] at h
    obtain ⟨⟨ret, s₁⟩, v, w, rfl, hest, h⟩ := h
    cases ret with
    | error e' =>
        rw [Proc.runs_seq] at h
        obtain ⟨-, w, _, rfl, -, rfl, heq⟩ := h
        cases heq
        obtain ⟨rfl, hiff⟩ := establishClient_error hest
        refine ⟨t₁ ++ (t₂ ++ t₃), w, by simp, .inr ⟨keys, emptyHash, th, ?_, hiff⟩⟩
        refine Prog.ok_bind.2 ⟨_, t₁, t₂ ++ t₃, rfl, hhello, ?_⟩
        refine Prog.ok_bind.2 ⟨_, t₂, t₃, rfl, hflight, ?_⟩
        exact Prog.ok_bind.2 ⟨(), t₃, [], by simp, hfin, rfl, rfl⟩
    | ok u =>
        obtain ⟨-, heq⟩ := h
        cases heq

/-- A body that fails and one that succeeds cannot both be what a run did. -/
theorem body_unique {body : Shell (HsKeys × Bytes × Bytes)} {t u t' u' : List (Act Ev)}
    {x : HsKeys × Bytes × Bytes} {y : Except Err (HsKeys × Bytes × Bytes)}
    (hok : Prog.Ok body t x) (h : Proc.Runs body t' y) (htr : t ++ u = t' ++ u') :
    y = .ok x :=
  (Proc.Runs.deterministic hok h htr).2.symm

/-- What a failed run of a body leaves, given what each end of it leaves. -/
theorem wiped_iff_of_body {body : Shell (HsKeys × Bytes × Bytes)} {t u : List (Act Ev)}
    (h : (Prog.Fails body t e ∧ s = .zero) ∨
      ∃ keys emptyHash th, Prog.Ok body t (keys, emptyHash, th) ∧
        (s = .zero ↔ NothingDerived P keys.hs emptyHash th)) :
    s.Wiped P ↔ ∀ t' u' keys emptyHash th, t ++ u = t' ++ u' →
      Prog.Ok body t' (keys, emptyHash, th) → NothingDerived P keys.hs emptyHash th := by
  rw [Session.wiped_iff]
  rcases h with ⟨hfail, rfl⟩ | ⟨keys, emptyHash, th, hok, hiff⟩
  · refine iff_of_true rfl ?_
    intro t' u' keys emptyHash th htr hok
    cases body_unique hok hfail htr.symm
  · rw [hiff]
    constructor
    · intro hnothing t' u' keys' emptyHash' th' htr hok'
      cases body_unique hok' hok htr.symm
      exact hnothing
    · intro hall
      exact hall t u keys emptyHash th rfl hok

/-- A failed client leaves an all-zero session unless `wn_SessionEstablish` was
reached, failed, and derived something other than zeros. -/
theorem failed_client_wiped (P : Platform) (X : X509Backend) :
    (∀ fuel rng (args : PskArgs) sess tr e s, args.connectOk = true →
      (connectPskEx P fuel rng args sess).Runs tr (.error e, s) →
      (s.Wiped P ↔ ∀ t u keys emptyHash th, tr = t ++ u →
        Prog.Ok (connectPskBody P fuel rng args) t (keys, emptyHash, th) →
        NothingDerived P keys.hs emptyHash th)) ∧
    ∀ fuel rng (args : CertArgs) sess tr e s, args.connectOk P.build = true →
      (connectCertImpl P X fuel rng args sess).Runs tr (.error e, s) →
      (s.Wiped P ↔ ∀ t u keys emptyHash th, tr = t ++ u →
        Prog.Ok (connectCertBody P X fuel rng args) t (keys, emptyHash, th) →
        NothingDerived P keys.hs emptyHash th) := by
  constructor
  · intro fuel rng args sess tr e s hok h
    have hbody := connectPskEx_error hok h
    have hwiped := wiped_iff_of_body (u := []) hbody
    rwa [List.append_nil] at hwiped
  · intro fuel rng args sess tr e s hok h
    obtain ⟨t, u, rfl, hbody⟩ := connectCertImpl_error hok h
    exact wiped_iff_of_body hbody

namespace Sample

/-- The platform, but the peer's application secret cannot be derived. -/
def failing : Platform :=
  { platform with
    hkdfExpandLabel := fun digest n secret protocol label info =>
      if label = ascii "s ap traffic" then none
      else platform.hkdfExpandLabel digest n secret protocol label info
    hkdfExpandLabel_length := by
      intro digest n secret protocol label info okm h
      split at h
      · cases h
      · exact platform.hkdfExpandLabel_length h }

/-- The client of the handshake on that platform. -/
def failingClient : Proc Ev (Ret × Session) :=
  connectPskEx failing 4 (7 : Nat) pskArgs .zero

theorem failingClient_plays : (play failingClient pskReply false).map
    (fun x => (x.1.1, decide (x.1.2.cAppSecret = zeros 32))) = some (.error .crypto, false) := by
  decide +kernel

theorem failingClient_isSome : (play failingClient pskReply false).isSome = true :=
  isSome_of_map failingClient_plays

def failingTrace : List (Act Ev) :=
  ((play failingClient pskReply false).get failingClient_isSome).2.2

/-- What it leaves behind. -/
def leftover : Session :=
  ((play failingClient pskReply false).get failingClient_isSome).1.2

-- the type would be evaluated otherwise
seal Proc.Runs in
theorem failingClient_runs :
    failingClient.Runs failingTrace (.error .crypto, leftover) :=
  play_runs_ret failingClient_isSome (get_of_map_pair failingClient_plays failingClient_isSome).1

/-- A certificate client whose server closes the connection at once. -/
def certArgs : CertArgs := ⟨[], 16384, none, none, 0, true⟩

/-- A backend that trusts nothing. -/
def noTrust : X509Backend := ⟨fun _ _ _ _ _ _ => .error .badCert, fun _ _ => false⟩

def certClient : Proc Ev (Ret × Session) :=
  connectCertImpl platform noTrust 4 (7 : Nat) certArgs .zero

theorem certClient_plays :
    (play certClient [] false).map (fun x => x.1.1) = some (.error .crypto) := by
  decide +kernel

theorem certClient_isSome : (play certClient [] false).isSome = true :=
  isSome_of_map certClient_plays

def certClientTrace : List (Act Ev) := ((play certClient [] false).get certClient_isSome).2.2

seal Proc.Runs in
theorem certClient_runs :
    certClient.Runs certClientTrace (.error .crypto, ((play certClient [] false).get
      certClient_isSome).1.2) :=
  play_runs_ret certClient_isSome (get_of_map certClient_plays certClient_isSome)

end Sample

seal Proc.Runs in
theorem failed_client_wiped_sample :
    (Sample.leftover.Wiped Sample.failing ↔ ∀ t u keys emptyHash th,
      Sample.failingTrace = t ++ u →
      Prog.Ok (connectPskBody Sample.failing 4 (7 : Nat) Sample.pskArgs) t
        (keys, emptyHash, th) →
      NothingDerived Sample.failing keys.hs emptyHash th) ∧
    (((Sample.play Sample.certClient [] false).get Sample.certClient_isSome).1.2.Wiped
        Sample.platform ↔ ∀ t u keys emptyHash th, Sample.certClientTrace = t ++ u →
      Prog.Ok (connectCertBody Sample.platform Sample.noTrust 4 (7 : Nat) Sample.certArgs) t
        (keys, emptyHash, th) →
      NothingDerived Sample.platform keys.hs emptyHash th) :=
  ⟨(failed_client_wiped Sample.failing Sample.noTrust).1 _ _ _ _ _ _ _ (by decide)
      Sample.failingClient_runs,
    (failed_client_wiped Sample.platform Sample.noTrust).2 _ _ _ _ _ _ _ (by decide)
      Sample.certClient_runs⟩

seal Proc.Runs in
/-- A client can fail and leave its application secret in the session. -/
theorem failed_client_leftover :
    ¬ ∀ (P : Platform) fuel rng (args : PskArgs) sess tr e s, args.connectOk = true →
      (connectPskEx P fuel rng args sess).Runs tr (.error e, s) → s.Wiped P := by
  intro hall
  obtain ⟨⟨⟨ret, s⟩, left, tr⟩, hruns, hshown⟩ := Sample.play_shows Sample.failingClient_plays
  obtain ⟨rfl, hsecret⟩ := Prod.mk.inj hshown
  have hwiped := hall Sample.failing 4 (7 : Nat) Sample.pskArgs .zero _ _ _ (by decide) hruns
  obtain rfl : s = .zero := hwiped.zero
  exact of_decide_eq_false hsecret rfl

end WolfNano
