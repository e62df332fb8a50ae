/-
No nonce is used twice.  An endpoint runs one handshake driver and then any
calls on the session; its successive write keys are numbered by the times one
was installed.  The transport may fail or write short at any point.
-/
import WolfNano.WriteKeys
import WolfNano.Quiet
import WolfNano.Sample

namespace WolfNano

open Duplex

variable {P : Platform}

/-! ### Stages of a handshake -/

theorem keyEv?_quiet {e : Ev} (h : e.onWriteKey = false) : keyEv? P e = none := by
  cases e <;> simp_all [Ev.onWriteKey, keyEv?]

theorem logRun_append (st st₁ st' : KeyState (Bytes × Bytes) UInt64)
    (tr tr' : List (Act Ev)) (h : LogRun P st tr st₁) (h' : LogRun P st₁ tr' st') :
    LogRun P st (tr ++ tr') st' := h.append h'

/-- A stage of a handshake: every run of it is disciplined. -/
abbrev Stage {α : Type} (P : Platform) (st : KeyState (Bytes × Bytes) UInt64)
    (p : Shell α) (Q : α → KeyState (Bytes × Bytes) UInt64 → Prop)
    (E : Err → KeyState (Bytes × Bytes) UInt64 → Prop) : Prop :=
  Prog.Safe (LogRun P) st p Q E

variable {α β : Type} {st : KeyState (Bytes × Bytes) UInt64} {p : Shell α}

theorem Quiet.stage {E : Err → KeyState (Bytes × Bytes) UInt64 → Prop} (h : Quiet p)
    (hE : ∀ e, E e st) : Stage P st p (fun _ st' => st' = st) E :=
  ⟨fun _ _ hok => ⟨st, .quiet fun e he => keyEv?_quiet (hok.notes h e he), rfl⟩,
    fun _ e hfail =>
      ⟨st, .quiet fun e he => keyEv?_quiet (hfail.notes h e he), hE e⟩⟩

/-- A quiet stage followed by the rest, wherever an error may leave it. -/
theorem Quiet.then_stage {f : α → Shell β}
    {Q : β → KeyState (Bytes × Bytes) UInt64 → Prop} (h : Quiet p)
    (hf : ∀ a, Stage P st (f a) Q fun _ _ => True) :
    Stage P st (p >>= f) Q fun _ _ => True :=
  Prog.Safe.bind logRun_append (h.stage fun _ => trivial) fun a _ heq => heq ▸ hf a

/-- A computation followed by the rest. -/
theorem Stage.lift_then {x : Except Err α} {f : α → Shell β}
    {Q : β → KeyState (Bytes × Bytes) UInt64 → Prop}
    (hf : ∀ a, x = .ok a → Stage P st (f a) Q fun _ _ => True) :
    Stage P st (Prog.lift x >>= f) Q fun _ _ => True :=
  Prog.Safe.bind logRun_append (.lift (.quiet (by simp)) fun _ => trivial)
    fun a _ heq => heq.1 ▸ hf a heq.2

/-- The installation of the handshake key followed by the rest. -/
theorem Stage.writeKey_then {key iv : Bytes} {f : Unit → Shell β}
    {Q : β → KeyState (Bytes × Bytes) UInt64 → Prop} (hiv : iv.length = 12)
    (hf : Stage P (some ((key, iv), none)) (f ()) Q fun _ _ => True) :
    Stage P st (Prog.note (.writeKey key iv) >>= f) Q fun _ _ => True := by
  refine Prog.Safe.bind logRun_append
    (Q := fun _ st' => st' = some ((key, iv), none)) ?_ fun _ _ heq => heq ▸ hf
  refine ⟨fun tr a hok => ?_, fun tr e hfail => absurd hfail Prog.fails_note⟩
  obtain rfl := Prog.ok_note.1 hok
  exact ⟨_, .install hiv, rfl⟩

/-- Protecting the first record under a key that was just installed. -/
theorem stage_protect {cap : Nat} {key iv : Bytes} {contentType : UInt8}
    {content : Bytes} :
    Stage P (some ((key, iv), none))
      (recordProtect P cap key iv 0 contentType content)
      (fun _ st' => st' = some ((key, iv), some 1))
      (fun _ st' => st' = some ((key, iv), none)) := by
  constructor
  · intro tr rec hok
    obtain ⟨-, hseal, rfl⟩ := recordProtect_ok.1 hok
    refine ⟨_, LogRun.protect (.inl rfl) rfl, ?_⟩
    rw [hseal]
    rfl
  · intro tr e hfail
    rcases recordProtect_fails.1 hfail with ⟨rfl, -⟩ | ⟨-, hseal, -, rfl⟩
    · exact ⟨_, .quiet (by simp), rfl⟩
    · refine ⟨_, LogRun.protect (.inl rfl) rfl, ?_⟩
      rw [hseal]
      rfl

theorem stage_pure {a : α} : Stage P st (pure a) (fun _ _ => True) fun _ _ => True :=
  (Quiet.stage .pure fun _ => trivial).mono (fun _ _ _ => trivial) fun _ _ h => h

/-- A state in which the key was used at most once. -/
def AtMostOnce (key iv : Bytes) (st : KeyState (Bytes × Bytes) UInt64) : Prop :=
  ∃ next, st = some ((key, iv), next) ∧ (next = none ∨ next = some 1)

/-- The client's Finished takes sequence number 0 if any. -/
theorem sendClientFinished_stage {cap : Nat} {keys : HsKeys} {mac : Bytes} :
    Stage P (some ((keys.cKey, keys.cIv), none)) (sendClientFinished P cap keys mac)
      (fun _ => AtMostOnce keys.cKey keys.cIv)
      (fun _ => AtMostOnce keys.cKey keys.cIv) := by
  refine Prog.Safe.bind logRun_append
    (stage_protect.mono (fun _ _ h => h) fun _ _ h => ⟨none, h, .inl rfl⟩) ?_
  rintro rec _ rfl
  have hone : AtMostOnce keys.cKey keys.cIv (some ((keys.cKey, keys.cIv), some 1)) :=
    ⟨some 1, rfl, .inr rfl⟩
  exact (sendRecord_quiet.stage fun _ => hone).mono (fun _ _ h => h ▸ hone)
    fun _ _ h => h

/-! ### The clients -/

theorem connectPskBody_stage {fuel : Nat} {rng : P.Rng} {args : PskArgs} :
    Stage P none (connectPskBody P fuel rng args) (fun _ _ => True)
      (fun _ _ => True) := by
  refine Quiet.then_stage .lift fun start => ?_
  refine Quiet.then_stage .lift fun ⟨early, hello⟩ => ?_
  refine Quiet.then_stage .lift fun tc => ?_
  refine Quiet.then_stage sendPlainRecord_quiet fun _ => ?_
  refine Quiet.then_stage sendPlainRecord_quiet fun _ => ?_
  refine Quiet.then_stage recvServerHello_quiet fun ⟨tc, ecdhe⟩ => ?_
  refine Quiet.then_stage .lift fun th => ?_
  refine Stage.lift_then fun keys hkeys => ?_
  refine Stage.writeKey_then (deriveHsKeys_iv hkeys).1 ?_
  refine Quiet.then_stage pskFlight_quiet fun flight => ?_
  refine Quiet.then_stage .lift fun th => ?_
  refine Quiet.then_stage .lift fun mac => ?_
  refine Prog.Safe.bind logRun_append
    (sendClientFinished_stage.mono (fun _ _ h => h) fun _ _ _ => trivial) fun _ st _ => ?_
  exact stage_pure

theorem connectCertHello_stage {fuel : Nat} {rng : P.Rng} {args : CertArgs} :
    Stage P none (connectCertHello P fuel rng args)
      (fun x st => st = some ((x.1.cKey, x.1.cIv), none)) (fun _ _ => True) := by
  refine Quiet.then_stage .lift fun start => ?_
  refine Quiet.then_stage .lift fun hello => ?_
  refine Quiet.then_stage .lift fun tc => ?_
  refine Quiet.then_stage sendPlainRecord_quiet fun _ => ?_
  refine Quiet.then_stage sendPlainRecord_quiet fun _ => ?_
  refine Quiet.then_stage recvServerHello_quiet fun ⟨tc, ecdhe⟩ => ?_
  refine Quiet.then_stage .lift fun th => ?_
  refine Quiet.then_stage .lift fun early => ?_
  refine Stage.lift_then fun keys hkeys => ?_
  refine Stage.writeKey_then (deriveHsKeys_iv hkeys).1 ?_
  refine ⟨fun tr x hok => ?_, fun tr e hfail => absurd hfail Prog.fails_pure⟩
  obtain ⟨rfl, rfl⟩ := Prog.ok_pure.1 hok
  exact ⟨_, .quiet (by simp), rfl⟩

theorem connectCertFlight_quiet {X : X509Backend} {fuel : Nat} {args : CertArgs}
    {keys : HsKeys} {tc : Transcript} :
    Quiet (connectCertFlight P X fuel args keys tc) :=
  .bind certFlight_quiet fun _ => .bind .lift fun _ => .bind .lift fun _ => .pure

/-! ### The servers -/

theorem sendPskFlight_stage {scratchLen : Nat} {keys : HsKeys} {tc : Transcript} :
    Stage P (some ((keys.sKey, keys.sIv), none)) (sendPskFlight P scratchLen keys tc)
      (fun _ _ => True) (fun _ _ => True) := by
  refine Quiet.then_stage .lift fun ee => ?_
  refine Quiet.then_stage .lift fun tc => ?_
  refine Quiet.then_stage .lift fun th => ?_
  refine Quiet.then_stage .lift fun mac => ?_
  refine Quiet.then_stage (.note rfl) fun _ => ?_
  refine Quiet.then_stage .lift fun tc => ?_
  refine Prog.Safe.bind logRun_append
    (stage_protect.mono (fun _ _ h => h) fun _ _ _ => trivial) ?_
  rintro rec _ rfl
  refine Quiet.then_stage sendRecord_quiet fun _ => ?_
  exact stage_pure

theorem acceptPskBody_stage {fuel : Nat} {rng : P.Rng} {args : PskArgs} :
    Stage P none (acceptPskBody P fuel rng args) (fun _ _ => True)
      (fun _ _ => True) := by
  refine Quiet.then_stage .lift fun ⟨tc, emptyHash, random32, rng⟩ => ?_
  refine Quiet.then_stage acceptHello_quiet fun hello => ?_
  refine Quiet.then_stage .lift fun ⟨early, tc⟩ => ?_
  refine Quiet.then_stage sendServerHello_quiet fun ⟨tc, ecdhe, _⟩ => ?_
  refine Quiet.then_stage .lift fun th => ?_
  refine Stage.lift_then fun keys hkeys => ?_
  refine Stage.writeKey_then (deriveHsKeys_iv hkeys).2 ?_
  refine Prog.Safe.bind logRun_append sendPskFlight_stage fun tc st _ => ?_
  refine Quiet.then_stage .lift fun th => ?_
  exact stage_pure

theorem sendCertFlight_stage {args : ServerCertArgs} {keys : HsKeys}
    {tc : Transcript} {rng : P.Rng} :
    Stage P (some ((keys.sKey, keys.sIv), none)) (sendCertFlight P args keys tc rng)
      (fun _ _ => True) (fun _ _ => True) := by
  refine Quiet.then_stage .lift fun ee => ?_
  refine Quiet.then_stage .lift fun tc => ?_
  refine Quiet.then_stage .lift fun cert => ?_
  refine Quiet.then_stage .lift fun tc => ?_
  refine Quiet.then_stage .lift fun thCv => ?_
  refine Quiet.then_stage .lift fun cv => ?_
  refine Quiet.then_stage .lift fun tc => ?_
  refine Quiet.then_stage .lift fun th => ?_
  refine Quiet.then_stage .lift fun mac => ?_
  refine Quiet.then_stage .failIf fun _ => ?_
  refine Quiet.then_stage (.note rfl) fun _ => ?_
  refine Quiet.then_stage .lift fun tc => ?_
  refine Prog.Safe.bind logRun_append
    (stage_protect.mono (fun _ _ h => h) fun _ _ _ => trivial) ?_
  rintro rec _ rfl
  refine Quiet.then_stage sendRecord_quiet fun _ => ?_
  exact stage_pure

theorem acceptCertBody_stage {fuel : Nat} {rng : P.Rng} {args : ServerCertArgs} :
    Stage P none (acceptCertBody P fuel rng args) (fun _ _ => True)
      (fun _ _ => True) := by
  refine Quiet.then_stage .lift fun ⟨tc, emptyHash, random32, rng⟩ => ?_
  refine Quiet.then_stage acceptHello_quiet fun hello => ?_
  refine Quiet.then_stage .failIf fun _ => ?_
  refine Quiet.then_stage .lift fun tc => ?_
  refine Quiet.then_stage sendServerHello_quiet fun ⟨tc, ecdhe, rng⟩ => ?_
  refine Quiet.then_stage .lift fun early => ?_
  refine Quiet.then_stage .lift fun th => ?_
  refine Stage.lift_then fun keys hkeys => ?_
  refine Stage.writeKey_then (deriveHsKeys_iv hkeys).2 ?_
  refine Prog.Safe.bind logRun_append sendCertFlight_stage fun tc st _ => ?_
  refine Quiet.then_stage .lift fun th => ?_
  exact stage_pure

/-! ### Whole handshakes -/

/-- One run of a handshake driver on the caller's session, which must not be in
use unless the driver is going to wipe it. -/
inductive HandshakeRun (P : Platform) :
    Session → List (Act Ev) → Ret → Session → Prop
  | connectPsk {fuel : Nat} {rng : P.Rng} {args : PskArgs} {sess sess' : Session}
      {tr : List (Act Ev)} {ret : Ret}
      (hstart : args.connectOk = true ∨ sess.established = false)
      (hrun : (connectPskEx P fuel rng args sess).Runs tr (ret, sess')) :
      HandshakeRun P sess tr ret sess'
  | connectCert {X : X509Backend} {fuel : Nat} {rng : P.Rng} {args : CertArgs}
      {sess sess' : Session} {tr : List (Act Ev)} {ret : Ret}
      (hstart : args.connectOk P.build = true ∨ sess.established = false)
      (hrun : (connectCertImpl P X fuel rng args sess).Runs tr (ret, sess')) :
      HandshakeRun P sess tr ret sess'
  | acceptPsk {fuel : Nat} {rng : P.Rng} {args : PskArgs} {sess sess' : Session}
      {tr : List (Act Ev)} {ret : Ret}
      (hstart : args.acceptOk P.build = true ∨ sess.established = false)
      (hrun : (acceptPskEx P fuel rng args sess).Runs tr (ret, sess')) :
      HandshakeRun P sess tr ret sess'
  | acceptCert {fuel : Nat} {rng : P.Rng} {args : ServerCertArgs}
      {sess sess' : Session} {tr : List (Act Ev)} {ret : Ret}
      (hstart : args.acceptOk = true ∨ sess.established = false)
      (hrun : (acceptCertEx P fuel rng args sess).Runs tr (ret, sess')) :
      HandshakeRun P sess tr ret sess'

/-- The log of a driver or of a part of it, and the session it leaves. -/
def LeavesReady (P : Platform) (st : KeyState (Bytes × Bytes) UInt64)
    (tr : List (Act Ev)) (sess' : Session) : Prop :=
  ∃ st', LogRun P st tr st' ∧ sess'.Ready st'

theorem leavesReady_of_unused {s : Session} {tr : List (Act Ev)}
    (hs : s.established = false) {st st' : KeyState (Bytes × Bytes) UInt64}
    (h : LogRun P st tr st') : LeavesReady P st tr s :=
  ⟨st', h, fun hest => absurd hest (by simp [hs])⟩

theorem LeavesReady.append {s : Session} {st st₁ : KeyState (Bytes × Bytes) UInt64}
    {tr tr' : List (Act Ev)} (h : LogRun P st tr st₁) (h' : LeavesReady P st₁ tr' s) :
    LeavesReady P st (tr ++ tr') s :=
  h'.imp fun _ h'' => ⟨h.append h''.1, h''.2⟩

/-- The installation of the first application key. -/
theorem leavesReady_install {s : Session} (hiv : s.cIv.length = 12) :
    LeavesReady P st [.note (.writeKey s.cKey s.cIv)] s :=
  ⟨some ((s.cKey, s.cIv), none), .install hiv, fun _ => ⟨hiv, none, rfl, .inl rfl⟩⟩

theorem establishClient_log {keys : HsKeys} {emptyHash th : Bytes} {scratchLen : Nat}
    {tr : List (Act Ev)} {ret : Ret} {sess : Session}
    (h : (establishClient P keys emptyHash th scratchLen).Runs tr (ret, sess)) :
    LeavesReady P st tr sess ∧ (ret ≠ .ok () → tr = [] ∧ sess.established = false) := by
  unfold establishClient at h
  split at h
  · rename_i e sess' hest
    obtain ⟨rfl, heq⟩ := h
    cases heq
    have hclear : sess.established = false :=
      (sessionEstablishWith_error hest).2.1
    exact ⟨leavesReady_of_unused hclear (.quiet (by simp)), fun _ => ⟨rfl, hclear⟩⟩
  · rename_i sess' hest
    simp only [Proc.runs_seq, Proc.runs_emit, Proc.runs_pure, Prod.mk.injEq] at h
    obtain ⟨_, _, _, rfl, rfl, rfl, rfl, rfl⟩ := h
    exact ⟨leavesReady_install (sessionEstablishWith_iv hest), fun hne => absurd rfl hne⟩

theorem sendAlert_log {keys : HsKeys} {seq : UInt64} {e : Err} {tr : List (Act Ev)}
    {u : Unit} (h : (sendAlert P keys seq e).Runs tr u) {next : Option UInt64}
    (hnext : next = none ∨ next = some seq) :
    ∃ st', LogRun P (some ((keys.cKey, keys.cIv), next)) tr st' := by
  unfold sendAlert at h
  split at h
  · rw [Prog.runs_run_bind] at h
    rcases h with ⟨e', _, _, rfl, hfail, rfl, -⟩ | ⟨rec, _, _, rfl, hok, hrest⟩
    · rcases recordProtect_fails.1 hfail with ⟨rfl, -⟩ | ⟨-, -, -, rfl⟩
      · exact ⟨_, .quiet (by simp)⟩
      · exact ⟨_, LogRun.protect hnext rfl⟩
    · obtain ⟨-, -, rfl⟩ := recordProtect_ok.1 hok
      simp only [Proc.runs_seq, Proc.runs_write] at hrest
      obtain ⟨r, _, t, rfl, rfl, rfl, -⟩ := hrest
      exact ⟨_, LogRun.protect hnext rfl⟩
  · obtain ⟨rfl, -⟩ := h
    exact ⟨_, .quiet (by simp)⟩

theorem connectPskEx_log {fuel : Nat} {rng : P.Rng} {args : PskArgs}
    {sess sess' : Session} {tr : List (Act Ev)} {ret : Ret}
    (hstart : args.connectOk = true ∨ sess.established = false)
    (h : (connectPskEx P fuel rng args sess).Runs tr (ret, sess')) :
    LeavesReady P none tr sess' := by
  unfold connectPskEx at h
  split at h
  · rename_i hargs
    obtain ⟨rfl, heq⟩ := h
    cases heq
    exact leavesReady_of_unused (hstart.resolve_left (by simp [hargs]))
      (.quiet (by simp))
  · rw [Prog.runs_run_bind] at h
    rcases h with ⟨e, _, _, rfl, hfail, rfl, heq⟩ | ⟨x, _, _, rfl, hok, hrest⟩
    · cases heq
      obtain ⟨st', hlog, -⟩ := connectPskBody_stage.2 _ _ hfail
      exact leavesReady_of_unused rfl (hlog.append (.quiet (by simp)))
    · obtain ⟨st', hlog, -⟩ := connectPskBody_stage.1 _ _ hok
      exact .append hlog (establishClient_log hrest).1

/-- The optional alert does not share a number with our Finished: it has 0 only
while the Finished was not protected. -/
theorem connectCertImpl_log {X : X509Backend} {fuel : Nat} {rng : P.Rng}
    {args : CertArgs} {sess sess' : Session} {tr : List (Act Ev)} {ret : Ret}
    (hstart : args.connectOk P.build = true ∨ sess.established = false)
    (h : (connectCertImpl P X fuel rng args sess).Runs tr (ret, sess')) :
    LeavesReady P none tr sess' := by
  unfold connectCertImpl at h
  split at h
  · rename_i hargs
    obtain ⟨rfl, heq⟩ := h
    cases heq
    exact leavesReady_of_unused (hstart.resolve_left (by simp [hargs]))
      (.quiet (by simp))
  · rw [Prog.runs_run_bind] at h
    rcases h with ⟨e, _, _, rfl, hfail, rfl, heq⟩ |
      ⟨⟨keys, emptyHash, tc⟩, tr₁, tr₂, rfl, hok, hrest⟩
    · cases heq
      obtain ⟨st', hlog, -⟩ := connectCertHello_stage.2 _ _ hfail
      exact leavesReady_of_unused rfl (hlog.append (.quiet (by simp)))
    · obtain ⟨_, hlog, rfl⟩ := connectCertHello_stage.1 _ _ hok
      refine .append hlog ?_
      simp only at hrest
      rw [Prog.runs_run_bind] at hrest
      rcases hrest with ⟨e, tr₃, _, rfl, hfail, hrest⟩ | ⟨⟨th, mac⟩, tr₃, _, rfl, hok, hrest⟩
      · have hquiet : LogRun P (some ((keys.cKey, keys.cIv), none)) tr₃ _ :=
          .quiet fun e he => keyEv?_quiet (hfail.notes connectCertFlight_quiet e he)
        simp only [Proc.runs_seq] at hrest
        obtain ⟨_, tr₄, _, rfl, halert, rfl, heq⟩ := hrest
        cases heq
        obtain ⟨st', hlog'⟩ := sendAlert_log halert (.inl rfl)
        exact .append hquiet (leavesReady_of_unused rfl (hlog'.append (.quiet (by simp))))
      · have hquiet : LogRun P (some ((keys.cKey, keys.cIv), none)) tr₃ _ :=
          .quiet fun e he => keyEv?_quiet (hok.notes connectCertFlight_quiet e he)
        refine .append hquiet ?_
        simp only at hrest
        rw [Prog.runs_run_bind] at hrest
        rcases hrest with ⟨e, tr₄, _, rfl, hfail, hrest⟩ | ⟨_, tr₄, _, rfl, hok, hrest⟩
        · obtain ⟨_, hlog', next, rfl, hnext⟩ := sendClientFinished_stage.2 _ _ hfail
          simp only [Proc.runs_seq] at hrest
          obtain ⟨_, tr₅, _, rfl, halert, rfl, heq⟩ := hrest
          cases heq
          obtain ⟨st', hlog''⟩ := sendAlert_log halert hnext
          exact .append hlog' (leavesReady_of_unused rfl
            (hlog''.append (.quiet (by simp))))
        · obtain ⟨_, hlog', next, rfl, hnext⟩ := sendClientFinished_stage.1 _ _ hok
          refine .append hlog' ?_
          simp only [Proc.runs_seq] at hrest
          obtain ⟨⟨ret', sess₁⟩, tr₅, _, rfl, hestablish, hrest⟩ := hrest
          obtain ⟨hready, hfailed⟩ := establishClient_log hestablish
          cases ret' with
          | error e =>
              obtain ⟨rfl, hclear⟩ := hfailed (by simp)
              simp only [Proc.runs_seq] at hrest
              obtain ⟨_, tr₆, _, rfl, halert, rfl, heq⟩ := hrest
              cases heq
              obtain ⟨st', hlog''⟩ := sendAlert_log halert hnext
              exact leavesReady_of_unused hclear (by simpa using hlog'')
          | ok u =>
              obtain ⟨rfl, heq⟩ := hrest
              cases heq
              simpa using hready

theorem establishServer_log {fuel : Nat} {sess sess' : Session} {keys : HsKeys}
    {emptyHash th : Bytes} {scratchLen finCap : Nat} {out : OutRegion} {tr : List (Act Ev)}
    {ret : Ret}
    (h : (establishServer P fuel sess keys emptyHash th scratchLen finCap
      out).Runs tr (ret, sess')) : LeavesReady P st tr sess' := by
  unfold establishServer at h
  split at h
  · obtain ⟨rfl, heq⟩ := h
    cases heq
    exact leavesReady_of_unused rfl (.quiet (by simp))
  · rename_i sess₁ hest
    have hfin : ∀ recvMac, Quiet (Prog.lift recvMac >>= fun mac =>
        recvClientFinished P scratchLen finCap out keys mac fuel) :=
      fun _ => .bind .lift fun _ => recvClientFinished_quiet
    rw [Proc.runs_seq] at h
    obtain ⟨_, _, tr₁, rfl, hemit, h⟩ := h
    obtain rfl := Proc.runs_emit.1 hemit
    have hiv : sess₁.cIv.length = 12 := sessionEstablishWith_iv hest
    refine .append (.install hiv) ?_
    rw [Prog.runs_run_bind] at h
    rcases h with ⟨e, _, _, rfl, hfail, rfl, heq⟩ | ⟨_, tr₂, _, rfl, hok, rfl, heq⟩
    · cases heq
      exact leavesReady_of_unused rfl ((LogRun.quiet fun e he =>
        keyEv?_quiet (hfail.notes (hfin _) e he)).append (.quiet (by simp)))
    · cases heq
      refine ⟨_, (LogRun.quiet fun e he =>
        keyEv?_quiet (hok.notes (hfin _) e he)).append (.quiet (by simp)), fun _ => ?_⟩
      exact ⟨hiv, none, rfl, .inl rfl⟩

theorem acceptPskEx_log {fuel : Nat} {rng : P.Rng} {args : PskArgs}
    {sess sess' : Session} {tr : List (Act Ev)} {ret : Ret}
    (hstart : args.acceptOk P.build = true ∨ sess.established = false)
    (h : (acceptPskEx P fuel rng args sess).Runs tr (ret, sess')) :
    LeavesReady P none tr sess' := by
  unfold acceptPskEx at h
  split at h
  · rename_i hargs
    obtain ⟨rfl, heq⟩ := h
    cases heq
    exact leavesReady_of_unused (hstart.resolve_left (by simp [hargs]))
      (.quiet (by simp))
  · rw [Prog.runs_run_bind] at h
    rcases h with ⟨e, _, _, rfl, hfail, rfl, heq⟩ | ⟨x, _, _, rfl, hok, hrest⟩
    · cases heq
      obtain ⟨st', hlog, -⟩ := acceptPskBody_stage.2 _ _ hfail
      exact leavesReady_of_unused rfl (hlog.append (.quiet (by simp)))
    · obtain ⟨st', hlog, -⟩ := acceptPskBody_stage.1 _ _ hok
      exact .append hlog (establishServer_log hrest)

theorem acceptCertEx_log {fuel : Nat} {rng : P.Rng} {args : ServerCertArgs}
    {sess sess' : Session} {tr : List (Act Ev)} {ret : Ret}
    (hstart : args.acceptOk = true ∨ sess.established = false)
    (h : (acceptCertEx P fuel rng args sess).Runs tr (ret, sess')) :
    LeavesReady P none tr sess' := by
  unfold acceptCertEx at h
  split at h
  · rename_i hargs
    obtain ⟨rfl, heq⟩ := h
    cases heq
    exact leavesReady_of_unused (hstart.resolve_left (by simp [hargs]))
      (.quiet (by simp))
  · rw [Prog.runs_run_bind] at h
    rcases h with ⟨e, _, _, rfl, hfail, rfl, heq⟩ | ⟨x, _, _, rfl, hok, hrest⟩
    · cases heq
      obtain ⟨st', hlog, -⟩ := acceptCertBody_stage.2 _ _ hfail
      exact leavesReady_of_unused rfl (hlog.append (.quiet (by simp)))
    · obtain ⟨st', hlog, -⟩ := acceptCertBody_stage.1 _ _ hok
      exact .append hlog (establishServer_log hrest)

theorem HandshakeRun.log {sess sess' : Session} {tr : List (Act Ev)} {ret : Ret}
    (h : HandshakeRun P sess tr ret sess') : LeavesReady P none tr sess' := by
  cases h with
  | connectPsk hstart hrun => exact connectPskEx_log hstart hrun
  | connectCert hstart hrun => exact connectCertImpl_log hstart hrun
  | acceptPsk hstart hrun => exact acceptPskEx_log hstart hrun
  | acceptCert hstart hrun => exact acceptCertEx_log hstart hrun

/-! ### No nonce twice -/

variable (P)

/-- The calls of `wn_Record_Protect` of a run: the generation, key and IV they
were made with, the sequence number, and whether they produced a record. -/
def protectCalls (tr : List (Act Ev)) : List (Use (Bytes × Bytes) UInt64) :=
  KeyLog.uses 0 (keyLog P (notes tr))

/-- The nonce of a call. -/
def callNonce (u : Use (Bytes × Bytes) UInt64) : Bytes := buildNonce u.key.2 u.count

variable {P}

/-- Every call is under an IV of the length of a nonce. -/
theorem protectCalls_iv {st' : KeyState (Bytes × Bytes) UInt64} {tr : List (Act Ev)}
    (hlog : LogRun P none tr st') {u : Use (Bytes × Bytes) UInt64}
    (hu : u ∈ protectCalls P tr) : u.key.2.length = 12 := by
  rcases KeyLog.install_mem_of_use counter64 hlog.1 hu with hmem | ⟨next, hnone⟩
  · obtain ⟨e, he, heq⟩ := List.mem_filterMap.1 hmem
    cases e with
    | writeKey key iv =>
        have hkey : u.key = (key, iv) := by simpa [keyEv?, eq_comm] using heq
        rw [hkey]
        exact hlog.2 key iv he
    | protect => simp [keyEv?] at heq
    | unprotect => simp [keyEv?] at heq
    | unprotectOver => simp [keyEv?] at heq
    | copy => simp [keyEv?] at heq
  · cases hnone

/-- Calls that cannot fail produce a record. -/
theorem protectCalls_completed
    (hseal : ∀ key iv seq contentType content,
      sealRecord P key iv seq contentType content ≠ none)
    {tr : List (Act Ev)} : ∀ u ∈ protectCalls P tr, u.completed = true := by
  have huses : ∀ (es : List Ev) (gen : Nat),
      ∀ u ∈ KeyLog.uses gen (keyLog P es), u.completed = true := by
    intro es
    induction es with
    | nil => simp [keyLog, KeyLog.uses]
    | cons e es ih =>
        intro gen u hu
        cases e with
        | writeKey key iv => exact ih (gen + 1) u hu
        | protect cap key iv seq contentType content =>
            rcases List.mem_cons.1 hu with rfl | hu
            · exact Option.isSome_iff_ne_none.2 (hseal key iv seq contentType content)
            · exact ih gen u hu
        | unprotect => exact ih gen u hu
        | unprotectOver => exact ih gen u hu
        | copy => exact ih gen u hu
  exact huses _ 0

/-- After any handshake and any calls, whatever the transport did: no call of
`wn_Record_Protect` repeats the nonce of an earlier one of its generation that
produced a record, and none repeats any when no call can fail. -/
theorem protect_nonces_distinct {sess sess' s' : Session} {tr : List (Act Ev)}
    {ret : Ret} {calls : List CallSeen} (hhandshake : HandshakeRun P sess tr ret sess')
    (hcalls : SessionRun P sess' calls s')
    (hrecords : ∀ g,
      KeyLog.completedIn g (protectCalls P (tr ++ runTrace calls)) < 2 ^ 64) :
    ((protectCalls P (tr ++ runTrace calls)).Pairwise fun a b =>
        a.gen = b.gen → a.completed → callNonce a ≠ callNonce b) ∧
      ((∀ key iv seq contentType content,
          sealRecord P key iv seq contentType content ≠ none) →
        (protectCalls P (tr ++ runTrace calls)).Pairwise fun a b =>
          a.gen = b.gen → callNonce a ≠ callNonce b) ∧
      ∀ iv : Bytes, iv.length = 12 → Function.Injective (buildNonce iv) := by
  obtain ⟨st, hlog, hready⟩ := hhandshake.log
  obtain ⟨st', hlog'⟩ := hcalls.log hready
  have hwhole := hlog.append hlog'
  have hnonce : (protectCalls P (tr ++ runTrace calls)).Pairwise fun a b =>
      a.gen = b.gen → a.completed → callNonce a ≠ callNonce b := by
    refine (KeyLog.run_distinct counter64 hwhole.1 hrecords).imp_of_mem ?_
    intro a b ha _ hdistinct hgen hcompleted heq
    obtain ⟨hkey, hcount⟩ := hdistinct hgen hcompleted
    rw [callNonce, callNonce, ← hkey] at heq
    exact hcount (buildNonce_injective (protectCalls_iv hwhole ha) heq)
  refine ⟨hnonce, fun hseal => ?_, fun iv => buildNonce_injective⟩
  refine hnonce.imp_of_mem fun ha _ hdistinct hgen => ?_
  exact hdistinct hgen (protectCalls_completed hseal _ ha)

namespace Sample

/-- A send that fails, an answer to a key update, a send and a close. -/
def busyCalls : List (Call × Bytes × Bool) :=
  [(.send (some [1, 2]), [], true),
    (.recv (some []) 0 (some 0), peerRecord clientSession 0 recHandshake (keyUpdateMsg 1),
      false),
    (.send (some [3]), [], false), (.close, [], false)]

/-- Everything the client did, from the handshake to the close. -/
def busyTrace : List (Act Ev) := clientTrace ++ runTrace (seen platform clientSession busyCalls)

end Sample

seal Proc.Runs in
theorem protect_nonces_distinct_sample :
    (protectCalls Sample.platform Sample.busyTrace).length = 5 ∧
      (protectCalls Sample.platform Sample.busyTrace).Pairwise fun a b =>
        a.gen = b.gen → a.completed → callNonce a ≠ callNonce b := by
  obtain ⟨hlen, hplays⟩ : (protectCalls Sample.platform Sample.busyTrace).length = 5 ∧
      (Sample.playCalls Sample.platform Sample.clientSession Sample.busyCalls).isSome := by
    decide +kernel
  have hhandshake :
      HandshakeRun Sample.platform .zero Sample.clientTrace (.ok ()) Sample.clientSession :=
    .connectPsk (.inl (by decide)) Sample.pskClient_runs
  obtain ⟨s', hcalls⟩ := Sample.seen_runs hplays
  refine ⟨hlen, (protect_nonces_distinct hhandshake hcalls fun g => ?_).1⟩
  exact (List.length_filter_le _ _).trans_lt (by
    change (protectCalls Sample.platform Sample.busyTrace).length < _
    rw [hlen]
    decide)

end WolfNano
