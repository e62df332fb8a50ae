/-
What one run of a session function can do: one inversion lemma for each
function, with the trace of every exit.
-/
import WolfNano.Session

namespace WolfNano

open Duplex

variable {P : Platform}

/-! ### Key updates -/

/-- Everything but the write side. -/
structure Session.SameButWrite (s s' : Session) : Prop where
  io : s'.io = s.io
  scratchLen : s'.scratchLen = s.scratchLen
  readKeys : s'.readKeys = s.readKeys
  sSeq : s'.sSeq = s.sSeq
  digest : s'.digest = s.digest
  established : s'.established = s.established
  closed : s'.closed = s.closed

/-- The configuration and the flags of a session. -/
structure Session.SameFrame (s s' : Session) : Prop where
  io : s'.io = s.io
  scratchLen : s'.scratchLen = s.scratchLen
  digest : s'.digest = s.digest
  established : s'.established = s.established
  closed : s'.closed = s.closed

namespace Session

theorem SameFrame.refl (s : Session) : s.SameFrame s := ⟨rfl, rfl, rfl, rfl, rfl⟩

theorem SameFrame.trans {s s' s'' : Session} (h : s.SameFrame s')
    (h' : s'.SameFrame s'') : s.SameFrame s'' :=
  ⟨h'.io.trans h.io, h'.scratchLen.trans h.scratchLen, h'.digest.trans h.digest,
    h'.established.trans h.established, h'.closed.trans h.closed⟩

theorem SameButWrite.frame {s s' : Session} (h : s.SameButWrite s') :
    s.SameFrame s' :=
  ⟨h.io, h.scratchLen, h.digest, h.established, h.closed⟩

@[simp] theorem setWriteKeys_writeKeys (s : Session) (t : TrafficKeys) :
    (s.setWriteKeys t).writeKeys = t := rfl

@[simp] theorem setReadKeys_readKeys (s : Session) (t : TrafficKeys) :
    (s.setReadKeys t).readKeys = t := rfl

@[simp] theorem setReadKeys_writeKeys (s : Session) (t : TrafficKeys) :
    (s.setReadKeys t).writeKeys = s.writeKeys := rfl

end Session

theorem rotateWrite_runs {s s' : Session} {tr : List (Act Ev)} {ret : Ret}
    (h : (rotateWrite P s).Runs tr (ret, s')) :
    (∃ t, tls13KeyUpdate P s.writeKeys s.digest = (.ok (), t) ∧ ret = .ok () ∧
        tr = [.note (.writeKey t.key t.iv)] ∧
        s' = { s.setWriteKeys t with cSeq := 0 }) ∨
      ∃ e t, tls13KeyUpdate P s.writeKeys s.digest = (.error e, t) ∧
        ret = .error e ∧ s' = s.setWriteKeys t ∧
        (tr = [.note (.writeKey t.key t.iv)] ∨ tr = [] ∧ t.key = s.cKey) := by
  unfold rotateWrite at h
  split at h
  · rename_i t hupd
    simp only [Proc.runs_seq, Proc.runs_emit, Proc.runs_pure, Prod.mk.injEq] at h
    obtain ⟨-, _, _, rfl, rfl, rfl, rfl, rfl⟩ := h
    exact .inl ⟨t, hupd, rfl, rfl, rfl⟩
  · rename_i e t hupd
    split at h
    · simp only [Proc.runs_seq, Proc.runs_emit, Proc.runs_pure, Prod.mk.injEq] at h
      obtain ⟨-, _, _, rfl, rfl, rfl, rfl, rfl⟩ := h
      exact .inr ⟨e, t, hupd, rfl, rfl, .inl rfl⟩
    · rename_i hkey
      simp only [Proc.runs_pure, Prod.mk.injEq] at h
      obtain ⟨rfl, rfl, rfl⟩ := h
      exact .inr ⟨e, t, hupd, rfl, rfl, .inr ⟨rfl, not_not.1 hkey⟩⟩

/-- The observation of our KeyUpdate record. -/
def Session.keyUpdateEv (s : Session) : Ev :=
  .protect (5 + 5 + 1 + 16) s.cKey s.cIv s.cSeq recHandshake
    (keyUpdateMsg kuNotRequested)

/-- The session after a record was protected. -/
def Session.countSent (s : Session) : Session := { s with cSeq := s.cSeq + 1 }

theorem sendKeyUpdate_runs {s s' : Session} {tr : List (Act Ev)} {ret : Ret}
    (h : (sendKeyUpdate P s).Runs tr (ret, s')) :
    (sealRecord P s.cKey s.cIv s.cSeq recHandshake
          (keyUpdateMsg kuNotRequested) = none ∧
        tr = [.note s.keyUpdateEv] ∧ ret = .error .crypto ∧ s' = s) ∨
      ∃ rec, sealRecord P s.cKey s.cIv s.cSeq recHandshake
          (keyUpdateMsg kuNotRequested) = some rec ∧
        ((∃ r : Int, r ≠ rec.length ∧
            tr = [.note s.keyUpdateEv, .sent rec r] ∧
            ret = .error .crypto ∧ s' = s.countSent) ∨
          ∃ t, tr = .note s.keyUpdateEv :: .sent rec rec.length :: t ∧
            (rotateWrite P s.countSent).Runs t (ret, s')) := by
  unfold sendKeyUpdate at h
  rw [Prog.runs_run_bind] at h
  rcases h with ⟨e, _, _, rfl, hfail, rfl, heq⟩ | ⟨rec, _, _, rfl, hok, hrest⟩
  · cases heq
    rcases recordProtect_fails.1 hfail with ⟨-, hlen, -⟩ | ⟨-, hseal, rfl, rfl⟩
    · exact absurd hlen (by decide)
    · exact .inl ⟨hseal, rfl, rfl, rfl⟩
  · obtain ⟨-, hseal, rfl⟩ := recordProtect_ok.1 hok
    simp only [Proc.runs_seq, Proc.runs_write] at hrest
    obtain ⟨r, _, t, rfl, rfl, hrest⟩ := hrest
    refine .inr ⟨rec, hseal, ?_⟩
    split at hrest
    · rename_i hr
      obtain ⟨rfl, heq⟩ := hrest
      cases heq
      exact .inl ⟨r, hr, rfl, rfl, rfl⟩
    · rename_i hr
      obtain rfl : r = rec.length := not_not.1 hr
      exact .inr ⟨t, rfl, hrest⟩

/-- Rotating and announcing it leaves everything but the write side alone. -/
theorem rotateWrite_same {s s' : Session} {tr : List (Act Ev)} {ret : Ret}
    (h : (rotateWrite P s).Runs tr (ret, s')) : s.SameButWrite s' := by
  rcases rotateWrite_runs h with ⟨t, -, -, -, rfl⟩ | ⟨e, t, -, -, rfl, -⟩ <;>
    exact ⟨rfl, rfl, rfl, rfl, rfl, rfl, rfl⟩

theorem sendKeyUpdate_same {s s' : Session} {tr : List (Act Ev)} {ret : Ret}
    (h : (sendKeyUpdate P s).Runs tr (ret, s')) : s.SameButWrite s' := by
  rcases sendKeyUpdate_runs h with ⟨-, -, -, rfl⟩ | ⟨rec, -, ⟨r, -, -, -, rfl⟩ |
    ⟨t, -, hrot⟩⟩
  · exact ⟨rfl, rfl, rfl, rfl, rfl, rfl, rfl⟩
  · exact ⟨rfl, rfl, rfl, rfl, rfl, rfl, rfl⟩
  · obtain ⟨h1, h2, h3, h4, h5, h6, h7⟩ := rotateWrite_same hrot
    exact ⟨h1, h2, h3, h4, h5, h6, h7⟩

/-! ### Post-handshake records -/

/-- Everything but the read side. -/
structure Session.SameButRead (s s' : Session) : Prop where
  writeKeys : s'.writeKeys = s.writeKeys
  cSeq : s'.cSeq = s.cSeq
  frame : s.SameFrame s'

theorem Session.SameButRead.refl (s : Session) : s.SameButRead s :=
  ⟨rfl, rfl, .refl s⟩

theorem Session.sameButRead_setReadKeys (s : Session) (t : TrafficKeys) :
    s.SameButRead (s.setReadKeys t) :=
  ⟨rfl, rfl, rfl, rfl, rfl, rfl, rfl⟩

theorem Session.sameButRead_newReadKeys (s : Session) (t : TrafficKeys) :
    s.SameButRead { s.setReadKeys t with sSeq := 0 } :=
  ⟨rfl, rfl, rfl, rfl, rfl, rfl, rfl⟩

/-- One post-handshake message touches the read side only, or replies. -/
theorem posthsMsg_runs {s s' : Session} {r : Reader} {x : Except Err Reader}
    {tr : List (Act Ev)} (h : (posthsMsg P s r).Runs tr (x, s')) :
    (tr = [] ∧ s.SameButRead s') ∨
      ∃ mid ret, s.SameButRead mid ∧ (sendKeyUpdate P mid).Runs tr (ret, s') := by
  unfold posthsMsg at h
  dsimp only at h
  split at h
  · obtain ⟨rfl, heq⟩ := h
    cases heq
    exact .inl ⟨rfl, .refl s⟩
  · split at h
    · split at h
      · obtain ⟨rfl, heq⟩ := h
        cases heq
        exact .inl ⟨rfl, .refl s⟩
      · split at h
        · rename_i t _
          obtain ⟨rfl, heq⟩ := h
          cases heq
          exact .inl ⟨rfl, s.sameButRead_setReadKeys t⟩
        · rename_i t _
          split at h
          · rw [Proc.runs_seq] at h
            obtain ⟨⟨ret, s₁⟩, tr₁, _, rfl, hsend, hrest⟩ := h
            have hdone : tr₁ ++ [] = tr₁ := List.append_nil _
            cases ret with
            | error e =>
                obtain ⟨rfl, heq⟩ := hrest
                cases heq
                rw [hdone]
                exact .inr ⟨_, _, s.sameButRead_newReadKeys t, hsend⟩
            | ok u =>
                obtain ⟨rfl, heq⟩ := hrest
                cases heq
                rw [hdone]
                exact .inr ⟨_, _, s.sameButRead_newReadKeys t, hsend⟩
          · obtain ⟨rfl, heq⟩ := h
            cases heq
            exact .inl ⟨rfl, s.sameButRead_newReadKeys t⟩
    · obtain ⟨rfl, heq⟩ := h
      cases heq
      exact .inl ⟨rfl, .refl s⟩

/-- A property of (session, trace, session) that holds of steps on the read
side and of our KeyUpdate, and composes, holds of a whole record. -/
theorem posthsLoop_induction {C : Session → List (Act Ev) → Session → Prop}
    (hread : ∀ s s', s.SameButRead s' → C s [] s')
    (hsend : ∀ s s' tr ret, (sendKeyUpdate P s).Runs tr (ret, s') → C s tr s')
    (htrans : ∀ s s' s'' tr tr', C s tr s' → C s' tr' s'' → C s (tr ++ tr') s'')
    {fuel : Nat} {s s' : Session} {r : Reader} {tr : List (Act Ev)} {ret : Ret}
    (h : (posthsLoop P fuel s r).Runs tr (ret, s')) : C s tr s' := by
  have hmsg : ∀ {s s' : Session} {r : Reader} {x tr},
      (posthsMsg P s r).Runs tr (x, s') → C s tr s' := by
    intro s s' r x tr h
    rcases posthsMsg_runs h with ⟨rfl, hs⟩ | ⟨mid, ret, hs, hrun⟩
    · exact hread _ _ hs
    · exact htrans _ _ _ [] tr (hread _ _ hs) (hsend _ _ _ _ hrun)
  induction fuel generalizing s r tr with
  | zero => exact h.elim
  | succ fuel ih =>
      rw [posthsLoop] at h
      split at h
      · rw [Proc.runs_seq] at h
        obtain ⟨⟨x, s₁⟩, tr₁, tr₂, rfl, hone, hrest⟩ := h
        refine htrans _ _ _ _ _ (hmsg hone) ?_
        cases x with
        | error e =>
            obtain ⟨rfl, heq⟩ := hrest
            cases heq
            exact hread _ _ (.refl _)
        | ok r₁ =>
            simp only at hrest
            split at hrest
            · obtain ⟨rfl, heq⟩ := hrest
              cases heq
              exact hread _ _ (.refl _)
            · exact ih hrest
      · obtain ⟨rfl, heq⟩ := h
        cases heq
        exact hread _ _ (.refl _)

/-- Handling a post-handshake record reads nothing. -/
theorem sessionPosths_silent {s s' : Session} {msg : Bytes} {tr : List (Act Ev)}
    {ret : Ret} (h : (sessionPosths P s msg).Runs tr (ret, s')) :
    (∀ b, .got b ∉ tr) ∧ ∀ cap key iv seq rec, .unprotect cap key iv seq rec ∉ notes tr := by
  refine posthsLoop_induction (C := fun _ tr _ => (∀ b, .got b ∉ tr) ∧
    ∀ cap key iv seq rec, .unprotect cap key iv seq rec ∉ notes tr) ?_ ?_ ?_ h
  · simp
  · intro s s' tr ret hsend
    rcases sendKeyUpdate_runs hsend with ⟨-, rfl, -⟩ |
      ⟨rec, -, ⟨r, -, rfl, -⟩ | ⟨t, rfl, hrot⟩⟩
    · simp [Session.keyUpdateEv]
    · simp [Session.keyUpdateEv]
    · rcases rotateWrite_runs hrot with ⟨_, -, -, rfl, -⟩ |
        ⟨_, _, -, -, -, rfl | ⟨rfl, -⟩⟩ <;> simp [Session.keyUpdateEv]
  · intro s s₁ s' tr tr' h h'
    simp only [List.mem_append, notes_append, not_or]
    exact ⟨fun b => ⟨h.1 b, h'.1 b⟩, fun cap key iv seq rec =>
      ⟨h.2 cap key iv seq rec, h'.2 cap key iv seq rec⟩⟩

theorem sessionPosths_frame {s s' : Session} {msg : Bytes} {tr : List (Act Ev)}
    {ret : Ret} (h : (sessionPosths P s msg).Runs tr (ret, s')) : s.SameFrame s' :=
  posthsLoop_induction (C := fun s _ s' => s.SameFrame s')
    (fun _ _ h => h.frame) (fun _ _ _ _ h => (sendKeyUpdate_same h).frame)
    (fun _ _ _ _ _ => .trans) h

/-! ### `wn_Recv` -/

/-- The session after a record was opened. -/
def Session.countRead (s : Session) : Session := { s with sSeq := s.sSeq + 1 }

/-- The observation of opening a record. -/
def Session.openEv (s : Session) (rec : Bytes) : Ev :=
  .unprotect (s.scratchLen - recordHeaderSz) s.sKey s.sIv s.sSeq rec

/-- A close_notify alert. -/
def isCloseNotify (content : Bytes) : Prop :=
  content.length ≥ 2 ∧ content.getD 1 0 = 0

/-- What `wn_Recv` does with an opened record. -/
inductive Handled (P : Platform) (s : Session) (outCap : Nat) :
    UInt8 → Bytes → List (Act Ev) → Except Err (Option Bytes) → Session → Prop
  | deliver {plain : Bytes} (hfits : plain.length ≤ outCap) :
      Handled P s outCap recAppdata plain [.note (.copy outCap 0 plain.length)]
        (.ok (some plain)) s
  | refuse {plain : Bytes} (hbig : outCap < plain.length) :
      Handled P s outCap recAppdata plain [] (.error .invalidArg) s
  | posths {plain : Bytes} {tr : List (Act Ev)} {ret : Ret} {s' : Session}
      (hrun : (sessionPosths P s plain).Runs tr (ret, s')) :
      Handled P s outCap recHandshake plain tr (ret.map fun _ => none) s'
  | closeNotify {plain : Bytes} (hclose : isCloseNotify plain) :
      Handled P s outCap recAlert plain [] (.error .closed) { s with closed := true }
  | alert {plain : Bytes} (hother : ¬ isCloseNotify plain) :
      Handled P s outCap recAlert plain [] (.error .crypto) s
  | other {contentType : UInt8} {plain : Bytes} (happ : contentType ≠ recAppdata)
      (hhs : contentType ≠ recHandshake) (halert : contentType ≠ recAlert) :
      Handled P s outCap contentType plain [] (.error .unexpectedMsg) s

/-- One record of `wn_Recv`: none was read, it was not opened, or it was opened
at the current counter and handled. -/
inductive RecvOne (P : Platform) (s : Session) (outCap : Nat) :
    List (Act Ev) → Except Err (Option Bytes) → Session → Prop
  | unread {tr : List (Act Ev)} {e : Err}
      (hfail : Prog.Fails (recvRecord s.scratchLen) tr e) :
      RecvOne P s outCap tr (.error e) s
  | ccs {rec : Rec} (hfits : rec.Fits s.scratchLen) (hccs : rec.isCcs = true) :
      RecvOne P s outCap rec.reads (.error .unexpectedMsg) s
  | short {rec : Rec} (hfits : rec.Fits s.scratchLen) (hccs : rec.isCcs = false)
      (hlen : rec.bytes.length < 22) :
      RecvOne P s outCap rec.reads (.error .invalidArg) s
  | unopened {rec : Rec} {e : Err} (hfits : rec.Fits s.scratchLen)
      (hccs : rec.isCcs = false)
      (hopen : openRecord P s.sKey s.sIv s.sSeq rec.bytes = .error e) :
      RecvOne P s outCap (rec.reads ++ [.note (s.openEv rec.bytes)]) (.error e) s
  | opened {rec : Rec} {contentType : UInt8} {plain : Bytes} {tr : List (Act Ev)}
      {x : Except Err (Option Bytes)} {s' : Session}
      (hfits : rec.Fits s.scratchLen) (hccs : rec.isCcs = false)
      (hlen : 22 ≤ rec.bytes.length)
      (hopen : openRecord P s.sKey s.sIv s.sSeq rec.bytes
        = .ok (contentType, plain))
      (hhandled : Handled P s.countRead outCap contentType plain tr x s') :
      RecvOne P s outCap (rec.reads ++ .note (s.openEv rec.bytes) :: tr) x s'

theorem recvOne_runs {s s' : Session} {outCap : Nat} {tr : List (Act Ev)}
    {x : Except Err (Option Bytes)}
    (h : (recvOne P s outCap).Runs tr (x, s')) : RecvOne P s outCap tr x s' := by
  unfold recvOne at h
  rw [Prog.runs_run_bind] at h
  rcases h with ⟨e, tr₁, _, rfl, hfail, rfl, heq⟩ | ⟨rec, _, tr₂, rfl, hok, hrest⟩
  · cases heq
    rw [List.append_nil]
    exact .unread hfail
  · obtain ⟨hfits, rfl⟩ := recvRecord_ok.1 hok
    simp only at hrest
    split at hrest
    · rename_i hccs
      obtain ⟨rfl, heq⟩ := hrest
      cases heq
      rw [List.append_nil]
      exact .ccs hfits hccs
    · rename_i hccs
      rw [Bool.not_eq_true] at hccs
      rw [Prog.runs_run_bind] at hrest
      rcases hrest with ⟨e, _, _, rfl, hfail, rfl, heq⟩ |
        ⟨⟨contentType, plain⟩, _, tr₃, rfl, hunprotect, hrest⟩
      · cases heq
        rw [List.append_nil]
        rcases recordUnprotect_fails.1 hfail with ⟨rfl, hlen, rfl⟩ | ⟨-, hopen, rfl⟩
        · rw [List.append_nil]
          exact .short hfits hccs hlen
        · exact .unopened hfits hccs hopen
      · obtain ⟨hlen, hopen, rfl⟩ := recordUnprotect_ok.1 hunprotect
        refine .opened hfits hccs hlen hopen ?_
        simp only at hrest
        change Proc.Runs (if contentType = recAppdata then _ else _) _ _ at hrest
        split at hrest
        · rename_i htype
          subst htype
          split at hrest
          · rename_i hbig
            obtain ⟨rfl, heq⟩ := hrest
            cases heq
            exact .refuse hbig
          · rename_i hfit
            simp only [Proc.runs_seq, Proc.runs_emit, Proc.runs_pure,
              Prod.mk.injEq] at hrest
            obtain ⟨_, _, _, rfl, rfl, rfl, rfl, rfl⟩ := hrest
            exact .deliver (Nat.not_lt.1 hfit)
        · rename_i happ
          split at hrest
          · rename_i htype
            subst htype
            rw [Proc.runs_seq] at hrest
            obtain ⟨⟨ret, s₁⟩, tr₄, _, rfl, hrun, hdone⟩ := hrest
            have hnil : tr₄ ++ [] = tr₄ := List.append_nil _
            cases ret with
            | error e =>
                obtain ⟨rfl, heq⟩ := hdone
                cases heq
                rw [hnil]
                exact .posths hrun
            | ok u =>
                obtain ⟨rfl, heq⟩ := hdone
                cases heq
                rw [hnil]
                exact .posths hrun
          · rename_i hhs
            split at hrest
            · rename_i htype
              subst htype
              split at hrest
              · rename_i hclose
                obtain ⟨rfl, heq⟩ := hrest
                cases heq
                exact .closeNotify hclose
              · rename_i hother
                obtain ⟨rfl, heq⟩ := hrest
                cases heq
                exact .alert hother
            · rename_i halert
              obtain ⟨rfl, heq⟩ := hrest
              cases heq
              exact .other happ hhs halert

/-- The records of one call of `wn_Recv` on an established session. -/
inductive RecvMany (P : Platform) (outCap : Nat) :
    Session → List (Act Ev) → Except Err Bytes → Session → Prop
  | stop {s s' : Session} {tr : List (Act Ev)} {e : Err}
      (hone : RecvOne P s outCap tr (.error e) s') :
      RecvMany P outCap s tr (.error e) s'
  | data {s s' : Session} {tr : List (Act Ev)} {plain : Bytes}
      (hone : RecvOne P s outCap tr (.ok (some plain)) s') :
      RecvMany P outCap s tr (.ok plain) s'
  | skip {s s₁ s' : Session} {tr tr' : List (Act Ev)} {x : Except Err Bytes}
      (hone : RecvOne P s outCap tr (.ok none) s₁)
      (hmany : RecvMany P outCap s₁ tr' x s') :
      RecvMany P outCap s (tr ++ tr') x s'

theorem recvLoop_runs {fuel outCap : Nat} {s s' : Session} {tr : List (Act Ev)}
    {x : Except Err Bytes} (h : (recvLoop P fuel s outCap).Runs tr (x, s')) :
    RecvMany P outCap s tr x s' := by
  induction fuel generalizing s tr with
  | zero => exact h.elim
  | succ fuel ih =>
      rw [recvLoop, Proc.runs_seq] at h
      obtain ⟨⟨y, s₁⟩, tr₁, tr₂, rfl, hone, hrest⟩ := h
      have hstep := recvOne_runs hone
      rcases y with e | _ | plain
      · obtain ⟨rfl, heq⟩ := hrest
        cases heq
        rw [List.append_nil]
        exact .stop hstep
      · exact .skip hstep (ih hrest)
      · obtain ⟨rfl, heq⟩ := hrest
        cases heq
        rw [List.append_nil]
        exact .data hstep

theorem Session.check_ok {s : Session} :
    s.check = .ok () ↔ s.established = true ∧ s.closed = false := by
  unfold check
  cases s.closed <;> cases s.established <;> simp

/-- A call of `wn_Recv` either returns at once or runs its loop. -/
theorem wnRecv_runs {fuel outCap : Nat} {s : Session} {out : Option Bytes}
    {outLen : Option Nat} {tr : List (Act Ev)} {res : RecvOut}
    (h : (wnRecv P fuel s out outCap outLen).Runs tr res) :
    (tr = [] ∧ ∃ e, res = ⟨.error e, out, outLen, s⟩ ∧
        (e = .invalidArg ∧ (out = none ∨ outLen = none) ∨ s.check = .error e)) ∨
      ∃ buf n x s', out = some buf ∧ outLen = some n ∧ s.check = .ok () ∧
        RecvMany P outCap s tr x s' ∧
        ((∃ e, x = .error e ∧ res = ⟨.error e, some buf, some 0, s'⟩) ∨
          ∃ plain, x = .ok plain ∧
            res = ⟨.ok (), some (splice buf 0 plain), some plain.length, s'⟩) := by
  unfold wnRecv at h
  rcases out with _ | buf
  · obtain ⟨rfl, rfl⟩ := h
    exact .inl ⟨rfl, _, rfl, .inl ⟨rfl, .inl rfl⟩⟩
  · rcases outLen with _ | n
    · obtain ⟨rfl, rfl⟩ := h
      exact .inl ⟨rfl, _, rfl, .inl ⟨rfl, .inr rfl⟩⟩
    · rcases hcheck : s.check with e | u
      · rw [hcheck] at h
        obtain ⟨rfl, rfl⟩ := h
        exact .inl ⟨rfl, e, rfl, .inr rfl⟩
      · rw [hcheck] at h
        simp only [Proc.runs_seq] at h
        obtain ⟨⟨x, s'⟩, tr₁, _, rfl, hloop, hrest⟩ := h
        have hmany := recvLoop_runs hloop
        cases x with
        | error e =>
            obtain ⟨rfl, rfl⟩ := hrest
            rw [List.append_nil]
            exact .inr ⟨buf, n, _, s', rfl, rfl, rfl, hmany, .inl ⟨e, rfl, rfl⟩⟩
        | ok plain =>
            obtain ⟨rfl, rfl⟩ := hrest
            rw [List.append_nil]
            exact .inr ⟨buf, n, _, s', rfl, rfl, rfl, hmany,
              .inr ⟨plain, rfl, rfl⟩⟩

/-! ### `wn_Send` and `wn_Close` -/

/-- The observation of an application record. -/
def Session.sendEv (s : Session) (data : Bytes) : Ev :=
  .protect s.scratchLen s.cKey s.cIv s.cSeq recAppdata data

theorem wnSend_runs {s s' : Session} {data : Option Bytes} {tr : List (Act Ev)}
    {ret : Ret} (h : (wnSend P s data).Runs tr (ret, s')) :
    (tr = [] ∧ s' = s ∧ ∃ e, ret = .error e ∧
        (e = .invalidArg ∨ s.check = .error e)) ∨
      ∃ buf, data = some buf ∧ s.check = .ok () ∧ buf.length + 22 ≤ s.scratchLen ∧
        buf.length ≤ maxPlaintext ∧
        ((sealRecord P s.cKey s.cIv s.cSeq recAppdata buf = none ∧
            tr = [.note (s.sendEv buf)] ∧ ret = .error .crypto ∧ s' = s) ∨
          ∃ rec r, sealRecord P s.cKey s.cIv s.cSeq recAppdata buf = some rec ∧
            tr = [.note (s.sendEv buf), .sent rec r] ∧ s' = s.countSent ∧
            ret = if r = rec.length then .ok () else .error .crypto) := by
  unfold wnSend at h
  split at h
  · obtain ⟨rfl, heq⟩ := h
    cases heq
    exact .inl ⟨rfl, rfl, _, rfl, .inl rfl⟩
  · rename_i hcheck
    obtain ⟨rfl, heq⟩ := h
    cases heq
    exact .inl ⟨rfl, rfl, _, rfl, .inr hcheck⟩
  · rename_i buf hcheck
    split at h
    · obtain ⟨rfl, heq⟩ := h
      cases heq
      exact .inl ⟨rfl, rfl, _, rfl, .inl rfl⟩
    · rename_i hlen
      have hover : recordOverhead = 22 := rfl
      refine .inr ⟨buf, rfl, hcheck, by omega, by omega, ?_⟩
      rw [Prog.runs_run_bind] at h
      rcases h with ⟨e, _, _, rfl, hfail, rfl, heq⟩ | ⟨rec, _, _, rfl, hok, hrest⟩
      · cases heq
        rcases recordProtect_fails.1 hfail with ⟨-, hbig, -⟩ | ⟨-, hseal, rfl, rfl⟩
        · omega
        · exact .inl ⟨hseal, rfl, rfl, rfl⟩
      · obtain ⟨-, hseal, rfl⟩ := recordProtect_ok.1 hok
        simp only [Proc.runs_seq, Proc.runs_write] at hrest
        obtain ⟨r, _, t, rfl, rfl, hrest⟩ := hrest
        refine .inr ⟨rec, r, hseal, ?_⟩
        split at hrest
        · rename_i hr
          obtain ⟨rfl, heq⟩ := hrest
          cases heq
          exact ⟨rfl, rfl, by rw [if_neg hr]⟩
        · rename_i hr
          obtain ⟨rfl, heq⟩ := hrest
          cases heq
          exact ⟨rfl, rfl, by rw [if_pos (not_not.1 hr)]⟩

/-- The observation of the close_notify record. -/
def Session.closeEv (s : Session) : Ev :=
  .protect (5 + 2 + 1 + 16) s.cKey s.cIv s.cSeq recAlert [1, 0]

theorem wnClose_runs {s s' : Session} {tr : List (Act Ev)} {ret : Ret}
    (h : (wnClose P s).Runs tr (ret, s')) :
    s' = .zero ∧
      (tr = [] ∨ s.established = true ∧
        (tr = [.note s.closeEv] ∨ ∃ rec r, tr = [.note s.closeEv, .sent rec r])) := by
  unfold wnClose at h
  split at h
  · rename_i hopen
    have hest : s.established = true := by
      simp only [Bool.and_eq_true] at hopen
      exact hopen.1.2
    rw [Prog.runs_run_bind] at h
    rcases h with ⟨e, _, _, rfl, hfail, rfl, heq⟩ | ⟨rec, _, _, rfl, hok, hrest⟩
    · cases heq
      rcases recordProtect_fails.1 hfail with ⟨-, hbig, -⟩ | ⟨-, -, -, rfl⟩
      · exact absurd hbig (by decide)
      · exact ⟨rfl, .inr ⟨hest, .inl rfl⟩⟩
    · obtain ⟨-, -, rfl⟩ := recordProtect_ok.1 hok
      simp only [Proc.runs_seq, Proc.runs_write] at hrest
      obtain ⟨r, _, t, rfl, rfl, rfl, heq⟩ := hrest
      cases heq
      exact ⟨rfl, .inr ⟨hest, .inr ⟨rec, r, rfl⟩⟩⟩
  · obtain ⟨rfl, heq⟩ := h
    cases heq
    exact ⟨rfl, .inl rfl⟩

/-! ### Runs of calls -/

/-- A call on a session, with the caller's arguments; `none` is NULL. -/
inductive Call where
  | send (data : Option Bytes)
  | recv (out : Option Bytes) (outCap : Nat) (outLen : Option Nat)
  | close
  deriving DecidableEq

variable (P)

/-- One run of one call: its trace, its code, the data it returned and the
session it leaves. -/
inductive Call.Runs :
    Call → Session → List (Act Ev) → Ret → Option Bytes → Session → Prop
  | send {data : Option Bytes} {s s' : Session} {tr : List (Act Ev)} {ret : Ret}
      (hrun : (wnSend P s data).Runs tr (ret, s')) :
      Runs (.send data) s tr ret none s'
  | recv {fuel outCap : Nat} {out : Option Bytes} {outLen : Option Nat}
      {s : Session} {tr : List (Act Ev)} {res : RecvOut}
      (hrun : (wnRecv P fuel s out outCap outLen).Runs tr res) :
      Runs (.recv out outCap outLen) s tr res.ret res.data res.s
  | close {s s' : Session} {tr : List (Act Ev)} {ret : Ret}
      (hrun : (wnClose P s).Runs tr (ret, s')) : Runs .close s tr ret none s'

/-- What is seen of one call in a run of calls. -/
structure CallSeen where
  call : Call
  before : Session
  tr : List (Act Ev)
  ret : Ret
  data : Option Bytes

/-- Calls on one session, one after the other, with any transport behaviour. -/
inductive SessionRun : Session → List CallSeen → Session → Prop
  | nil {s : Session} : SessionRun s [] s
  | cons {s s₁ s' : Session} {call : Call} {tr : List (Act Ev)} {ret : Ret}
      {data : Option Bytes} {rest : List CallSeen}
      (hcall : call.Runs P s tr ret data s₁) (hrest : SessionRun s₁ rest s') :
      SessionRun s (⟨call, s, tr, ret, data⟩ :: rest) s'

/-- The trace of a run of calls. -/
def runTrace (calls : List CallSeen) : List (Act Ev) := calls.flatMap CallSeen.tr

/-! ### Records in a trace -/

/-- The records read in a trace: a header and the body that follows it. -/
def readRecs : List (Act Ev) → List Rec
  | .got hdr :: .got body :: tr => ⟨hdr.getD 0 0, hdr ++ body⟩ :: readRecs tr
  | _ :: tr => readRecs tr
  | [] => []

/-- Reading nothing adds no record. -/
theorem readRecs_append_silent {tr tr' : List (Act Ev)} (h : ∀ b, .got b ∉ tr) :
    readRecs (tr ++ tr') = readRecs tr' := by
  induction tr with
  | nil => rfl
  | cons a tr ih =>
      have hrest : ∀ b, .got b ∉ tr := fun b hb => h b (List.mem_cons_of_mem _ hb)
      cases a with
      | got b => exact absurd (List.mem_cons_self ..) (h b)
      | note e => exact ih hrest
      | sent buf r => exact ih hrest
      | short n => exact ih hrest

theorem readRecs_reads {rec : Rec} {cap : Nat} (hfits : rec.Fits cap)
    {tr : List (Act Ev)} : readRecs (rec.reads ++ tr) = rec :: readRecs tr := by
  have hrec : (⟨(rec.bytes.take 5).getD 0 0, rec.bytes.take 5 ++ rec.bytes.drop 5⟩ : Rec)
      = rec := by
    obtain ⟨rtype, bytes⟩ := rec
    have htype : rtype = bytes.getD 0 0 := hfits.type_eq
    simp [htype]
  change _ :: readRecs tr = _
  rw [hrec]

/-- The application data of a record that was given to the AEAD. -/
def openedApp? (P : Platform) : Ev → Option Bytes
  | .unprotect _ key iv seq rec =>
      match openRecord P key iv seq rec with
      | .ok (contentType, plain) =>
          if contentType = recAppdata then some plain else none
      | .error _ => none
  | _ => none

/-- The application records a trace consumed, in order. -/
def consumed (tr : List (Act Ev)) : List Bytes := (notes tr).filterMap (openedApp? P)

@[simp] theorem consumed_append (tr tr' : List (Act Ev)) :
    consumed P (tr ++ tr') = consumed P tr ++ consumed P tr' := by
  simp [consumed]

end WolfNano
