/-
Fragmented tickets.  The handshake drivers put a message together that comes in
several records; the session parses every record from its start, so a ticket is
skipped only when no record ends inside it.
-/
import WolfNano.KeyUpdateLast
import WolfNano.Streams

namespace WolfNano

open Duplex

/-! ### Deliveries -/

/-- A post-handshake message with the records its bytes come in. -/
inductive Delivery where
  | whole (m : PostHs)
  | cut (body : Bytes) (parts : List Bytes)
      (joined : parts.flatten = (PostHs.ticket body).encode)

namespace Delivery

def msg : Delivery → PostHs
  | whole m => m
  | cut body _ _ => .ticket body

/-- The contents of its records. -/
def contents : Delivery → List Bytes
  | whole m => [m.encode]
  | cut _ parts _ => parts

/-- The same message in a record of its own. -/
def join (d : Delivery) : Delivery := whole d.msg

/-- No record ends inside the message. -/
def Unbroken (d : Delivery) : Prop := ∀ part ∈ d.contents, part = [] ∨ part = d.msg.encode

end Delivery

/-- Where the peer is after a message in this many records. -/
def PeerState.after (P : Platform) (digest : Digest) (st : PeerState) (records : Nat) :
    PostHs → PeerState
  | .ticket _ => { st with seq := st.seq + records }
  | .keyUpdate _ => ⟨st.gen + 1, (tls13KeyUpdate P st.keys digest).2, 0⟩

/-- The peer's next record. -/
def PeerState.sealNext (P : Platform) (st : PeerState) (contentType : UInt8)
    (content : Bytes) : Option Bytes :=
  sealRecord P st.keys.key st.keys.iv (UInt64.ofNat st.seq) contentType content

/-- Handshake records with these contents, one after the other. -/
inductive Sealed (P : Platform) : PeerState → List Bytes → Bytes → Prop
  | nil {st : PeerState} : Sealed P st [] []
  | cons {st : PeerState} {content rec wire : Bytes} {contents : List Bytes}
      (hmax : content.length ≤ maxPlaintext)
      (hseal : st.sealNext P recHandshake content = some rec)
      (hrest : Sealed P { st with seq := st.seq + 1 } contents wire) :
      Sealed P st (content :: contents) (rec ++ wire)

/-- The stream of these messages. -/
inductive Delivered (P : Platform) (digest : Digest) :
    PeerState → List Delivery → Bytes → PeerState → Prop
  | nil {st : PeerState} : Delivered P digest st [] [] st
  | cons {st st' : PeerState} {d : Delivery} {ds : List Delivery} {wire wire' : Bytes}
      (hparts : Sealed P st d.contents wire)
      (hrest : Delivered P digest (st.after P digest d.contents.length d.msg) ds wire' st') :
      Delivered P digest st (d :: ds) (wire ++ wire') st'

/-! ### The loop of `wn_Recv` on a stream -/

section Returns

variable {P : Platform} {σ : Type} {answer : σ → Bytes → Int × σ}

variable (P answer) in
/-- The loop of `wn_Recv` comes to this end. -/
def Returns (outCap : Nat) (s : Session) (t : Tape σ)
    (x : (Except Err Bytes × Session) × Tape σ) : Prop :=
  ∃ fuel, (recvLoop P fuel s outCap).eval (Tape.handler answer) t = some x

variable {outCap : Nat} {s s₁ : Session} {rec content rest : Bytes} {io io₁ : σ}
  {x : (Except Err Bytes × Session) × Tape σ}

theorem Rec.not_ccs_appdata (bytes : Bytes) : ¬ (⟨recAppdata, bytes⟩ : Rec).isCcs = true := by
  intro h
  have heq : recAppdata = recChangeCipher := beq_iff_eq.1 h
  exact absurd heq (by decide)

/-- A record of the peer that fits is read and opened. -/
theorem recvOne_sealed (hopens : P.OpensSealed) {contentType : UInt8}
    (htype : contentType ≠ 0)
    (hseal : sealRecord P s.sKey s.sIv s.sSeq contentType content = some rec)
    (hmax : content.length ≤ maxPlaintext) (hcap : content.length + 22 ≤ s.scratchLen) :
    (recvRecord s.scratchLen).run.eval (Tape.handler answer) ⟨rec ++ rest, io⟩
        = some (.ok ⟨recAppdata, rec⟩, ⟨rest, io⟩) ∧
      (recordUnprotect P (s.scratchLen - recordHeaderSz) s.sKey s.sIv s.sSeq rec).run.eval
          (Tape.handler answer) ⟨rest, io⟩
        = some (.ok (contentType, content), ⟨rest, io⟩) := by
  have hlen := sealRecord_length hseal
  refine ⟨recvRecord_eval (sealRecord_fits hseal hmax hcap), ?_⟩
  rw [Prog.run_eval, recordUnprotect_eval (by omega), openRecord_sealRecord hopens htype hseal]

theorem recvOne_handshake (hopens : P.OpensSealed)
    (hseal : sealRecord P s.sKey s.sIv s.sSeq recHandshake content = some rec)
    (hmax : content.length ≤ maxPlaintext) (hcap : content.length + 22 ≤ s.scratchLen) :
    (recvOne P s outCap).eval (Tape.handler answer) ⟨rec ++ rest, io⟩ =
      ((sessionPosths P { s with sSeq := s.sSeq + 1 } content).eval (Tape.handler answer)
        ⟨rest, io⟩).map fun x => ((x.1.1.map fun _ => none, x.1.2), x.2) := by
  obtain ⟨hread, hopen⟩ := @recvOne_sealed P σ answer s rec content rest io hopens _
    (by decide) hseal hmax hcap
  unfold recvOne
  rw [Proc.eval_bind, hread, Option.bind_some]
  dsimp only
  rw [if_neg (Rec.not_ccs_appdata rec), Proc.eval_bind, hopen, Option.bind_some]
  dsimp only
  rw [if_neg (by decide), if_pos rfl, Proc.eval_bind]
  cases (sessionPosths P { s with sSeq := s.sSeq + 1 } content).eval (Tape.handler answer)
      ⟨rest, io⟩ with
  | none => rfl
  | some x =>
      obtain ⟨⟨e | u, s'⟩, t⟩ := x
      · rfl
      · rfl

theorem recvOne_appdata (hopens : P.OpensSealed)
    (hseal : sealRecord P s.sKey s.sIv s.sSeq recAppdata content = some rec)
    (hmax : content.length ≤ maxPlaintext) (hcap : content.length + 22 ≤ s.scratchLen) :
    (recvOne P s outCap).eval (Tape.handler answer) ⟨rec ++ rest, io⟩ =
      some (if outCap < content.length then
          ((.error .invalidArg, { s with sSeq := s.sSeq + 1 }), ⟨rest, io⟩)
        else ((.ok (some content), { s with sSeq := s.sSeq + 1 }), ⟨rest, io⟩)) := by
  obtain ⟨hread, hopen⟩ := @recvOne_sealed P σ answer s rec content rest io hopens _
    (by decide) hseal hmax hcap
  unfold recvOne
  rw [Proc.eval_bind, hread, Option.bind_some]
  dsimp only
  rw [if_neg (Rec.not_ccs_appdata rec), Proc.eval_bind, hopen, Option.bind_some]
  dsimp only
  rw [if_pos rfl]
  by_cases hout : outCap < content.length
  · rw [if_pos hout, if_pos hout]
    rfl
  · rw [if_neg hout, if_neg hout]
    rfl

/-- A record that is too long for the session's buffer. -/
theorem recvOne_long {contentType : UInt8}
    (hseal : sealRecord P s.sKey s.sIv s.sSeq contentType content = some rec)
    (hmax : content.length ≤ maxPlaintext) (hlong : s.scratchLen < content.length + 22) :
    ∃ t, (recvOne P s outCap).eval (Tape.handler answer) ⟨rec ++ rest, io⟩ =
      some ((.error .crypto, s), t) := by
  have hfits := sealRecord_fits hseal hmax (Nat.le_refl _)
  have hread := @recvRecord_eval_long σ answer io _ rest s.scratchLen
    (Nat.le_of_lt hfits.nonempty) hfits.length_eq
    (by rw [← sealRecord_length hseal] at hlong; exact hlong)
  refine ⟨⟨rec.drop 5 ++ rest, io⟩, ?_⟩
  unfold recvOne
  rw [Proc.eval_bind, Prog.run_eval, hread]
  rfl

/-- What the loop makes of a record that was dealt with. -/
theorem Returns.skip {t t₁ : Tape σ}
    (hone : (recvOne P s outCap).eval (Tape.handler answer) t = some ((.ok none, s₁), t₁)) :
    Returns P answer outCap s t x ↔ Returns P answer outCap s₁ t₁ x := by
  have hstep : ∀ fuel, (recvLoop P (fuel + 1) s outCap).eval (Tape.handler answer) t =
      (recvLoop P fuel s₁ outCap).eval (Tape.handler answer) t₁ := by
    intro fuel
    rw [recvLoop, Proc.eval_bind, hone]
    rfl
  constructor
  · rintro ⟨fuel, hrun⟩
    cases fuel with
    | zero => cases hrun
    | succ fuel => exact ⟨fuel, (hstep fuel).symm.trans hrun⟩
  · rintro ⟨fuel, hrun⟩
    exact ⟨fuel + 1, (hstep fuel).trans hrun⟩

/-- What the loop makes of a record that ends it. -/
theorem Returns.stop {t t₁ : Tape σ} {y : Except Err Bytes}
    (hone : ∃ o : Except Err (Option Bytes), (recvOne P s outCap).eval (Tape.handler answer) t
      = some ((o, s₁), t₁) ∧ o = y.map some) :
    Returns P answer outCap s t x ↔ x = ((y, s₁), t₁) := by
  obtain ⟨o, hone, rfl⟩ := hone
  have hstep : ∀ fuel, (recvLoop P (fuel + 1) s outCap).eval (Tape.handler answer) t =
      some ((y, s₁), t₁) := by
    intro fuel
    rw [recvLoop, Proc.eval_bind, hone]
    cases y <;> rfl
  constructor
  · rintro ⟨fuel, hrun⟩
    cases fuel with
    | zero => cases hrun
    | succ fuel =>
        rw [hstep] at hrun
        exact (Option.some.inj hrun).symm
  · rintro rfl
    exact ⟨1, hstep 0⟩

/-- A handshake record of whole messages, or of none. -/
theorem Returns.handled (hopens : P.OpensSealed)
    (hseal : sealRecord P s.sKey s.sIv s.sSeq recHandshake content = some rec)
    (hmax : content.length ≤ maxPlaintext) (hcap : content.length + 22 ≤ s.scratchLen)
    (hposths : (sessionPosths P { s with sSeq := s.sSeq + 1 } content).eval
      (Tape.handler answer) ⟨rest, io⟩ = some ((.ok (), s₁), ⟨rest, io₁⟩)) :
    Returns P answer outCap s ⟨rec ++ rest, io⟩ x ↔
      Returns P answer outCap s₁ ⟨rest, io₁⟩ x := by
  apply Returns.skip
  rw [recvOne_handshake hopens hseal hmax hcap, hposths]
  rfl

/-- A handshake record that is not whole messages ends the loop. -/
theorem Returns.broken (hopens : P.OpensSealed)
    (hseal : sealRecord P s.sKey s.sIv s.sSeq recHandshake content = some rec)
    (hmax : content.length ≤ maxPlaintext) (hcap : content.length + 22 ≤ s.scratchLen)
    (hbroken : ∀ msgs, (∀ m ∈ msgs, PostHs.Fits m) → content ≠ PostHs.encodeAll msgs)
    (h : Returns P answer outCap s ⟨rec ++ rest, io⟩ x) : ∃ e, x.1.1 = .error e := by
  obtain ⟨fuel, hrun⟩ := h
  cases fuel with
  | zero => cases hrun
  | succ fuel =>
      have hplain : maxPlaintext = 16384 := rfl
      rw [recvLoop, Proc.eval_bind, recvOne_handshake hopens hseal hmax hcap] at hrun
      cases hposths : (sessionPosths P { s with sSeq := s.sSeq + 1 } content).eval
          (Tape.handler answer) ⟨rest, io⟩ with
      | none =>
          rw [hposths] at hrun
          cases hrun
      | some y =>
          obtain ⟨⟨ret, s'⟩, t⟩ := y
          cases ret with
          | error e =>
              rw [hposths] at hrun
              cases hrun
              exact ⟨e, rfl⟩
          | ok u =>
              obtain ⟨tr, hruns⟩ := Proc.eval_runs hposths
              obtain ⟨msgs, hmsgs, heq, -⟩ := (sessionPosths_ok (by omega)).1 hruns
              exact absurd heq (hbroken msgs hmsgs)

theorem Returns.long {contentType : UInt8}
    (hseal : sealRecord P s.sKey s.sIv s.sSeq contentType content = some rec)
    (hmax : content.length ≤ maxPlaintext) (hlong : s.scratchLen < content.length + 22)
    (h : Returns P answer outCap s ⟨rec ++ rest, io⟩ x) : ∃ e, x.1.1 = .error e := by
  obtain ⟨t, hone⟩ := @recvOne_long P σ answer outCap s rec content rest io contentType
    hseal hmax hlong
  rw [(Returns.stop (y := .error .crypto) ⟨_, hone, rfl⟩).1 h]
  exact ⟨_, rfl⟩

/-- Application data ends the loop. -/
theorem Returns.appdata (hopens : P.OpensSealed)
    (hseal : sealRecord P s.sKey s.sIv s.sSeq recAppdata content = some rec)
    (hmax : content.length ≤ maxPlaintext) (hcap : content.length + 22 ≤ s.scratchLen) :
    Returns P answer outCap s ⟨rec ++ rest, io⟩ x ↔
      x = ((if outCap < content.length then .error .invalidArg else .ok content,
        { s with sSeq := s.sSeq + 1 }), ⟨rest, io⟩) := by
  refine Returns.stop ⟨_, (recvOne_appdata hopens hseal hmax hcap).trans ?_, rfl⟩
  by_cases hout : outCap < content.length
  · rw [if_pos hout, if_pos hout]
    rfl
  · rw [if_neg hout, if_neg hout]
    rfl

end Returns

/-! ### Messages -/

section Messages

variable {P : Platform} {σ : Type} {answer : σ → Bytes → Int × σ} {s : Session}
  {content : Bytes} {io : σ}

theorem sessionPosths_empty : sessionPosths P s [] = pure (.ok (), s) :=
  @PostHs.sessionPosths_encodeAll P s [] (by simp) (by simp)

theorem sessionPosths_one {m : PostHs} (hm : m.Fits) (hlen : m.encode.length < 2 ^ 32) :
    sessionPosths P s m.encode = PostHs.handleAll P s [m] := by
  have hone := @PostHs.sessionPosths_encodeAll P s [m]
    (by simpa using hm) (by simpa using hlen)
  rwa [PostHs.encodeAll_cons, PostHs.encodeAll_nil, List.append_nil] at hone

/-- A record of a peer has room for the length of a ticket. -/
theorem PostHs.fits_of_length {m : PostHs} (h : m.encode.length ≤ maxPlaintext) : m.Fits := by
  cases m with
  | ticket body =>
      have hmax : maxPlaintext = 16384 := rfl
      simp only [PostHs.encode, List.length_cons, List.length_append] at h
      change body.length < 2 ^ 24
      omega
  | keyUpdate requested => trivial

/-- Part of a message is not a sequence of messages. -/
theorem PostHs.prefix_not_whole {m : PostHs} {more : Bytes} (hm : m.Fits)
    (hcontent : content ≠ []) (hmore : more ≠ []) (heq : content ++ more = m.encode)
    {msgs : List PostHs} (hmsgs : ∀ m ∈ msgs, PostHs.Fits m) :
    content ≠ PostHs.encodeAll msgs := by
  rintro rfl
  cases msgs with
  | nil => exact hcontent rfl
  | cons m' msgs =>
      rw [PostHs.encodeAll_cons, List.append_assoc, ← List.append_nil m.encode] at heq
      obtain ⟨-, hnil⟩ := PostHs.encode_inj (hmsgs m' (List.mem_cons_self ..)) hm heq
      exact hmore (List.append_eq_nil_iff.1 hnil).2

theorem recordProtect_eval {τ : Type} {h : Handler τ} (cap : Nat) (key iv : Bytes)
    (seq : UInt64) (contentType : UInt8) (content : Bytes) : ∃ r, ∀ t,
    (recordProtect P cap key iv seq contentType content).run.eval h t = some (r, t) := by
  unfold recordProtect
  by_cases hlong : content.length > maxPlaintext
  · exact ⟨_, fun t => Prog.eval_bind_of_error (Prog.eval_failIf_pos hlong)⟩
  · cases hseal : sealRecord P key iv seq contentType content with
    | none =>
        refine ⟨.error .crypto, fun t => ?_⟩
        rw [Prog.run_eval, Prog.eval_bind_of_ok (Prog.eval_failIf_neg hlong),
          Prog.eval_bind_of_ok Prog.eval_note]
        rfl
    | some rec =>
        refine ⟨.ok rec, fun t => ?_⟩
        rw [Prog.run_eval, Prog.eval_bind_of_ok (Prog.eval_failIf_neg hlong),
          Prog.eval_bind_of_ok Prog.eval_note]
        rfl

theorem rotateWrite_eval {τ : Type} {h : Handler τ} (s : Session) : ∃ y, ∀ t,
    (rotateWrite P s).eval h t = some (y, t) := by
  unfold rotateWrite
  rcases tls13KeyUpdate P s.writeKeys s.digest with ⟨e | u, t⟩
  · dsimp only
    split
    · exact ⟨_, fun _ => rfl⟩
    · exact ⟨_, fun _ => rfl⟩
  · exact ⟨_, fun _ => rfl⟩

/-- Answering a KeyUpdate does not read from the transport. -/
theorem sendKeyUpdate_eval (s : Session) (io : σ) : ∃ y io', ∀ rest,
    (sendKeyUpdate P s).eval (Tape.handler answer) ⟨rest, io⟩ = some (y, ⟨rest, io'⟩) := by
  obtain ⟨r, hr⟩ := recordProtect_eval (P := P) (h := Tape.handler answer) (5 + 5 + 1 + 16)
    s.cKey s.cIv s.cSeq recHandshake (keyUpdateMsg kuNotRequested)
  unfold sendKeyUpdate
  cases r with
  | error e =>
      refine ⟨(.error e, s), io, fun rest => ?_⟩
      rw [Proc.eval_bind, hr]
      rfl
  | ok rec =>
      obtain ⟨y, hy⟩ := rotateWrite_eval (P := P) (h := Tape.handler answer)
        { s with cSeq := s.cSeq + 1 }
      by_cases hsent : (answer io rec).1 = rec.length
      · refine ⟨y, (answer io rec).2, fun rest => ?_⟩
        rw [Proc.eval_bind, hr, Option.bind_some]
        dsimp only
        rw [Proc.eval_bind, Proc.eval_write, Option.bind_some]
        change (if (answer io rec).1 ≠ rec.length then _ else _ : Proc Ev _).eval _ _ = _
        rw [if_neg (not_not.2 hsent)]
        exact hy _
      · refine ⟨(.error .crypto, { s with cSeq := s.cSeq + 1 }), (answer io rec).2,
          fun rest => ?_⟩
        rw [Proc.eval_bind, hr, Option.bind_some]
        dsimp only
        rw [Proc.eval_bind, Proc.eval_write, Option.bind_some]
        change (if (answer io rec).1 ≠ rec.length then _ else _ : Proc Ev _).eval _ _ = _
        rw [if_pos hsent]
        rfl

/-- A KeyUpdate is handled in one way, whatever was counted and whatever comes
after it. -/
theorem handle_keyUpdate_eval (s : Session) (requested : Bool) (io : σ) :
    (∃ s₁ io', s₁.scratchLen = s.scratchLen ∧ s₁.digest = s.digest ∧
      s₁.readKeys = (tls13KeyUpdate P s.readKeys s.digest).2 ∧ s₁.sSeq = 0 ∧
      ∀ (seq : UInt64) (rest : Bytes),
        (PostHs.handleAll P { s with sSeq := seq } [.keyUpdate requested]).eval
          (Tape.handler answer) ⟨rest, io⟩ = some ((.ok (), s₁), ⟨rest, io'⟩)) ∨
    ∀ (seq : UInt64) (rest : Bytes), ∃ e s' t,
        (PostHs.handleAll P { s with sSeq := seq } [.keyUpdate requested]).eval
          (Tape.handler answer) ⟨rest, io⟩ = some ((.error e, s'), t) := by
  rcases hupd : tls13KeyUpdate P s.readKeys s.digest with ⟨e | u, t⟩
  · right
    intro seq rest
    have hhandle : PostHs.handle P { s with sSeq := seq } (.keyUpdate requested) =
        pure (.error e, ({ s with sSeq := seq } : Session).setReadKeys t) := by
      rw [PostHs.handle, show ({ s with sSeq := seq } : Session).readKeys = s.readKeys from rfl,
        hupd]
    refine ⟨e, ({ s with sSeq := seq } : Session).setReadKeys t, ⟨rest, io⟩, ?_⟩
    rw [PostHs.handleAll_singleton, hhandle]
    rfl
  · have hhandle : ∀ seq, PostHs.handle P { s with sSeq := seq } (.keyUpdate requested) =
        if requested then sendKeyUpdate P { s.setReadKeys t with sSeq := 0 }
        else pure (.ok (), { s.setReadKeys t with sSeq := 0 }) := by
      intro seq
      rw [PostHs.handle, show ({ s with sSeq := seq } : Session).readKeys = s.readKeys from rfl,
        hupd]
      rfl
    by_cases hrequested : requested = true
    · obtain ⟨⟨ret, s₁⟩, io', hsend⟩ := @sendKeyUpdate_eval P σ answer
        { s.setReadKeys t with sSeq := 0 } io
      obtain ⟨tr, hruns⟩ := Proc.eval_runs (hsend [])
      have hsame := sendKeyUpdate_same hruns
      cases ret with
      | error e =>
          right
          intro seq rest
          refine ⟨e, s₁, ⟨rest, io'⟩, ?_⟩
          rw [PostHs.handleAll_singleton, hhandle, if_pos hrequested, hsend]
      | ok u =>
          left
          refine ⟨s₁, io', hsame.scratchLen, hsame.digest, hsame.readKeys, hsame.sSeq, ?_⟩
          intro seq rest
          rw [PostHs.handleAll_singleton, hhandle, if_pos hrequested, hsend]
    · left
      refine ⟨{ s.setReadKeys t with sSeq := 0 }, io, rfl, rfl, rfl, rfl, ?_⟩
      intro seq rest
      rw [PostHs.handleAll_singleton, hhandle, if_neg hrequested]
      rfl

/-- What the count is after a message. -/
def PostHs.seqAfter : PostHs → UInt64 → UInt64
  | .ticket _, seq => seq
  | .keyUpdate _, _ => 0

variable (P answer) in
/-- The session deals with a message in this way, whatever was counted and whatever
comes after it. -/
structure DealtWith (s : Session) (io : σ) (m : PostHs) (s₁ : Session) (io₁ : σ) : Prop where
  scratchLen : s₁.scratchLen = s.scratchLen
  digest : s₁.digest = s.digest
  readKeys : ∀ (st : PeerState) k, s.readKeys = st.keys →
    s₁.readKeys = (st.after P s.digest k m).keys
  eval : ∀ (seq : UInt64) (rest : Bytes),
    (sessionPosths P { s with sSeq := seq } m.encode).eval (Tape.handler answer) ⟨rest, io⟩
      = some ((.ok (), { s₁ with sSeq := m.seqAfter seq }), ⟨rest, io₁⟩)

theorem DealtWith.ticket {body : Bytes} (hfits : (PostHs.ticket body).Fits) :
    DealtWith P answer s io (.ticket body) s io where
  scratchLen := rfl
  digest := rfl
  readKeys _ _ h := h
  eval seq rest := by
    have hbody : body.length < 2 ^ 24 := hfits
    have hlen : (PostHs.ticket body).encode.length < 2 ^ 32 := by
      simp only [PostHs.encode, List.length_cons, List.length_append, u24_length]
      omega
    rw [sessionPosths_one hfits hlen]
    rfl

variable {st : PeerState} {rest wire : Bytes} {outCap : Nat} {parts : List Bytes}
  {x : (Except Err Bytes × Session) × Tape σ}

/-- A message that was accepted in a record of its own. -/
theorem Returns.whole (hopens : P.OpensSealed) {m : PostHs} (hkeys : s.readKeys = st.keys)
    (hseq : s.sSeq = UInt64.ofNat st.seq) (hsealed : Sealed P st [m.encode] wire)
    {data : Bytes} (hok : x.1.1 = .ok data)
    (h : Returns P answer outCap s ⟨wire ++ rest, io⟩ x) :
    m.encode.length ≤ maxPlaintext ∧ m.encode.length + 22 ≤ s.scratchLen ∧
      ∃ s₁ io₁, DealtWith P answer s io m s₁ io₁ ∧
        Returns P answer outCap { s₁ with sSeq := m.seqAfter (s.sSeq + 1) } ⟨rest, io₁⟩ x := by
  cases hsealed with
  | @cons _ _ rec wire' _ hmax hseal hrest =>
  cases hrest
  rw [List.append_nil] at h
  have hseal' : sealRecord P s.sKey s.sIv s.sSeq recHandshake m.encode = some rec := by
    rw [hseq, show s.sKey = st.keys.key from congrArg TrafficKeys.key hkeys,
      show s.sIv = st.keys.iv from congrArg TrafficKeys.iv hkeys]
    exact hseal
  have hfits := PostHs.fits_of_length hmax
  have hplain : maxPlaintext = 16384 := rfl
  have hcap : m.encode.length + 22 ≤ s.scratchLen := by
    by_contra hlong
    obtain ⟨e, herr⟩ := Returns.long hseal' hmax (Nat.lt_of_not_le hlong) h
    rw [hok] at herr
    cases herr
  have hone : ∀ seq : UInt64, sessionPosths P { s with sSeq := seq } m.encode =
      PostHs.handleAll P { s with sSeq := seq } [m] := fun seq =>
    sessionPosths_one hfits (by omega)
  refine ⟨hmax, hcap, ?_⟩
  cases m with
  | ticket body =>
      have hhandled := @DealtWith.ticket P σ answer s io _ hfits
      exact ⟨s, io, hhandled, (Returns.handled hopens hseal' hmax hcap
        (hhandled.eval _ _)).1 h⟩
  | keyUpdate requested =>
      rcases @handle_keyUpdate_eval P σ answer s requested io with
        ⟨s₁, io₁, hscratch, hdigest, hreads, hzero, heval⟩ | herror
      · have hs₁ : ({ s₁ with sSeq := 0 } : Session) = s₁ := by
          rw [← hzero]
        have hhandled : DealtWith P answer s io (.keyUpdate requested) s₁ io₁ := by
          refine ⟨hscratch, hdigest, ?_, ?_⟩
          · intro st' k hst
            rw [hreads, hst]
            rfl
          · intro seq rest
            rw [hone, heval]
            change _ = some ((_, ({ s₁ with sSeq := 0 } : Session)), _)
            rw [hs₁]
        exact ⟨s₁, io₁, hhandled, (Returns.handled hopens hseal' hmax hcap
          (hhandled.eval _ _)).1 h⟩
      · obtain ⟨fuel, hrun⟩ := h
        cases fuel with
        | zero => cases hrun
        | succ fuel =>
            obtain ⟨e, s', t, herr⟩ := herror (s.sSeq + 1) rest
            rw [recvLoop, Proc.eval_bind, recvOne_handshake hopens hseal' hmax hcap, hone,
              herr] at hrun
            cases hrun
            cases hok

/-- The session reads where the peer writes. -/
theorem PeerState.sealNext_session {contentType : UInt8} {rec : Bytes}
    (hkeys : s.readKeys = st.keys) (hseq : s.sSeq = UInt64.ofNat st.seq)
    (h : st.sealNext P contentType content = some rec) :
    sealRecord P s.sKey s.sIv s.sSeq contentType content = some rec := by
  rw [hseq, show s.sKey = st.keys.key from congrArg TrafficKeys.key hkeys,
    show s.sIv = st.keys.iv from congrArg TrafficKeys.iv hkeys]
  exact h

theorem seqNumber_succ (n : Nat) : UInt64.ofNat n + 1 = UInt64.ofNat (n + 1) :=
  (UInt64.ofNat_add n 1).symm

/-- Records that hold a whole ticket or nothing. -/
theorem Returns.unbroken (hopens : P.OpensSealed) {body : Bytes}
    (hfits : (PostHs.ticket body).Fits) (hkeys : s.readKeys = st.keys)
    (hseq : s.sSeq = UInt64.ofNat st.seq)
    (hcap : (PostHs.ticket body).encode.length + 22 ≤ s.scratchLen)
    (hsealed : Sealed P st parts wire)
    (hparts : ∀ part ∈ parts, part = [] ∨ part = (PostHs.ticket body).encode) :
    Returns P answer outCap s ⟨wire ++ rest, io⟩ x ↔
      Returns P answer outCap { s with sSeq := UInt64.ofNat (st.seq + parts.length) }
        ⟨rest, io⟩ x := by
  induction hsealed generalizing s with
  | nil =>
      have hs : ({ s with sSeq := UInt64.ofNat (PeerState.seq ‹_› + 0) } : Session) = s := by
        rw [Nat.add_zero, ← hseq]
      rw [List.length_nil, hs]
      rfl
  | @cons st content rec wire parts hmax hseal hrest ih =>
      have hseal' := PeerState.sealNext_session hkeys hseq hseal
      have hposths : (sessionPosths P { s with sSeq := s.sSeq + 1 } content).eval
          (Tape.handler answer) ⟨wire ++ rest, io⟩
            = some ((.ok (), { s with sSeq := s.sSeq + 1 }), ⟨wire ++ rest, io⟩) := by
        rcases hparts content (List.mem_cons_self ..) with rfl | rfl
        · rw [sessionPosths_empty]
          rfl
        · exact (DealtWith.ticket hfits).eval _ _
      have hroom : content.length + 22 ≤ s.scratchLen := by
        rcases hparts content (List.mem_cons_self ..) with rfl | rfl
        · simp only [List.length_nil]
          omega
        · exact hcap
      have htail := ih (s := { s with sSeq := s.sSeq + 1 }) hkeys
        (by rw [hseq]; exact seqNumber_succ _) hcap
        (fun part hpart => hparts part (List.mem_cons_of_mem _ hpart))
      rw [List.append_assoc, Returns.handled hopens hseal' hmax hroom hposths, htail,
        List.length_cons, Nat.add_assoc, Nat.add_comm 1]

/-- A record that ends inside a ticket. -/
theorem Returns.cut (hopens : P.OpensSealed) {m : PostHs}
    (hfits : m.Fits) (hkeys : s.readKeys = st.keys)
    (hseq : s.sSeq = UInt64.ofNat st.seq) (hcap : m.encode.length + 22 ≤ s.scratchLen)
    (hsealed : Sealed P st parts wire) (hjoined : parts.flatten = m.encode)
    (hcut : ∃ part ∈ parts, part ≠ [] ∧ part ≠ m.encode)
    (h : Returns P answer outCap s ⟨wire ++ rest, io⟩ x) : ∃ e, x.1.1 = .error e := by
  induction hsealed generalizing s with
  | nil =>
      obtain ⟨part, hmem, -⟩ := hcut
      cases hmem
  | @cons st content rec wire parts hmax hseal hrest ih =>
      have hseal' := PeerState.sealNext_session hkeys hseq hseal
      rw [List.append_assoc] at h
      rw [List.flatten_cons] at hjoined
      have hroom : content.length + 22 ≤ s.scratchLen := by
        have hlen := congrArg List.length hjoined
        rw [List.length_append] at hlen
        omega
      by_cases hempty : content = []
      · subst hempty
        have hposths : (sessionPosths P { s with sSeq := s.sSeq + 1 } []).eval
            (Tape.handler answer) ⟨wire ++ rest, io⟩
              = some ((.ok (), { s with sSeq := s.sSeq + 1 }), ⟨wire ++ rest, io⟩) := by
          rw [sessionPosths_empty]
          rfl
        rw [Returns.handled hopens hseal' hmax hroom hposths] at h
        refine ih (s := { s with sSeq := s.sSeq + 1 }) hkeys
          (by rw [hseq]; exact seqNumber_succ _) hcap hjoined ?_ h
        obtain ⟨part, hmem, hne, hpart⟩ := hcut
        rcases List.mem_cons.1 hmem with rfl | hmem
        · exact absurd rfl hne
        · exact ⟨part, hmem, hne, hpart⟩
      · by_cases hmore : parts.flatten = []
        · -- then this record is the whole message and the others are empty
          rw [hmore, List.append_nil] at hjoined
          obtain ⟨part, hmem, hne, hpart⟩ := hcut
          rcases List.mem_cons.1 hmem with rfl | hmem
          · exact absurd hjoined hpart
          · exact absurd (List.flatten_eq_nil_iff.1 hmore part hmem) hne
        · exact Returns.broken hopens hseal' hmax hroom
            (fun msgs hmsgs => PostHs.prefix_not_whole hfits hempty hmore hjoined hmsgs) h

/-- What was counted before does not matter. -/
theorem DealtWith.uncounted {m : PostHs} {s₁ : Session} {io₁ : σ} {seq : UInt64}
    (h : DealtWith P answer s io m s₁ io₁) :
    DealtWith P answer { s with sSeq := seq } io m s₁ io₁ :=
  ⟨h.scratchLen, h.digest, h.readKeys, h.eval⟩

/-- A ticket leaves everything but the count. -/
theorem DealtWith.of_ticket {body : Bytes} {s₁ : Session} {io₁ : σ}
    (hfits : (PostHs.ticket body).Fits) (h : DealtWith P answer s io (.ticket body) s₁ io₁)
    (seq : UInt64) : io₁ = io ∧
      ({ s₁ with sSeq := seq } : Session) = { s with sSeq := seq } := by
  have heval := (h.eval seq []).symm.trans ((DealtWith.ticket hfits).eval seq [])
  simp only [Option.some.injEq, Prod.mk.injEq, Tape.mk.injEq, true_and] at heval
  exact ⟨heval.2, heval.1⟩

theorem PostHs.seqAfter_eq (m : PostHs) (st : PeerState) (k : Nat) (digest : Digest) :
    m.seqAfter (UInt64.ofNat (st.seq + k)) = UInt64.ofNat (st.after P digest k m).seq := by
  cases m with
  | ticket body => rfl
  | keyUpdate requested => rfl

/-- A message no record ends inside of. -/
theorem Returns.delivery (hopens : P.OpensSealed) {digest : Digest} {d : Delivery}
    {s₁ : Session} {io₁ : σ}
    (hkeys : s.readKeys = st.keys) (hseq : s.sSeq = UInt64.ofNat st.seq)
    (hmax : d.msg.encode.length ≤ maxPlaintext)
    (hcap : d.msg.encode.length + 22 ≤ s.scratchLen)
    (hsealed : Sealed P st d.contents wire) (hd : d.Unbroken)
    (hdealt : DealtWith P answer s io d.msg s₁ io₁) :
    Returns P answer outCap s ⟨wire ++ rest, io⟩ x ↔
      Returns P answer outCap
        { s₁ with sSeq := UInt64.ofNat (st.after P digest d.contents.length d.msg).seq }
        ⟨rest, io₁⟩ x := by
  cases d with
  | whole m =>
      cases hsealed with
      | @cons _ _ rec wire' _ _ hseal hrest =>
      cases hrest
      have hafter := PostHs.seqAfter_eq (P := P) m st 1 digest
      have hposths := hdealt.eval (s.sSeq + 1) rest
      rw [hseq, seqNumber_succ] at hposths
      change _ = some ((_, { s₁ with sSeq := m.seqAfter (UInt64.ofNat (st.seq + 1)) }), _)
        at hposths
      rw [hafter] at hposths
      rw [List.append_nil]
      refine Returns.handled hopens (PeerState.sealNext_session hkeys hseq hseal) hmax hcap ?_
      rw [hseq, seqNumber_succ]
      exact hposths
  | cut body parts joined =>
      have hfits := PostHs.fits_of_length hmax
      obtain ⟨rfl, hsame⟩ := hdealt.of_ticket hfits (UInt64.ofNat (st.seq + parts.length))
      rw [Returns.unbroken hopens hfits hkeys hseq hcap hsealed hd]
      change _ ↔ Returns P answer outCap
        { s₁ with sSeq := UInt64.ofNat (st.seq + parts.length) } _ _
      rw [hsame]
      exact Iff.rfl

/-- Where the peer is does not depend on what it counted before. -/
theorem PeerState.after_eq (st : PeerState) (n k : Nat) (m : PostHs) (digest : Digest) :
    ({ st with seq := n } : PeerState).after P digest k m =
      { st.after P digest 1 m with
        seq := (({ st with seq := n } : PeerState).after P digest k m).seq } := by
  cases m with
  | ticket body => rfl
  | keyUpdate requested => rfl

/-- The two streams. -/
theorem Returns.deliveries (hopens : P.OpensSealed) {ds : List Delivery} {n : Nat}
    {stW stC : PeerState} {wireW wireC recW recC data out : Bytes} {s' : Session}
    {t : Tape σ} (hkeys : s.readKeys = st.keys) (hseq : s.sSeq = UInt64.ofNat st.seq)
    (hwhole : Delivered P s.digest st (ds.map .join) wireW stW)
    (hcut : Delivered P s.digest { st with seq := n } ds wireC stC)
    (happW : stW.sealNext P recAppdata data = some recW)
    (happC : stC.sealNext P recAppdata data = some recC)
    (hdata : data.length ≤ maxPlaintext)
    (hrun : Returns P answer outCap s ⟨wireW ++ recW, io⟩ ((.ok out, s'), t)) :
    ((∃ d s'' t', Returns P answer outCap { s with sSeq := UInt64.ofNat n }
        ⟨wireC ++ recC, io⟩ ((.ok d, s''), t')) → ∀ d ∈ ds, d.Unbroken) ∧
      ((∀ d ∈ ds, d.Unbroken) →
        Returns P answer outCap { s with sSeq := UInt64.ofNat n } ⟨wireC ++ recC, io⟩
          ((.ok out, { s' with sSeq := UInt64.ofNat (stC.seq + 1) }), t)) := by
  induction ds generalizing s st n io wireW wireC with
  | nil =>
      cases hwhole
      cases hcut
      have hsealW := PeerState.sealNext_session hkeys hseq happW
      have hsealC := @PeerState.sealNext_session P
        { s with sSeq := UInt64.ofNat n } data { stW with seq := n } recAppdata recC hkeys rfl happC
      have hcap : data.length + 22 ≤ s.scratchLen := by
        by_contra hlong
        rw [List.nil_append, ← List.append_nil recW] at hrun
        obtain ⟨e, herr⟩ := Returns.long hsealW hdata (Nat.lt_of_not_le hlong) hrun
        cases herr
      refine ⟨by simp, fun _ => ?_⟩
      rw [List.nil_append, ← List.append_nil recW, Returns.appdata hopens hsealW hdata hcap]
        at hrun
      rw [List.nil_append, ← List.append_nil recC, Returns.appdata hopens hsealC hdata hcap]
      by_cases hout : outCap < data.length
      · rw [if_pos hout] at hrun
        cases hrun
      · rw [if_neg hout] at hrun ⊢
        cases hrun
        rw [seqNumber_succ]
  | cons d ds ih =>
      cases hwhole with
      | @cons _ _ _ _ wire₁ wire₂ hpartsW hrestW =>
      cases hcut with
      | @cons _ _ _ _ wire₃ wire₄ hpartsC hrestC =>
      rw [List.append_assoc] at hrun ⊢
      obtain ⟨hmax, hcap, s₁, io₁, hdealt, hnext⟩ :=
        Returns.whole hopens hkeys hseq hpartsW rfl hrun
      have hkeys₁ := hdealt.readKeys st 1 hkeys
      rw [hseq, seqNumber_succ, PostHs.seqAfter_eq _ st 1 s.digest] at hnext
      by_cases hd : d.Unbroken
      · have hskip : ∀ y, Returns P answer outCap { s with sSeq := UInt64.ofNat n }
              ⟨wire₃ ++ (wire₄ ++ recC), io⟩ y ↔
            Returns P answer outCap
              { s₁ with
                sSeq := UInt64.ofNat (({ st with seq := n } : PeerState).after P s₁.digest
                  d.contents.length d.msg).seq } ⟨wire₄ ++ recC, io₁⟩ y := fun y =>
          @Returns.delivery P σ answer { s with sSeq := UInt64.ofNat n } io
            { st with seq := n } _ _ outCap y hopens _ d s₁ io₁ hkeys rfl hmax hcap hpartsC hd
              hdealt.uncounted
        rw [PeerState.after_eq, ← hdealt.digest] at hrestC
        rw [← hdealt.digest] at hrestW hkeys₁
        rw [← hdealt.digest] at hnext
        obtain ⟨hiff, hsame⟩ := ih (s := { s₁ with
            sSeq := UInt64.ofNat (st.after P s₁.digest 1 d.msg).seq })
          hkeys₁ rfl hrestW hrestC hnext
        constructor
        · rintro ⟨o, s'', t', hret⟩ d' hd'
          rcases List.mem_cons.1 hd' with rfl | hd'
          · exact hd
          · exact hiff ⟨o, s'', t', (hskip _).1 hret⟩ d' hd'
        · intro hall
          exact (hskip _).2 (hsame fun d' hd' => hall d' (List.mem_cons_of_mem _ hd'))
      · refine ⟨?_, fun hall => absurd (hall d (List.mem_cons_self ..)) hd⟩
        rintro ⟨o, s'', t', hret⟩
        cases d with
        | whole m => exact absurd (fun part hpart => .inr (List.mem_singleton.1 hpart)) hd
        | cut body parts joined =>
            simp only [Delivery.Unbroken, not_forall, not_or] at hd
            obtain ⟨part, hmem, hne, hpart⟩ := hd
            obtain ⟨e, herr⟩ := @Returns.cut P σ answer
              { s with sSeq := UInt64.ofNat n } io { st with seq := n } _ _ outCap _ _ hopens _
              (PostHs.fits_of_length hmax) hkeys rfl hcap hpartsC joined
              ⟨part, hmem, hne, hpart⟩ hret
            cases herr

end Messages

/-! ### `wn_Recv` -/

section Recv

variable {P : Platform} {σ : Type} {answer : σ → Bytes → Int × σ} {s : Session}

variable (P answer) in
/-- A call of `wn_Recv` on this stream has this outcome. -/
def RecvOn (s : Session) (buf : Bytes) (outCap outLen : Nat) (t : Tape σ)
    (x : RecvOut × Tape σ) : Prop :=
  ∃ fuel, (wnRecv P fuel s (some buf) outCap (some outLen)).eval (Tape.handler answer) t
    = some x

/-- What `wn_Recv` makes of the end of its loop. -/
def recvOut (buf : Bytes) : Except Err Bytes × Session → RecvOut
  | (.error e, s) => ⟨.error e, some buf, some 0, s⟩
  | (.ok plain, s) => ⟨.ok (), some (splice buf 0 plain), some plain.length, s⟩

theorem recvOn_iff (hest : s.established = true) (hopen : s.closed = false) {buf : Bytes}
    {outCap outLen : Nat} {t : Tape σ} {x : RecvOut × Tape σ} :
    RecvOn P answer s buf outCap outLen t x ↔
      ∃ y, Returns P answer outCap s t y ∧ x = (recvOut buf y.1, y.2) := by
  have hcheck : s.check = .ok () := by
    simp [Session.check, hest, hopen]
  have hcall : ∀ fuel, (wnRecv P fuel s (some buf) outCap (some outLen)).eval
      (Tape.handler answer) t = ((recvLoop P fuel s outCap).eval (Tape.handler answer) t).map
        fun y => (recvOut buf y.1, y.2) := by
    intro fuel
    unfold wnRecv
    rw [hcheck]
    dsimp only
    rw [Proc.eval_bind]
    cases (recvLoop P fuel s outCap).eval (Tape.handler answer) t with
    | none => rfl
    | some y =>
        obtain ⟨⟨e | plain, s'⟩, t'⟩ := y
        · rfl
        · rfl
  constructor
  · rintro ⟨fuel, hrun⟩
    rw [hcall] at hrun
    obtain ⟨y, hy, rfl⟩ := Option.map_eq_some_iff.1 hrun
    exact ⟨y, ⟨fuel, hy⟩, rfl⟩
  · rintro ⟨y, ⟨fuel, hy⟩, rfl⟩
    exact ⟨fuel, by rw [hcall, hy]; rfl⟩

variable (P answer) in
/-- A call that returns the same data and leaves the same session, up to the number of
records it counted. -/
def RecvLike (s : Session) (buf : Bytes) (outCap outLen : Nat) (t : Tape σ)
    (res : RecvOut) (records : Nat) (t' : Tape σ) : Prop :=
  ∃ res', RecvOn P answer s buf outCap outLen t (res', t') ∧ res'.ret = .ok () ∧
    res'.data = res.data ∧ res'.s = { res.s with sSeq := UInt64.ofNat records }

/-- Messages are accepted whole, each in its record, and application data follows.
When the tickets among them are cut, `wn_Recv` does the same as long as no record
ends inside a ticket, and only then. -/
theorem tickets_cut_between (hopens : P.OpensSealed) {st stW stC : PeerState}
    {ds : List Delivery} {wireW wireC recW recC data buf : Bytes} {outCap outLen : Nat}
    {io : σ} {res : RecvOut} {t : Tape σ} (hest : s.established = true)
    (hopen : s.closed = false) (hreads : s.ReadsAt st)
    (hwhole : Delivered P s.digest st (ds.map .join) wireW stW)
    (hcut : Delivered P s.digest st ds wireC stC)
    (happW : stW.sealNext P recAppdata data = some recW)
    (happC : stC.sealNext P recAppdata data = some recC)
    (hdata : data.length ≤ maxPlaintext)
    (hrun : RecvOn P answer s buf outCap outLen ⟨wireW ++ recW, io⟩ (res, t))
    (hok : res.ret = .ok ()) :
    RecvLike P answer s buf outCap outLen ⟨wireC ++ recC, io⟩ res (stC.seq + 1) t ↔
      ∀ d ∈ ds, d.Unbroken := by
  obtain ⟨⟨⟨e | out, s'⟩, t'⟩, hloop, heq⟩ := (recvOn_iff hest hopen).1 hrun
  · cases heq
    cases hok
  · cases heq
    have hs : ({ s with sSeq := UInt64.ofNat st.seq } : Session) = s := by
      rw [← hreads.seq]
    obtain ⟨honly, hsame⟩ := Returns.deliveries hopens (n := st.seq) hreads.keys hreads.seq
      hwhole hcut happW happC hdata hloop
    rw [hs] at honly hsame
    constructor
    · rintro ⟨res', hrecv, hret, -⟩
      obtain ⟨⟨⟨e | out', s''⟩, t''⟩, hloop', heq⟩ := (recvOn_iff hest hopen).1 hrecv
      · cases heq
        cases hret
      · exact honly ⟨out', s'', t'', hloop'⟩
    · intro hall
      exact ⟨_, (recvOn_iff hest hopen).2 ⟨_, hsame hall, rfl⟩, rfl, rfl, rfl⟩

end Recv

namespace Sample

/-- A ticket with one byte, cut after its type. -/
def cutTicket : Delivery := .cut [9] [[4], [0, 0, 1, 9]] rfl

/-- The same ticket with empty records around it. -/
def paddedTicket : Delivery := .cut [9] [[], [4, 0, 0, 1, 9], []] rfl

def sealedAt (seq : Nat) (contentType : UInt8) (content : Bytes) : Bytes :=
  (({ peerStart with seq := seq } : PeerState).sealNext platform contentType content).getD []

/-- Every buffer is taken whole. -/
def takeAll (io : Unit) (buf : Bytes) : Int × Unit := (buf.length, io)

def wholeStream : Bytes := sealedAt 0 recHandshake [4, 0, 0, 1, 9] ++ sealedAt 1 recAppdata [7]

theorem wholeStream_isSome : ((wnRecv platform 3 session (some [0, 0]) 2 (some 0)).eval
    (Tape.handler takeAll) ⟨wholeStream, ()⟩).isSome = true := by
  decide +kernel

def wholeOut : RecvOut × Tape Unit := ((wnRecv platform 3 session (some [0, 0]) 2
  (some 0)).eval (Tape.handler takeAll) ⟨wholeStream, ()⟩).get wholeStream_isSome

theorem wholeOut_recv : RecvOn platform takeAll session [0, 0] 2 0 ⟨wholeStream, ()⟩ wholeOut :=
  ⟨3, (Option.some_get wholeStream_isSome).symm⟩

theorem sealedAt_eq {seq : Nat} {contentType : UInt8} {content : Bytes} :
    ({ peerStart with seq := seq } : PeerState).sealNext platform contentType content =
      some (sealedAt seq contentType content) := rfl

/-- The records of one message, then application data. -/
theorem delivered_one {d : Delivery} {wire : Bytes}
    (hparts : Sealed platform peerStart d.contents wire) :
    Delivered platform .sha256 peerStart [d] wire
      (peerStart.after platform .sha256 d.contents.length d.msg) := by
  have h := Delivered.cons hparts (@Delivered.nil _ .sha256 _)
  rwa [List.append_nil] at h

theorem whole_delivered {body : Bytes} (hbody : body = [9]) :
    Delivered platform .sha256 peerStart [.whole (.ticket body)]
      (sealedAt 0 recHandshake [4, 0, 0, 1, 9]) { peerStart with seq := 1 } := by
  subst hbody
  have h := delivered_one (d := .whole (.ticket [9]))
    (.cons (by decide) (@sealedAt_eq 0 _ _) .nil)
  rwa [List.append_nil] at h

theorem padded_delivered :
    Delivered platform .sha256 peerStart [paddedTicket]
      (sealedAt 0 recHandshake [] ++ (sealedAt 1 recHandshake [4, 0, 0, 1, 9] ++
        (sealedAt 2 recHandshake [] ++ []))) { peerStart with seq := 3 } :=
  delivered_one (.cons (by decide) (@sealedAt_eq 0 _ _) (.cons (by decide)
    (@sealedAt_eq 1 _ _) (.cons (by decide) (@sealedAt_eq 2 _ _) .nil)))

theorem cut_delivered :
    Delivered platform .sha256 peerStart [cutTicket]
      (sealedAt 0 recHandshake [4] ++ (sealedAt 1 recHandshake [0, 0, 1, 9] ++ []))
      { peerStart with seq := 2 } :=
  delivered_one (.cons (by decide) (@sealedAt_eq 0 _ _) (.cons (by decide)
    (@sealedAt_eq 1 _ _) .nil))

end Sample

theorem tickets_cut_between_sample :
    RecvLike Sample.platform Sample.takeAll Sample.session [0, 0] 2 0
      ⟨(Sample.sealedAt 0 recHandshake [] ++ (Sample.sealedAt 1 recHandshake [4, 0, 0, 1, 9] ++
        (Sample.sealedAt 2 recHandshake [] ++ []))) ++ Sample.sealedAt 3 recAppdata [7], ()⟩
      Sample.wholeOut.1 4 Sample.wholeOut.2 := by
  refine (@tickets_cut_between _ _ _ _ Sample.opensSealed Sample.peerStart _ _
    [Sample.paddedTicket] _ _ _ _ _ _ _ _ _ _ _ rfl rfl ⟨rfl, rfl⟩ (Sample.whole_delivered rfl)
    Sample.padded_delivered Sample.sealedAt_eq Sample.sealedAt_eq (by decide)
    Sample.wholeOut_recv (by decide +kernel)).2 ?_
  intro d hd
  rw [List.mem_singleton.1 hd]
  change ∀ part ∈ [[], [4, 0, 0, 1, 9], []], part = [] ∨ part = [4, 0, 0, 1, 9]
  decide

/-- A ticket that is cut after its first byte ends the call. -/
theorem tickets_cut_inside :
    ¬ ∀ (P : Platform) (answer : Unit → Bytes → Int × Unit) (s : Session)
      (st stW stC : PeerState) (ds : List Delivery)
      (wireW wireC recW recC data buf : Bytes) (outCap outLen : Nat) (res : RecvOut)
      (t : Tape Unit), P.OpensSealed → s.established = true → s.closed = false →
      s.ReadsAt st → Delivered P s.digest st (ds.map .join) wireW stW →
      Delivered P s.digest st ds wireC stC →
      stW.sealNext P recAppdata data = some recW → stC.sealNext P recAppdata data = some recC →
      data.length ≤ maxPlaintext →
      RecvOn P answer s buf outCap outLen ⟨wireW ++ recW, ()⟩ (res, t) → res.ret = .ok () →
      RecvLike P answer s buf outCap outLen ⟨wireC ++ recC, ()⟩ res (stC.seq + 1) t := by
  intro h
  obtain ⟨res', hrecv, hret, -⟩ := h Sample.platform Sample.takeAll Sample.session
    Sample.peerStart _ _ [Sample.cutTicket] _ _ _ _ [7] [0, 0] 2 0 Sample.wholeOut.1
    Sample.wholeOut.2 Sample.opensSealed rfl rfl ⟨rfl, rfl⟩ (Sample.whole_delivered rfl)
    Sample.cut_delivered Sample.sealedAt_eq Sample.sealedAt_eq (by decide)
    Sample.wholeOut_recv (by decide +kernel)
  obtain ⟨⟨⟨e | out, s'⟩, t⟩, ⟨fuel, hloop⟩, heq⟩ := (recvOn_iff rfl rfl).1 hrecv
  · cases heq
    cases hret
  · cases fuel with
    | zero => cases hloop
    | succ fuel =>
        have hone : ((recvOne Sample.platform Sample.session 2).eval
            (Tape.handler Sample.takeAll) ⟨(Sample.sealedAt 0 recHandshake [4] ++
              (Sample.sealedAt 1 recHandshake [0, 0, 1, 9] ++ [])) ++
              Sample.sealedAt 2 recAppdata [7], ()⟩).map (fun x => x.1.1)
            = some (.error .decode) := by
          decide +kernel
        obtain ⟨⟨⟨y, s₁⟩, t₁⟩, hone, rfl⟩ := Option.map_eq_some_iff.1 hone
        rw [recvLoop, Proc.eval_bind, hone] at hloop
        cases hloop

end WolfNano
