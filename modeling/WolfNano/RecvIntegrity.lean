/-
Receive-side integrity.  Whatever bytes arrive, the session stands at some point
of the peer's log, and a record that opens is the one the peer sealed there.
-/
import WolfNano.Peer
import WolfNano.Sample

namespace WolfNano

open Duplex

variable {P : Platform} {digest : Digest}

/-! ### The session follows the log -/

/-- A record of tickets and at most one KeyUpdate moves the read side on,
whether or not our answer could be sent. -/
theorem posths_readsAt {s s' : Session} {st : PeerState} {tickets : List Bytes}
    {update : Option Bool} {tr : List (Act Ev)} {ret : Ret} (hs : s.ReadsAt st)
    (hlen : (PeerMsg.posths tickets update).content.length < 2 ^ 24)
    (hupdate : (PeerMsg.posths tickets update).rotates = true →
      (tls13KeyUpdate P st.keys s.digest).1 = .ok ())
    (h : (sessionPosths P s.countRead
      (PeerMsg.posths tickets update).content).Runs tr (ret, s')) :
    s'.ReadsAt (st.next P s.digest (.posths tickets update)) := by
  rw [sessionPosths_content hlen] at h
  have hcount : s.countRead.sSeq = UInt64.ofNat (st.seq + 1) := by
    rw [UInt64.ofNat_add, ← hs.seq]
    rfl
  cases update with
  | none =>
      obtain ⟨-, heq⟩ := h
      cases heq
      exact ⟨hs.keys, hcount⟩
  | some requested =>
      obtain ⟨t, ht⟩ : ∃ t, tls13KeyUpdate P st.keys s.digest = (.ok (), t) :=
        ⟨_, Prod.ext (hupdate rfl) rfl⟩
      have hkeys : tls13KeyUpdate P s.countRead.readKeys s.countRead.digest
          = (.ok (), t) := by
        rw [← ht, ← hs.keys]
        rfl
      rw [PeerState.next_keyUpdate rfl ht]
      change Proc.Runs (PostHs.handle P s.countRead (.keyUpdate requested) >>= _) _ _ at h
      rw [PostHs.handle, hkeys, Proc.runs_seq] at h
      obtain ⟨⟨ret₁, s₁⟩, tr₁, tr₂, -, hone, hrest⟩ := h
      have hs₁ : s₁.ReadsAt ⟨st.gen + 1, t, 0⟩ := by
        dsimp only at hone
        split at hone
        · have hsame := sendKeyUpdate_same hone
          exact ⟨hsame.readKeys, hsame.sSeq⟩
        · obtain ⟨-, heq⟩ := hone
          cases heq
          exact ⟨rfl, rfl⟩
      cases ret₁ with
      | error e =>
          obtain ⟨-, heq⟩ := hrest
          cases heq
          exact hs₁
      | ok u =>
          obtain ⟨-, heq⟩ := hrest
          cases heq
          exact hs₁

/-- A record of the peer that was opened moves the read side on. -/
theorem Handled.readsAt {s s' : Session} {st : PeerState} {r : PeerRec} {outCap : Nat}
    {tr : List (Act Ev)} {x : Except Err (Option Bytes)} (hs : s.ReadsAt st)
    (hfits : r.Fits)
    (hupdate : r.msg.rotates = true → (tls13KeyUpdate P st.keys s.digest).1 = .ok ())
    (h : Handled P s.countRead outCap r.msg.contentType r.msg.content tr x s') :
    s'.ReadsAt (st.next P s.digest r.msg) := by
  have hcount : s.countRead.sSeq = UInt64.ofNat (st.seq + 1) := by
    rw [UInt64.ofNat_add, ← hs.seq]
    rfl
  obtain ⟨msg, pad⟩ := r
  cases msg with
  | app data =>
      cases h with
      | deliver => exact ⟨hs.keys, hcount⟩
      | refuse => exact ⟨hs.keys, hcount⟩
      | other happ => exact absurd rfl happ
  | posths tickets update =>
      cases h with
      | posths hrun =>
          have hle : (PeerMsg.posths tickets update).content.length + pad ≤ maxPlaintext :=
            hfits
          have hmax : maxPlaintext = 16384 := rfl
          exact posths_readsAt hs (by omega) hupdate hrun
      | other _ hhs => exact absurd rfl hhs
  | alert level description =>
      cases h with
      | closeNotify => exact ⟨hs.keys, hcount⟩
      | alert => exact ⟨hs.keys, hcount⟩
      | other _ _ halert => exact absurd rfl halert

/-- Receiving never changes these. -/
theorem RecvOne.same {s s' : Session} {outCap : Nat} {tr : List (Act Ev)}
    {x : Except Err (Option Bytes)} (h : RecvOne P s outCap tr x s') :
    s'.digest = s.digest ∧ s'.scratchLen = s.scratchLen := by
  cases h with
  | unread => exact ⟨rfl, rfl⟩
  | ccs => exact ⟨rfl, rfl⟩
  | short => exact ⟨rfl, rfl⟩
  | unopened => exact ⟨rfl, rfl⟩
  | opened hfits hccs hlen hopen hhandled =>
      cases hhandled with
      | posths hrun =>
          have hframe := sessionPosths_frame hrun
          exact ⟨hframe.digest, hframe.scratchLen⟩
      | deliver => exact ⟨rfl, rfl⟩
      | refuse => exact ⟨rfl, rfl⟩
      | closeNotify => exact ⟨rfl, rfl⟩
      | alert => exact ⟨rfl, rfl⟩
      | other => exact ⟨rfl, rfl⟩

/-! ### What a call consumes and returns -/

/-- Of the application records a call consumed, at most one, it returns the one
that fits and refuses the one that does not. -/
inductive Delivers (outCap : Nat) : List Bytes → Ret → Option Bytes → Prop
  | nothing {ret : Ret} : Delivers outCap [] ret none
  | delivered {plain : Bytes} (hfits : plain.length ≤ outCap) :
      Delivers outCap [plain] (.ok ()) (some plain)
  | refused {plain : Bytes} (hbig : outCap < plain.length) :
      Delivers outCap [plain] (.error .invalidArg) none

theorem consumed_reads (r : Rec) (tr : List (Act Ev)) :
    consumed P (r.reads ++ tr) = consumed P tr := by
  simp [consumed]

theorem consumed_silent {tr : List (Act Ev)}
    (h : ∀ cap key iv seq rec, .unprotect cap key iv seq rec ∉ notes tr) :
    consumed P tr = [] := by
  rw [consumed, List.filterMap_eq_nil_iff]
  intro e he
  cases e with
  | unprotect cap key iv seq rec => exact absurd he (h cap key iv seq rec)
  | protect => rfl
  | unprotectOver => rfl
  | copy => rfl
  | writeKey => rfl

/-- The record given to the AEAD, and what the rest of the trace consumed. -/
theorem consumed_opened {s : Session} {rec plain : Bytes} {contentType : UInt8}
    {tr : List (Act Ev)}
    (hopen : openRecord P s.sKey s.sIv s.sSeq rec = .ok (contentType, plain)) :
    consumed P (.note (s.openEv rec) :: tr)
      = (if contentType = recAppdata then [plain] else []) ++ consumed P tr := by
  simp only [consumed, notes_note, List.filterMap_cons, Session.openEv, openedApp?, hopen]
  split <;> simp_all

/-- The result of one record as the code and the data of a call. -/
def retOf {α : Type} : Except Err α → Ret
  | .ok _ => .ok ()
  | .error e => .error e

theorem RecvOne.delivers {s s' : Session} {outCap : Nat} {tr : List (Act Ev)}
    {x : Except Err (Option Bytes)} (h : RecvOne P s outCap tr x s') :
    Delivers outCap (consumed P tr) (retOf x) (x.toOption.join) := by
  cases h with
  | unread hfail =>
      have hnotes := (recvRecord_fails hfail).1
      rw [consumed, hnotes]
      exact .nothing
  | ccs => exact .nothing
  | short => exact .nothing
  | @unopened rec e hfits hccs hopen =>
      have hnone : consumed P (rec.reads ++ [.note (s.openEv rec.bytes)]) = [] := by
        simp [consumed, Session.openEv, openedApp?, hopen]
      rw [hnone]
      exact .nothing
  | @opened rec contentType plain tr x s' hfits hccs hlen hopen hhandled =>
      rw [consumed_reads, consumed_opened hopen]
      cases hhandled with
      | deliver hfits => exact .delivered hfits
      | refuse hbig => exact .refused hbig
      | @posths _ _ ret _ hrun =>
          rw [consumed_silent (sessionPosths_silent hrun).2]
          cases ret with
          | error e => exact .nothing
          | ok u => exact .nothing
      | closeNotify => exact .nothing
      | alert => exact .nothing
      | other happ =>
          rw [if_neg happ]
          exact .nothing

/-- A record that was dealt with held no application data. -/
theorem RecvOne.consumed_skip {s s' : Session} {outCap : Nat} {tr : List (Act Ev)}
    (h : RecvOne P s outCap tr (.ok none) s') : consumed P tr = [] := by
  have hfirst := h.delivers
  generalize consumed P tr = now at hfirst
  cases hfirst
  rfl

theorem RecvMany.delivers {s s' : Session} {outCap : Nat} {tr : List (Act Ev)}
    {x : Except Err Bytes} (h : RecvMany P outCap s tr x s') :
    Delivers outCap (consumed P tr) (retOf x) x.toOption := by
  induction h with
  | stop hone => exact hone.delivers
  | data hone => exact hone.delivers
  | @skip s s₁ s' tr tr' x hone _ ih =>
      rw [consumed_append, hone.consumed_skip, List.nil_append]
      exact ih

theorem wnSend_reads {s s' : Session} {data : Option Bytes} {tr : List (Act Ev)}
    {ret : Ret} (h : (wnSend P s data).Runs tr (ret, s')) :
    bytesIn tr = [] ∧ consumed P tr = [] ∧ (s' = s ∨ s' = s.countSent) := by
  rcases wnSend_runs h with ⟨rfl, rfl, -⟩ |
    ⟨buf, -, -, -, -, ⟨-, rfl, -, rfl⟩ | ⟨rec, r, -, rfl, rfl, -⟩⟩
  · exact ⟨rfl, rfl, .inl rfl⟩
  · exact ⟨rfl, rfl, .inl rfl⟩
  · exact ⟨rfl, rfl, .inr rfl⟩

theorem wnClose_reads {s s' : Session} {tr : List (Act Ev)} {ret : Ret}
    (h : (wnClose P s).Runs tr (ret, s')) : bytesIn tr = [] ∧ consumed P tr = [] := by
  obtain ⟨-, rfl | ⟨-, rfl | ⟨rec, r, rfl⟩⟩⟩ := wnClose_runs h
  · exact ⟨rfl, rfl⟩
  · exact ⟨rfl, rfl⟩
  · exact ⟨rfl, rfl⟩

/-- What a call consumed and returned. -/
def CallSeen.Delivered (P : Platform) (c : CallSeen) : Prop :=
  match c.call with
  | .recv _ outCap _ => Delivers outCap (consumed P c.tr) c.ret c.data
  | _ => consumed P c.tr = [] ∧ c.data = none

theorem SessionRun.delivered {s s' : Session} {calls : List CallSeen}
    (h : SessionRun P s calls s') : ∀ c ∈ calls, c.Delivered P := by
  induction h with
  | nil => simp
  | cons hcall _ ih =>
      intro c hc
      rcases List.mem_cons.1 hc with rfl | hc
      · cases hcall with
        | send hrun => exact ⟨(wnSend_reads hrun).2.1, rfl⟩
        | recv hrun =>
            rcases wnRecv_runs hrun with ⟨rfl, e, rfl, -⟩ |
              ⟨buf, n, x, s₁, -, -, -, hmany, ⟨e, rfl, rfl⟩ | ⟨plain, rfl, rfl⟩⟩
            · exact .nothing
            · exact hmany.delivers
            · have hdata := hmany.delivers
              have htake := splice_take buf plain
              simp only [CallSeen.Delivered, RecvOut.data, Option.map_some,
                Option.getD_some, htake]
              exact hdata
        | close hrun => exact ⟨(wnClose_reads hrun).2, rfl⟩
      · exact ih c hc

/-! ### Following the log -/

/-- The session stands in the log after `done`. -/
def Session.Stands (P : Platform) (digest : Digest) (st₀ : PeerState)
    (done : List (PeerRec × Bytes)) (s : Session) : Prop :=
  s.digest = digest ∧ ∃ st, Sent P digest st₀ done st ∧ s.ReadsAt st

/-- Handling the next record of the log. -/
theorem Session.Stands.opened {st₀ stEnd : PeerState}
    {done rest : List (PeerRec × Bytes)} {r : PeerRec} {bytes : Bytes}
    {s s' : Session} {outCap : Nat} {tr : List (Act Ev)}
    {x : Except Err (Option Bytes)} (hs : s.Stands P digest st₀ done)
    (hlog : Sent P digest st₀ (done ++ (r, bytes) :: rest) stEnd)
    (hdigest : s'.digest = s.digest)
    (h : Handled P s.countRead outCap r.msg.contentType r.msg.content tr x s') :
    s'.Stands P digest st₀ (done ++ [(r, bytes)]) := by
  obtain ⟨rfl, st, hdone, hreads⟩ := hs
  obtain ⟨mid, hleft, hright⟩ := hlog.split
  obtain rfl := hdone.unique hleft
  cases hright with
  | cons hfits hupdate hseal _ =>
      refine ⟨hdigest, st.next P s.digest r.msg, ?_, h.readsAt hreads hfits hupdate⟩
      exact hdone.append (.cons hfits hupdate hseal .nil)

theorem Handled.silent {s s' : Session} {outCap : Nat} {contentType : UInt8}
    {plain : Bytes} {tr : List (Act Ev)} {x : Except Err (Option Bytes)}
    (h : Handled P s outCap contentType plain tr x s') : consumed P tr = [] := by
  cases h with
  | posths hrun => exact consumed_silent (sessionPosths_silent hrun).2
  | deliver => rfl
  | refuse => rfl
  | closeNotify => rfl
  | alert => rfl
  | other => rfl

/-- The application data of a handled record is what the trace consumed. -/
theorem consumed_handled {s s' : Session} {outCap : Nat} {tr : List (Act Ev)}
    {x : Except Err (Option Bytes)} {rec : Rec} {r : PeerRec} {bytes : Bytes}
    (hopen : openRecord P s.sKey s.sIv s.sSeq rec.bytes
      = .ok (r.msg.contentType, r.msg.content))
    (h : Handled P s.countRead outCap r.msg.contentType r.msg.content tr x s') :
    consumed P (rec.reads ++ .note (s.openEv rec.bytes) :: tr)
      = appRecords [(r, bytes)] := by
  rw [consumed_reads, consumed_opened hopen, h.silent, List.append_nil]
  obtain ⟨msg, pad⟩ := r
  cases msg with
  | app data => rfl
  | posths tickets update => rfl
  | alert level description => rfl

/-! ### Calls

One argument serves an adversary's channel and a reliable one.  `B done tr` is
what is assumed of the trace to come when the log was followed up to `done`,
and `G tr ret` of how a call may end. -/

section Follow

/-- Every record moves the session on in the log by what was consumed. -/
structure Follow (P : Platform) (digest : Digest) (st₀ : PeerState)
    (log : List (PeerRec × Bytes)) (B : List (PeerRec × Bytes) → List (Act Ev) → Prop)
    (G : List (Act Ev) → Ret → Prop) : Prop where
  one : ∀ {done : List (PeerRec × Bytes)} {s s' : Session} {outCap : Nat}
    {tr tr' : List (Act Ev)} {x : Except Err (Option Bytes)},
    s.Stands P digest st₀ done → done <+: log → B done (tr ++ tr') →
      RecvOne P s outCap tr x s' → G tr (retOf x) →
      ∃ new, done ++ new <+: log ∧ s'.Stands P digest st₀ (done ++ new) ∧
        consumed P tr = appRecords new ∧ B (done ++ new) tr'
  quiet : ∀ {done : List (PeerRec × Bytes)} {tr tr' : List (Act Ev)},
    bytesIn tr = [] → B done (tr ++ tr') → B done tr'
  good : ∀ {tr : List (Act Ev)}, G tr (.ok ())
  skip : ∀ {tr tr' : List (Act Ev)} {ret : Ret},
    consumed P tr = [] → G (tr ++ tr') ret → G tr' ret

variable {st₀ : PeerState} {log done : List (PeerRec × Bytes)}
  {B : List (PeerRec × Bytes) → List (Act Ev) → Prop} {G : List (Act Ev) → Ret → Prop}

theorem Follow.many (hfollow : Follow P digest st₀ log B G) {s s' : Session}
    {outCap : Nat} {tr tr' : List (Act Ev)} {x : Except Err Bytes}
    (hs : s.Stands P digest st₀ done) (hdone : done <+: log) (hB : B done (tr ++ tr'))
    (h : RecvMany P outCap s tr x s') (hG : G tr (retOf x)) :
    ∃ new, done ++ new <+: log ∧ s'.Stands P digest st₀ (done ++ new) ∧
      consumed P tr = appRecords new ∧ B (done ++ new) tr' := by
  induction h generalizing done with
  | stop hone => exact hfollow.one hs hdone hB hone hG
  | data hone => exact hfollow.one hs hdone hB hone hG
  | @skip s s₁ s' tr₁ tr₂ x hone _ ih =>
      rw [List.append_assoc] at hB
      obtain ⟨new, hfront, hs₁, hnew, hB₁⟩ :=
        hfollow.one hs hdone hB hone hfollow.good
      obtain ⟨new', hfront', hs', hnew', hB'⟩ :=
        ih hs₁ hfront hB₁ (hfollow.skip hone.consumed_skip hG)
      refine ⟨new ++ new', ?_, ?_, ?_, ?_⟩
      · rwa [← List.append_assoc]
      · rwa [← List.append_assoc]
      · rw [consumed_append, hnew, hnew', appRecords_append]
      · rwa [← List.append_assoc]

/-- An established session stands in the log. -/
def Session.Along (P : Platform) (digest : Digest) (st₀ : PeerState)
    (done : List (PeerRec × Bytes)) (s : Session) : Prop :=
  s.established = true → s.Stands P digest st₀ done

theorem Session.Along.sent {s s' : Session} (hs : s.Along P digest st₀ done)
    (h : s' = s ∨ s' = s.countSent) : s'.Along P digest st₀ done := by
  rcases h with rfl | rfl
  · exact hs
  · intro hest
    obtain ⟨hdigest, st, hsent, hreads⟩ := hs hest
    exact ⟨hdigest, st, hsent, hreads.keys, hreads.seq⟩

theorem Follow.call (hfollow : Follow P digest st₀ log B G) {call : Call}
    {s s' : Session} {tr tr' : List (Act Ev)} {ret : Ret} {data : Option Bytes}
    (hs : s.Along P digest st₀ done) (hdone : done <+: log) (hB : B done (tr ++ tr'))
    (h : call.Runs P s tr ret data s') (hG : G tr ret) :
    ∃ new, done ++ new <+: log ∧ s'.Along P digest st₀ (done ++ new) ∧
      consumed P tr = appRecords new ∧ B (done ++ new) tr' := by
  have hstill : ∀ {s' : Session}, s'.Along P digest st₀ done → bytesIn tr = [] →
      consumed P tr = [] → ∃ new, done ++ new <+: log ∧
        s'.Along P digest st₀ (done ++ new) ∧ consumed P tr = appRecords new ∧
          B (done ++ new) tr' := by
    intro s' hs' hbytes hnone
    refine ⟨[], ?_, ?_, hnone, ?_⟩
    · rwa [List.append_nil]
    · rwa [List.append_nil]
    · rw [List.append_nil]
      exact hfollow.quiet hbytes hB
  cases h with
  | send hrun =>
      obtain ⟨hbytes, hnone, hsession⟩ := wnSend_reads hrun
      exact hstill (hs.sent hsession) hbytes hnone
  | recv hrun =>
      rcases wnRecv_runs hrun with ⟨rfl, e, rfl, -⟩ |
        ⟨buf, n, x, s₁, -, -, hcheck, hmany, ⟨e, rfl, rfl⟩ | ⟨plain, rfl, rfl⟩⟩
      · exact hstill hs rfl rfl
      · obtain ⟨new, hfront, hs₁, hnew, hB'⟩ :=
          hfollow.many (hs (Session.check_ok.1 hcheck).1) hdone hB hmany hG
        exact ⟨new, hfront, fun _ => hs₁, hnew, hB'⟩
      · obtain ⟨new, hfront, hs₁, hnew, hB'⟩ :=
          hfollow.many (hs (Session.check_ok.1 hcheck).1) hdone hB hmany hG
        exact ⟨new, hfront, fun _ => hs₁, hnew, hB'⟩
  | close hrun =>
      obtain ⟨hbytes, hnone⟩ := wnClose_reads hrun
      obtain ⟨rfl, -⟩ := wnClose_runs hrun
      exact hstill (fun hest => absurd hest (by decide)) hbytes hnone

theorem Follow.run (hfollow : Follow P digest st₀ log B G) {s s' : Session}
    {calls : List CallSeen} (hs : s.Along P digest st₀ done) (hdone : done <+: log)
    (hB : B done (runTrace calls)) (h : SessionRun P s calls s')
    (hG : ∀ c ∈ calls, G c.tr c.ret) :
    ∃ new, done ++ new <+: log ∧ consumed P (runTrace calls) = appRecords new := by
  induction h generalizing done with
  | nil =>
      refine ⟨[], ?_, rfl⟩
      rwa [List.append_nil]
  | cons hcall _ ih =>
      obtain ⟨new, hfront, hs₁, hnew, hB₁⟩ :=
        hfollow.call hs hdone hB hcall (hG _ (List.mem_cons_self ..))
      obtain ⟨new', hfront', hnew'⟩ :=
        ih hs₁ hfront hB₁ fun c hc => hG c (List.mem_cons_of_mem _ hc)
      refine ⟨new ++ new', ?_, ?_⟩
      · rwa [← List.append_assoc]
      · rw [appRecords_append, ← hnew, ← hnew', ← consumed_append]
        rfl

end Follow

/-! ### An ideal AEAD -/

/-- A record opens under a key, nonce and header only if it was sealed by the
peer with exactly these. -/
def IdealAead (P : Platform) (digest : Digest) (st₀ : PeerState)
    (log : List (PeerRec × Bytes)) : Prop :=
  ∀ key nonce hdr ct tag inner, P.gcmDecrypt key nonce hdr ct tag = some inner →
    ∃ done r st, done ++ [(r, hdr ++ ct ++ tag)] <+: log ∧ Sent P digest st₀ done st ∧
      key = st.keys.key ∧ nonce = st.nonce ∧ inner = r.inner

/-- Different generations of the peer's keys are different keys. -/
def KeysFresh (P : Platform) (digest : Digest) (st₀ : PeerState)
    (log : List (PeerRec × Bytes)) : Prop :=
  ∀ st ∈ st₀.along P digest log, ∀ st' ∈ st₀.along P digest log,
    st.keys.key = st'.keys.key → st.gen = st'.gen

/-- No generation of the peer's keys seals 2^64 records. -/
def CountsFit (P : Platform) (digest : Digest) (st₀ : PeerState)
    (log : List (PeerRec × Bytes)) : Prop :=
  ∀ st ∈ st₀.along P digest log, st.seq < 2 ^ 64

theorem nonce_inj {st st' : PeerState} (hiv : st.keys.iv.length = 12)
    (hkeys : st'.keys = st.keys) (hseq : st.seq < 2 ^ 64) (hseq' : st'.seq < 2 ^ 64)
    (h : st.nonce = st'.nonce) : st.seq = st'.seq := by
  rw [PeerState.nonce, PeerState.nonce, hkeys] at h
  have hofNat := buildNonce_injective hiv h
  have hnat := congrArg UInt64.toNat hofNat
  rwa [UInt64.toNat_ofNat_of_lt' hseq, UInt64.toNat_ofNat_of_lt' hseq'] at hnat

/-- Two points of the log with one key and one nonce are the same point. -/
theorem point_unique {st₀ st st' : PeerState} {log done done' : List (PeerRec × Bytes)}
    (hiv : st₀.keys.iv.length = 12) (hcounts : CountsFit P digest st₀ log)
    (hfresh : KeysFresh P digest st₀ log) (hdone : done <+: log) (hdone' : done' <+: log)
    (hst : Sent P digest st₀ done st) (hst' : Sent P digest st₀ done' st')
    (hkey : st.keys.key = st'.keys.key) (hnonce : st.nonce = st'.nonce) :
    done = done' := by
  have hgen := hfresh _ (hst.mem_along hdone) _ (hst'.mem_along hdone') hkey
  have hlt := hcounts _ (hst.mem_along hdone)
  have hlt' := hcounts _ (hst'.mem_along hdone')
  -- one of the two comes first; then it cannot be strictly before the other
  have hordered : ∀ {done done' : List (PeerRec × Bytes)} {st st' : PeerState},
      Sent P digest st₀ done st → Sent P digest st₀ done' st' → st.gen = st'.gen →
      st.seq < 2 ^ 64 → st'.seq < 2 ^ 64 → st.nonce = st'.nonce → done <+: done' →
      done = done' := by
    rintro done _ st st' hst hst' hgen hlt hlt' hnonce ⟨more, rfl⟩
    obtain ⟨mid, hleft, hright⟩ := hst'.split
    obtain rfl := hst.unique hleft
    rcases hright.ahead with hlater | ⟨-, hkeys, hseq⟩
    · omega
    · have heq := nonce_inj (hst.iv hiv) hkeys hlt hlt' hnonce
      have hnil : more = [] := List.eq_nil_of_length_eq_zero (by omega)
      rw [hnil, List.append_nil]
  rcases List.prefix_or_prefix_of_prefix hdone hdone' with hle | hle
  · exact hordered hst hst' hgen hlt hlt' hnonce hle
  · exact (hordered hst' hst hgen.symm hlt' hlt hnonce.symm hle).symm

section Ideal

variable {st₀ stEnd : PeerState} {log : List (PeerRec × Bytes)}
  (hiv : st₀.keys.iv.length = 12) (hlog : Sent P digest st₀ log stEnd)
  (hcounts : CountsFit P digest st₀ log) (hfresh : KeysFresh P digest st₀ log)
  (hideal : IdealAead P digest st₀ log)

include hiv hcounts hfresh hideal

/-- A record that opens is the next one of the log. -/
theorem opened_is_next {done : List (PeerRec × Bytes)} {s : Session} {rec : Bytes}
    {x : UInt8 × Bytes} (hs : s.Stands P digest st₀ done) (hdone : done <+: log)
    (hlen : 21 ≤ rec.length) (hopen : openRecord P s.sKey s.sIv s.sSeq rec = .ok x) :
    ∃ r rest, log = done ++ (r, rec) :: rest ∧
      x = (r.msg.contentType, r.msg.content) := by
  obtain ⟨-, st, hst, hreads⟩ := hs
  obtain ⟨hdr, ct, tag, inner, rfl, hdec, hsplit⟩ := openRecord_ok hlen hopen
  obtain ⟨done', r, st', hfront, hst', hkey, hnonce, rfl⟩ := hideal _ _ _ _ _ _ hdec
  have hkey' : st.keys.key = st'.keys.key := by
    rw [← hkey, ← hreads.keys]
    rfl
  have hnonce' : st.nonce = st'.nonce := by
    rw [← hnonce, PeerState.nonce, ← hreads.seq, ← hreads.keys]
    rfl
  have hdone' : done' <+: log := (List.prefix_append _ _).trans hfront
  obtain rfl := point_unique hiv hcounts hfresh hdone hdone' hst hst' hkey' hnonce'
  obtain ⟨rest, rfl⟩ := hfront
  rw [splitInner_inner] at hsplit
  cases hsplit
  exact ⟨r, rest, by simp, rfl⟩

include hlog

/-- On any channel every record moves the session on in the log. -/
theorem follow_of_ideal :
    Follow P digest st₀ log (fun _ _ => True) (fun _ _ => True) := by
  refine ⟨?_, fun _ _ => trivial, trivial, fun _ _ => trivial⟩
  intro done s s' outCap tr tr' x hs hdone _ h _
  have hsame := h.same.1
  have hstill : ∀ {tr : List (Act Ev)}, consumed P tr = [] →
      ∃ new, done ++ new <+: log ∧ s.Stands P digest st₀ (done ++ new) ∧
        consumed P tr = appRecords new ∧ True := by
    intro tr htr
    exact ⟨[], by simpa using hdone, by simpa using hs, htr, trivial⟩
  cases h with
  | unread hfail =>
      apply hstill
      rw [consumed, (recvRecord_fails hfail).1]
      rfl
  | ccs => exact hstill rfl
  | short => exact hstill rfl
  | unopened hfits hccs hopen =>
      apply hstill
      simp [consumed, Session.openEv, openedApp?, hopen]
  | @opened rec contentType plain tr x s' hfits hccs hlen hopen hhandled =>
      obtain ⟨r, rest, hnext, heq⟩ :=
        opened_is_next hiv hcounts hfresh hideal hs hdone (by omega) hopen
      cases heq
      rw [hnext] at hlog
      refine ⟨[(r, rec.bytes)], ?_, hs.opened hlog hsame hhandled,
        consumed_handled hopen hhandled, trivial⟩
      rw [hnext]
      exact ⟨rest, by simp⟩

/-- Whatever arrives and whatever the calls return, the application records the
session consumes are the first ones the peer sent, and each call returns the one
it consumed if that fits and refuses it otherwise. -/
theorem recv_integrity {s s' : Session} {calls : List CallSeen}
    (hdigest : s.digest = digest) (hstart : s.ReadsAt st₀)
    (hrun : SessionRun P s calls s') :
    consumed P (runTrace calls) <+: appRecords log ∧ ∀ c ∈ calls, c.Delivered P := by
  have hs : s.Along P digest st₀ [] := fun _ => ⟨hdigest, st₀, .nil, hstart⟩
  obtain ⟨new, hfront, hnew⟩ := (follow_of_ideal hiv hlog hcounts hfresh hideal).run hs
    (List.nil_prefix ..) trivial hrun fun _ _ => trivial
  rw [List.nil_append] at hfront
  refine ⟨?_, fun c hc => hrun.delivered c hc⟩
  rw [hnew]
  exact hfront.filterMap _

end Ideal

namespace Sample

theorem sealings_length : ∀ x ∈ sealings, x.2.2.length = x.2.1.inner.length + 21 := by
  decide +kernel

/-- The platform whose AEAD opens the peer's records and nothing else. -/
def idealPlatform : Platform :=
  { platform with
    gcmDecrypt := fun key nonce hdr ct tag =>
      (sealings.find? fun x => hdr.length == 5 && tag.length == 16 &&
        x.1.keys.key == key && x.1.nonce == nonce && x.2.2 == hdr ++ ct ++ tag).map
          fun x => x.2.1.inner
    gcmDecrypt_length := by
      intro key nonce hdr ct tag plain h
      obtain ⟨x, hfind, rfl⟩ := Option.map_eq_some_iff.1 h
      have hmem := List.mem_of_find?_eq_some hfind
      have hcond := List.find?_some hfind
      simp only [Bool.and_eq_true, beq_iff_eq] at hcond
      have hlen := sealings_length x hmem
      rw [hcond.2, List.length_append, List.length_append] at hlen
      omega }

theorem peerLog_sent_ideal :
    ∃ stEnd, Sent idealPlatform .sha256 peerStart peerLog stEnd := by
  refine ⟨_, .cons ?_ ?_ ?_ (.cons ?_ ?_ ?_ (.cons ?_ ?_ ?_ .nil))⟩ <;>
    decide +kernel

theorem mem_sealAll {st stEnd : PeerState} {rs : List PeerRec}
    {x : PeerState × PeerRec × Bytes} (hx : x ∈ sealAll st rs)
    (hsent : Sent idealPlatform .sha256 st ((sealAll st rs).map Prod.snd) stEnd) :
    ∃ done, done ++ [x.2] <+: (sealAll st rs).map Prod.snd ∧
      Sent idealPlatform .sha256 st done x.1 := by
  induction rs generalizing st with
  | nil => cases hx
  | cons r rs ih =>
      cases hsent with
      | cons hfits hupdate hseal hrest =>
          rcases List.mem_cons.1 hx with rfl | hx
          · exact ⟨[], List.prefix_append [_] _, .nil⟩
          · obtain ⟨done, ⟨more, hmore⟩, hdone⟩ := ih hx hrest
            refine ⟨_ :: done, ⟨more, ?_⟩, .cons hfits hupdate hseal hdone⟩
            exact congrArg (List.cons _) hmore

theorem idealPlatform_ideal : IdealAead idealPlatform .sha256 peerStart peerLog := by
  intro key nonce hdr ct tag inner h
  obtain ⟨⟨st, r, bytes⟩, hfind, rfl⟩ := Option.map_eq_some_iff.1 h
  have hmem := List.mem_of_find?_eq_some hfind
  have hcond := List.find?_some hfind
  simp only [Bool.and_eq_true, beq_iff_eq] at hcond
  obtain ⟨⟨⟨-, hkey⟩, hnonce⟩, hbytes⟩ := hcond
  obtain ⟨stEnd, hsent⟩ := peerLog_sent_ideal
  obtain ⟨done, hfront, hdone⟩ := mem_sealAll hmem hsent
  exact ⟨done, r, st, hbytes ▸ hfront, hdone, hkey.symm, hnonce.symm, rfl⟩

/-- The first record, the same record again, and the other two. -/
def attackedCalls : List (Call × Bytes × Bool) :=
  [(.recv (some []) 8 (some 0), ((peerLog.map Prod.snd).take 1).flatten, false),
    (.recv (some []) 8 (some 0), ((peerLog.map Prod.snd).take 1).flatten, false),
    (.recv (some []) 8 (some 0), ((peerLog.map Prod.snd).drop 1).flatten, false)]

end Sample

theorem recv_integrity_sample :
    (Sample.seen Sample.idealPlatform Sample.session Sample.attackedCalls).map
        (fun c => c.data) = [some [1, 2], none, some [3]] ∧
      consumed Sample.idealPlatform (runTrace
          (Sample.seen Sample.idealPlatform Sample.session Sample.attackedCalls)) <+:
        appRecords Sample.peerLog := by
  obtain ⟨s', hrun⟩ := @Sample.seen_runs Sample.idealPlatform Sample.session
    Sample.attackedCalls (by decide +kernel)
  obtain ⟨stEnd, hsent⟩ := Sample.peerLog_sent_ideal
  have hfresh : KeysFresh Sample.idealPlatform .sha256 Sample.peerStart Sample.peerLog := by
    unfold KeysFresh
    decide +kernel
  have hcounts : CountsFit Sample.idealPlatform .sha256 Sample.peerStart Sample.peerLog := by
    unfold CountsFit
    decide +kernel
  refine ⟨by decide +kernel, ?_⟩
  exact (recv_integrity (by decide) hsent hcounts hfresh Sample.idealPlatform_ideal rfl
    ⟨rfl, rfl⟩ hrun).1

end WolfNano
