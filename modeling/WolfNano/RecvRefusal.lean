/-
An output buffer that is too small.  The record is counted before its length is
compared with the buffer, so a refused record is gone: the next call goes on
with the record after it.
-/
import WolfNano.RecvIntegrity
import WolfNano.Streams

namespace WolfNano

open Duplex

variable {P : Platform} {digest : Digest}

/-! ### A refusal -/

section Refusal

variable {s s' : Session} {rec : Rec} {plain : Bytes} {outCap : Nat}
  (hfits : rec.Fits s.scratchLen) (hccs : rec.isCcs = false)
  (hlen : 22 ≤ rec.bytes.length)
  (hopen : openRecord P s.sKey s.sIv s.sSeq rec.bytes = .ok (recAppdata, plain))
  (hbig : outCap < plain.length)

include hfits hccs hlen hopen hbig

/-- The record that was read first is the one that is refused. -/
theorem RecvOne.refuses {tr tr₁ tr₂ : List (Act Ev)} {x : Except Err (Option Bytes)}
    (h : RecvOne P s outCap tr₁ x s') (htr : tr₁ ++ tr₂ = rec.reads ++ tr)
    (hlast : ∀ e, x = .error e → tr₂ = []) :
    x = .error .invalidArg ∧ s' = s.countRead := by
  have hfirst : ∀ {rec' : Rec} {more : List (Act Ev)}, rec'.Fits s.scratchLen →
      rec'.reads ++ more = rec.reads ++ tr → rec' = rec := by
    intro rec' more hfits' heq
    have hrecs := congrArg readRecs heq
    rw [readRecs_reads hfits', readRecs_reads hfits] at hrecs
    exact (List.cons.inj hrecs).1
  cases h with
  | @unread tr₁ e hfail =>
      rw [hlast e rfl, List.append_nil] at htr
      subst htr
      obtain ⟨-, -, ⟨-, hshort⟩ | ⟨-, hdr, body, heq, htype⟩⟩ := recvRecord_fails hfail
      · rw [bytesIn_append, Rec.bytesIn_reads, List.length_append] at hshort
        omega
      · have hhdr : rec.bytes.take 5 = hdr := Act.got.inj (List.cons.inj heq).1
        have hget : (rec.bytes.take 5).getD 0 0 = rec.bytes.getD 0 0 := by
          simp
        rw [← hhdr, hget, ← hfits.type_eq] at htype
        simp [Rec.isCcs, htype] at hccs
  | ccs hfits' hccs' =>
      obtain rfl := hfirst hfits' htr
      rw [hccs] at hccs'
      cases hccs'
  | short hfits' _ hlen' =>
      obtain rfl := hfirst hfits' htr
      omega
  | unopened hfits' _ hopen' =>
      rw [List.append_assoc] at htr
      obtain rfl := hfirst hfits' htr
      rw [hopen] at hopen'
      cases hopen'
  | opened hfits' _ _ hopen' hhandled =>
      rw [List.append_assoc] at htr
      obtain rfl := hfirst hfits' htr
      rw [hopen] at hopen'
      cases hopen'
      cases hhandled with
      | deliver hfit => omega
      | refuse => exact ⟨rfl, rfl⟩
      | other happ => exact absurd rfl happ

theorem RecvMany.refuses {tr : List (Act Ev)} {x : Except Err Bytes}
    (h : RecvMany P outCap s (rec.reads ++ tr) x s') :
    x = .error .invalidArg ∧ s' = s.countRead := by
  generalize htr : rec.reads ++ tr = whole at h
  cases h with
  | stop hone =>
      obtain ⟨hx, hs'⟩ := hone.refuses hfits hccs hlen hopen hbig
        (by rw [List.append_nil, ← htr]) fun _ _ => rfl
      cases hx
      exact ⟨rfl, hs'⟩
  | data hone =>
      obtain ⟨hx, -⟩ := hone.refuses hfits hccs hlen hopen hbig
        (by rw [List.append_nil, ← htr]) fun _ _ => rfl
      cases hx
  | skip hone _ =>
      obtain ⟨hx, -⟩ := hone.refuses hfits hccs hlen hopen hbig htr.symm
        (fun _ he => by cases he)
      cases hx

/-- A record that does not fit is refused and counted; nothing is stored. -/
theorem wnRecv_refuses {buf : Bytes} {n fuel : Nat} {tr : List (Act Ev)}
    {res : RecvOut}
    (h : (wnRecv P fuel s (some buf) outCap (some n)).Runs (rec.reads ++ tr) res) :
    res = ⟨.error .invalidArg, some buf, some 0, s.countRead⟩ := by
  rcases wnRecv_runs h with ⟨hnil, -⟩ |
    ⟨buf', n', x, s', hbuf, -, -, hmany, ⟨e, rfl, rfl⟩ | ⟨plain', rfl, rfl⟩⟩
  · cases hnil
  · obtain ⟨hx, rfl⟩ := hmany.refuses hfits hccs hlen hopen hbig
    cases hx
    cases hbuf
    rfl
  · obtain ⟨hx, -⟩ := hmany.refuses hfits hccs hlen hopen hbig
    cases hx

/-- The loop comes to its end on the first record: it is read and opened, counted and
refused, and the stream stands behind it. -/
theorem recvLoop_refuses {σ : Type} {answer : σ → Bytes → Int × σ} {io : σ} {rest : Bytes}
    {fuel : Nat} :
    (recvLoop P (fuel + 1) s outCap).eval (Tape.handler answer) ⟨rec.bytes ++ rest, io⟩ =
      some ((.error .invalidArg, s.countRead), ⟨rest, io⟩) := by
  have hnot : ¬ rec.isCcs = true := Bool.eq_false_iff.1 hccs
  have hread : (recvRecord s.scratchLen).run.eval (Tape.handler answer)
      ⟨rec.bytes ++ rest, io⟩ = some (.ok rec, ⟨rest, io⟩) := recvRecord_eval hfits
  have hunprotect : (recordUnprotect P (s.scratchLen - recordHeaderSz) s.sKey s.sIv s.sSeq
      rec.bytes).run.eval (Tape.handler answer) ⟨rest, io⟩ =
        some (.ok (recAppdata, plain), ⟨rest, io⟩) := by
    rw [Prog.run_eval, recordUnprotect_eval hlen, hopen]
  have hone : (recvOne P s outCap).eval (Tape.handler answer) ⟨rec.bytes ++ rest, io⟩ =
      some ((.error .invalidArg, s.countRead), ⟨rest, io⟩) := by
    unfold recvOne
    rw [Proc.eval_bind, hread, Option.bind_some]
    dsimp only
    rw [if_neg hnot, Proc.eval_bind, hunprotect, Option.bind_some]
    dsimp only
    rw [if_pos rfl, if_pos hbig]
    rfl
  rw [recvLoop, Proc.eval_bind, hone]
  rfl

/-- The call returns, whatever the stream goes on with. -/
theorem wnRecv_refuses_eval {buf : Bytes} {n fuel : Nat} (hestablished : s.established = true)
    (hopened : s.closed = false) (hfuel : 1 ≤ fuel) {σ : Type}
    (answer : σ → Bytes → Int × σ) (io : σ) (rest : Bytes) :
    (wnRecv P fuel s (some buf) outCap (some n)).eval (Tape.handler answer)
        ⟨rec.bytes ++ rest, io⟩ =
      some (⟨.error .invalidArg, some buf, some 0, s.countRead⟩, ⟨rest, io⟩) := by
  obtain ⟨fuel, rfl⟩ := Nat.exists_eq_add_of_le' hfuel
  have hloop : (recvLoop P (fuel + 1) s outCap).eval (Tape.handler answer)
      ⟨rec.bytes ++ rest, io⟩ = some ((.error .invalidArg, s.countRead), ⟨rest, io⟩) :=
    recvLoop_refuses hfits hccs hlen hopen hbig
  have hcheck : s.check = .ok () := Session.check_ok.2 ⟨hestablished, hopened⟩
  unfold wnRecv
  rw [hcheck]
  dsimp only
  rw [Proc.eval_bind, hloop]
  rfl

end Refusal

/-! ### A reliable channel -/

/-- Calls that refused a record. -/
def CallSeen.refused (P : Platform) (c : CallSeen) : Bool :=
  decide (c.ret = .error .invalidArg) && !(consumed P c.tr).isEmpty

theorem bytesIn_silent {tr : List (Act Ev)} (h : ∀ b, .got b ∉ tr) : bytesIn tr = [] := by
  induction tr with
  | nil => rfl
  | cons a tr ih =>
      have hrest : ∀ b, .got b ∉ tr := fun b hb => h b (List.mem_cons_of_mem _ hb)
      cases a with
      | got b => exact absurd (List.mem_cons_self ..) (h b)
      | note e => exact ih hrest
      | sent buf r => exact ih hrest
      | short n => exact ih hrest

theorem Handled.bytesIn {s s' : Session} {outCap : Nat} {contentType : UInt8}
    {plain : Bytes} {tr : List (Act Ev)} {x : Except Err (Option Bytes)}
    (h : Handled P s outCap contentType plain tr x s') : bytesIn tr = [] := by
  cases h with
  | posths hrun => exact bytesIn_silent (sessionPosths_silent hrun).1
  | deliver => rfl
  | refuse => rfl
  | closeNotify => rfl
  | alert => rfl
  | other => rfl

/-- The record that was read is the one sent first. -/
theorem Rec.Fits.eq_sent {rec : Rec} {cap : Nat} (hfits : rec.Fits cap)
    {st : PeerState} {r : PeerRec} {bytes more : Bytes} (hr : r.Fits)
    (hseal : st.seal P r = some bytes) (hfront : rec.bytes <+: bytes ++ more) :
    rec.bytes = bytes := by
  have hshort := hfits.nonempty
  have hlong := (PeerState.seal_length hr hseal).1
  have htake : rec.bytes.take 5 = bytes.take 5 := by
    obtain ⟨rest, hrest⟩ := hfront
    have htake := congrArg (List.take 5) hrest
    rwa [List.take_append_of_le_length (by omega),
      List.take_append_of_le_length (by omega)] at htake
  have hslice : ∀ b : Bytes, slice b 3 2 = (b.take 5).drop 3 := by
    intro b
    rw [slice, List.drop_take]
  have hhead : slice rec.bytes 3 2 = slice bytes 3 2 := by
    rw [hslice, hslice, htake]
  have hlen : rec.bytes.length = bytes.length := by
    rw [hfits.length_eq, hhead, ← (PeerState.seal_length hr hseal).2]
  exact List.IsPrefix.eq_of_length
    (List.prefix_of_prefix_length_le hfront (List.prefix_append _ _) hlen.le) hlen

/-- On a reliable channel the records are read in the order of the log. -/
theorem follow_of_stream {st₀ stEnd : PeerState} {log : List (PeerRec × Bytes)}
    (hopens : P.OpensSealed) (hlog : Sent P digest st₀ log stEnd) :
    Follow P digest st₀ log
      (fun done tr => ∃ rest, log = done ++ rest ∧
        bytesIn tr <+: (rest.map Prod.snd).flatten)
      (fun tr ret => ret = .ok () ∨ consumed P tr ≠ []) := by
  refine ⟨?_, ?_, .inl rfl, ?_⟩
  · intro done s s' outCap tr tr' x hs hdone ⟨rest, hrest, hbytes⟩ h hG
    have hsame := h.same.1
    cases h with
    | unread hfail =>
        rcases hG with hret | hne
        · cases hret
        · rw [consumed, (recvRecord_fails hfail).1] at hne
          exact absurd rfl hne
    | ccs =>
        rcases hG with hret | hne
        · cases hret
        · exact absurd rfl hne
    | short =>
        rcases hG with hret | hne
        · cases hret
        · exact absurd rfl hne
    | unopened hfits hccs hopen =>
        rcases hG with hret | hne
        · cases hret
        · exact absurd (by simp [consumed, Session.openEv, openedApp?, hopen]) hne
    | @opened rec contentType plain tr x s' hfits hccs hlen hopen hhandled =>
        have hread : bytesIn (rec.reads ++ .note (s.openEv rec.bytes) :: tr) = rec.bytes := by
          rw [bytesIn_append, bytesIn_note, hhandled.bytesIn, Rec.bytesIn_reads,
            List.append_nil]
        rw [bytesIn_append, hread] at hbytes
        obtain ⟨st, hst, hreads⟩ := hs.2
        cases rest with
        | nil =>
            have hnil := List.prefix_nil.1 hbytes
            have hempty := congrArg List.length hnil
            rw [List.length_append] at hempty
            simp only [List.length_nil] at hempty
            omega
        | cons next rest =>
            obtain ⟨r, bytes⟩ := next
            rw [hrest] at hlog
            obtain ⟨mid, hleft, hright⟩ := hlog.split
            obtain rfl := hst.unique hleft
            cases hright with
            | cons hfitsR hupdate hseal hafter =>
                have hflat : (((r, bytes) :: rest).map Prod.snd).flatten
                    = bytes ++ (rest.map Prod.snd).flatten := rfl
                rw [hflat] at hbytes
                have hsame' : rec.bytes = bytes :=
                  hfits.eq_sent hfitsR hseal ((List.prefix_append _ _).trans hbytes)
                have hkey : s.sKey = st.keys.key := congrArg TrafficKeys.key hreads.keys
                have hiv : s.sIv = st.keys.iv := congrArg TrafficKeys.iv hreads.keys
                have hinit := openRecord_aes hopen
                rw [hkey] at hinit
                have hopen' := PeerState.open_seal hopens hinit hseal
                rw [← hkey, ← hiv, ← hreads.seq, ← hsame', hopen] at hopen'
                cases hopen'
                refine ⟨[(r, bytes)], ?_, ?_, consumed_handled hopen hhandled, rest, ?_, ?_⟩
                · rw [hrest]
                  exact ⟨rest, by simp⟩
                · exact hs.opened (hleft.append
                    (.cons hfitsR hupdate hseal hafter)) hsame hhandled
                · rw [hrest, List.append_assoc]
                  rfl
                · rw [hsame'] at hbytes
                  exact (List.prefix_append_right_inj bytes).1 hbytes
  · rintro done tr tr' hnil ⟨rest, hrest, hbytes⟩
    rw [bytesIn_append, hnil, List.nil_append] at hbytes
    exact ⟨rest, hrest, hbytes⟩
  · rintro tr tr' ret hnone (hret | hne)
    · exact .inl hret
    · rw [consumed_append, hnone, List.nil_append] at hne
      exact .inr hne

/-! ### Runs with refusals -/

theorem Delivers.data_eq {outCap : Nat} {got : List Bytes} {ret : Ret}
    {data : Option Bytes} (h : Delivers outCap got ret data) :
    data.toList = if decide (ret = .error .invalidArg) && !got.isEmpty then [] else got := by
  cases h with
  | nothing => simp
  | delivered => simp
  | refused => simp

/-- What a call returns is what it consumed, unless it refused that. -/
theorem CallSeen.Delivered.data_eq {c : CallSeen} (h : c.Delivered P) :
    c.data.toList = if c.refused P then [] else consumed P c.tr := by
  obtain ⟨call, before, tr, ret, data⟩ := c
  cases call with
  | send _ =>
      obtain ⟨hnone, rfl⟩ := h
      simp [CallSeen.refused, hnone]
  | close =>
      obtain ⟨hnone, rfl⟩ := h
      simp [CallSeen.refused, hnone]
  | recv out outCap outLen =>
      have hdelivers : Delivers outCap (consumed P tr) ret data := h
      exact hdelivers.data_eq

theorem returned_eq {calls : List CallSeen} (h : ∀ c ∈ calls, c.Delivered P) :
    calls.filterMap CallSeen.data =
      (calls.filter fun c => !c.refused P).flatMap fun c => consumed P c.tr := by
  induction calls with
  | nil => rfl
  | cons c calls ih =>
      have hc := (h c (List.mem_cons_self ..)).data_eq
      have hrest := ih fun c hc => h c (List.mem_cons_of_mem _ hc)
      have hhead : (c :: calls).filterMap CallSeen.data
          = c.data.toList ++ calls.filterMap CallSeen.data := by
        cases hdata : c.data <;> simp [hdata]
      rw [hhead, hc, hrest, List.filter_cons]
      cases c.refused P <;> simp

/-- A refused record is gone.  A call on a live session with a record that fits the
scratch and has more content than the output buffer returns, having read that record and
no more; the refusing call stores nothing and counts the record; and in a run on a
reliable channel that fails only by refusals, the calls consume the first application
records the peer sent and return these without the refused ones. -/
theorem refused_record_is_consumed {st₀ stEnd : PeerState}
    {log : List (PeerRec × Bytes)} (hopens : P.OpensSealed)
    (hlog : Sent P digest st₀ log stEnd) :
    (∀ (s : Session) (rec : Rec) (buf plain : Bytes) (n outCap fuel : Nat),
      s.established = true → s.closed = false → rec.Fits s.scratchLen →
      rec.isCcs = false → 22 ≤ rec.bytes.length →
      openRecord P s.sKey s.sIv s.sSeq rec.bytes = .ok (recAppdata, plain) →
      outCap < plain.length → 1 ≤ fuel →
      ∀ {σ : Type} (answer : σ → Bytes → Int × σ) (io : σ) (rest : Bytes),
        (wnRecv P fuel s (some buf) outCap (some n)).eval (Tape.handler answer)
            ⟨rec.bytes ++ rest, io⟩ =
          some (⟨.error .invalidArg, some buf, some 0, s.countRead⟩, ⟨rest, io⟩)) ∧
    (∀ (s : Session) (rec : Rec) (buf plain : Bytes) (n outCap fuel : Nat)
        (tr : List (Act Ev)) (res : RecvOut), rec.Fits s.scratchLen →
      rec.isCcs = false → 22 ≤ rec.bytes.length →
      openRecord P s.sKey s.sIv s.sSeq rec.bytes = .ok (recAppdata, plain) →
      outCap < plain.length →
      (wnRecv P fuel s (some buf) outCap (some n)).Runs (rec.reads ++ tr) res →
      res = ⟨.error .invalidArg, some buf, some 0, s.countRead⟩) ∧
    ∀ (s s' : Session) (calls : List CallSeen), s.digest = digest → s.ReadsAt st₀ →
      SessionRun P s calls s' →
      bytesIn (runTrace calls) <+: (log.map Prod.snd).flatten →
      (∀ c ∈ calls, c.ret = .ok () ∨ c.refused P = true) →
      consumed P (runTrace calls) <+: appRecords log ∧
        calls.filterMap CallSeen.data =
          (calls.filter fun c => !c.refused P).flatMap fun c => consumed P c.tr := by
  refine ⟨?_, ?_, ?_⟩
  · intro s rec buf plain n outCap fuel hestablished hopened hfits hccs hlen hopen hbig hfuel σ
    exact wnRecv_refuses_eval hfits hccs hlen hopen hbig hestablished hopened hfuel
  · intro s rec buf plain n outCap fuel tr res hfits hccs hlen hopen hbig hrun
    exact wnRecv_refuses hfits hccs hlen hopen hbig hrun
  · intro s s' calls hdigest hstart hrun hbytes hgood
    have hs : s.Along P digest st₀ [] := fun _ => ⟨hdigest, st₀, .nil, hstart⟩
    have hG : ∀ c ∈ calls, c.ret = .ok () ∨ consumed P c.tr ≠ [] := by
      intro c hc
      rcases hgood c hc with hret | hrefused
      · exact .inl hret
      · refine .inr fun hnone => ?_
        simp [CallSeen.refused, hnone] at hrefused
    obtain ⟨new, hfront, hnew⟩ := (follow_of_stream hopens hlog).run hs
      (List.nil_prefix ..) ⟨log, rfl, hbytes⟩ hrun hG
    rw [List.nil_append] at hfront
    refine ⟨?_, returned_eq hrun.delivered⟩
    rw [hnew]
    exact hfront.filterMap _

namespace Sample

/-- Two octets are refused for want of room, then the call is repeated. -/
def retriedCalls : List (Call × Bytes × Bool) :=
  [(.recv (some []) 1 (some 0), ((peerLog.map Prod.snd).take 1).flatten, false),
    (.recv (some []) 8 (some 0), ((peerLog.map Prod.snd).drop 1).flatten, false)]

theorem retriedCalls_bytes :
    bytesIn (runTrace (seen platform session retriedCalls)) <+:
      (peerLog.map Prod.snd).flatten := by
  decide +kernel

/-- The record that is refused. -/
def refusedRec : Rec := ⟨recAppdata, ((peerLog.map Prod.snd).take 1).flatten⟩

theorem refusedRec_fits : refusedRec.Fits session.scratchLen where
  type_eq := by decide +kernel
  length_eq := by decide +kernel
  nonempty := by decide +kernel
  le_cap := by decide +kernel
  le_max := by decide +kernel
  ccs h := absurd h (by decide)

theorem refusedRec_opens : 22 ≤ refusedRec.bytes.length ∧
    openRecord platform session.sKey session.sIv session.sSeq refusedRec.bytes =
      .ok (recAppdata, [1, 2]) := by
  decide +kernel

end Sample

theorem refused_record_is_consumed_sample :
    (∀ rest, (wnRecv Sample.platform 1 Sample.session (some [7]) 1 (some 9)).eval
        (Tape.handler fun (_ : Unit) b => (b.length, ())) ⟨Sample.refusedRec.bytes ++ rest, ()⟩ =
      some (⟨.error .invalidArg, some [7], some 0, Sample.session.countRead⟩, ⟨rest, ()⟩)) ∧
    (Sample.seen Sample.platform Sample.session Sample.retriedCalls).map CallSeen.data =
        [none, some [3]] ∧
      consumed Sample.platform (runTrace
          (Sample.seen Sample.platform Sample.session Sample.retriedCalls)) <+:
        appRecords Sample.peerLog := by
  obtain ⟨s', hrun⟩ := @Sample.seen_runs Sample.platform Sample.session
    Sample.retriedCalls (by decide +kernel)
  obtain ⟨stEnd, hsent⟩ := Sample.peerLog_sent
  have hgood : (Sample.seen Sample.platform Sample.session Sample.retriedCalls).all
      (fun c => decide (c.ret = .ok ()) || c.refused Sample.platform) = true := by
    decide +kernel
  obtain ⟨hlen, hopen⟩ := Sample.refusedRec_opens
  refine ⟨(refused_record_is_consumed Sample.opensSealed hsent).1 Sample.session
      Sample.refusedRec [7] [1, 2] 9 1 1 rfl rfl Sample.refusedRec_fits rfl hlen hopen
      (by decide) (Nat.le_refl 1) _ (),
    by decide +kernel, ((refused_record_is_consumed Sample.opensSealed hsent).2.2
    _ _ _ rfl ⟨rfl, rfl⟩ hrun Sample.retriedCalls_bytes fun c hc => ?_).1⟩
  simpa using List.all_eq_true.1 hgood c hc

/-- After a refusal the next call with enough room returns the record. -/
def RefusalKeeps (P : Platform) (calls : List CallSeen) : Prop :=
  calls.IsChain fun a b => ∀ plain out outCap outLen, consumed P a.tr = [plain] →
    a.ret = .error .invalidArg → b.call = .recv (some out) outCap (some outLen) →
      plain.length ≤ outCap → b.ret = .ok () ∧ b.data = some plain

/-- The call after the refusal returns the record after the refused one. -/
theorem refusal_loses_record :
    ¬ ∀ (st₀ stEnd : PeerState) (log : List (PeerRec × Bytes)) (s s' : Session)
        (calls : List CallSeen), s.established = true →
      Sent Sample.platform s.digest st₀ log stEnd → s.ReadsAt st₀ →
      SessionRun Sample.platform s calls s' →
      bytesIn (runTrace calls) <+: (log.map Prod.snd).flatten →
      RefusalKeeps Sample.platform calls := by
  intro hkeeps
  obtain ⟨s', hrun⟩ := @Sample.seen_runs Sample.platform Sample.session
    Sample.retriedCalls (by decide +kernel)
  obtain ⟨stEnd, hsent⟩ := Sample.peerLog_sent
  have hchain := hkeeps _ _ _ _ _ _ rfl hsent ⟨rfl, rfl⟩ hrun Sample.retriedCalls_bytes
  have hseen : (Sample.seen Sample.platform Sample.session Sample.retriedCalls).map
      (fun c => (c.call, c.ret, consumed Sample.platform c.tr, c.data)) =
        [(.recv (some []) 1 (some 0), .error .invalidArg, [[1, 2]], none),
          (.recv (some []) 8 (some 0), .ok (), [[3]], some [3])] := by
    decide +kernel
  obtain ⟨a, rest, hcalls, ha, hrest⟩ := List.map_eq_cons_iff.1 hseen
  obtain ⟨b, rest', rfl, hb, -⟩ := List.map_eq_cons_iff.1 hrest
  rw [hcalls] at hchain
  simp only [Prod.mk.injEq] at ha hb
  have hab := List.isChain_cons_cons.1 hchain
  obtain ⟨-, hdata⟩ := hab.1 _ _ _ _ ha.2.2.1 ha.2.1 hb.1 (by decide)
  rw [hb.2.2.2] at hdata
  cases hdata

end WolfNano
