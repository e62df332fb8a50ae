/-
What the calls of a session read, send and return when the channel neither loses nor refuses
anything, and the peer's records open.
-/
import WolfNano.Turns

namespace WolfNano

open Duplex

/-- A session that may send and receive: its keys, its counters, and room for records of `limit`
bytes of content. -/
structure Session.Live (s : Session) (limit : Nat) (our peer : TrafficKeys) (w r : UInt64) :
    Prop where
  established : s.established = true
  closed : s.closed = false
  io : s.io = true
  scratch : limit + 22 ≤ s.scratchLen
  writeKeys : s.writeKeys = our
  readKeys : s.readKeys = peer
  cSeq : s.cSeq = w
  sSeq : s.sSeq = r

section Calls

variable {P : Platform} {s : Session} {limit fuel outCap outLen : Nat} {our peer : TrafficKeys}
  {w r : UInt64} {out rec content : Bytes}

theorem Session.Live.check (h : s.Live limit our peer w r) : s.check = .ok () :=
  Session.check_ok.2 ⟨h.established, h.closed⟩

theorem Session.Live.sent (h : s.Live limit our peer w r) :
    s.countSent.Live limit our peer (w + 1) r := by
  refine { h with cSeq := ?_ }
  exact congrArg (· + 1) h.cSeq

theorem Session.Live.received (h : s.Live limit our peer w r) :
    { s with sSeq := s.sSeq + 1 }.Live limit our peer w (r + 1) := by
  refine { h with sSeq := ?_ }
  exact congrArg (· + 1) h.sSeq

/-- The session's records are sealed with our keys. -/
theorem Session.Live.seals (h : s.Live limit our peer w r) {contentType : UInt8} :
    sealRecord P s.cKey s.cIv s.cSeq contentType content =
      sealRecord P our.key our.iv w contentType content := by
  have hkey : s.cKey = our.key := congrArg TrafficKeys.key h.writeKeys
  have hiv : s.cIv = our.iv := congrArg TrafficKeys.iv h.writeKeys
  rw [hkey, hiv, h.cSeq]

/-- Content of an allowed length is sealed. -/
theorem sealed_isSome (hP : P.RecordOk) {t : TrafficKeys} (ht : t.Proper) (seq : UInt64)
    (contentType : UInt8) (hlen : content.length ≤ maxPlaintext) :
    ∃ rec, sealRecord P t.key t.iv seq contentType content = some rec := by
  have hnonce : (buildNonce t.iv seq).length = 12 := by
    simp [buildNonce, ht.2]
  obtain ⟨⟨ct, tag⟩, henc⟩ := Option.isSome_iff_exists.1 (hP.encrypt t.key (buildNonce t.iv seq)
    (recordHeader (content.length + 1 + recordTagSz)) (content ++ [contentType]) ht.1 hnonce
      (by simpa))
  exact ⟨_, sealRecord_eq_some.2 ⟨hP.aesInit, hP.aesKey _ ht.1, ct, tag, henc, rfl⟩⟩

/-! ### Sending -/

theorem wnSend_course (hP : P.RecordOk) (hour : our.Proper) (h : s.Live limit our peer w r)
    (data : Bytes) :
    wnSend P s (some data) = .done (.error .invalidArg, s) ∨
      ∃ rec, data.length ≤ maxPlaintext ∧ sealRecord P our.key our.iv w recAppdata data = some rec ∧
        (wnSend P s (some data)).Goes [] rec (.done (.ok (), s.countSent)) [] := by
  unfold wnSend
  rw [h.check]
  dsimp only
  split
  · exact .inl rfl
  · rename_i hlen
    have hmax : data.length ≤ maxPlaintext := by omega
    obtain ⟨rec, hseal⟩ := sealed_isSome hP hour w recAppdata hmax
    refine .inr ⟨rec, hmax, hseal, ?_⟩
    have hprotect := @recordProtect_gets P s.scratchLen _ _ _ rec _ _ hmax (h.seals.trans hseal)
    refine hprotect.run_all.trans (Proc.goes_write ?_)
    rw [if_neg (not_not.2 rfl)]
    exact .start _ _

theorem wnClose_course (hP : P.RecordOk) (hour : our.Proper) (h : s.Live limit our peer w r) :
    ∃ rec, sealRecord P our.key our.iv w recAlert [1, 0] = some rec ∧
      (wnClose P s).Goes [] rec (.done (.ok (), .zero)) [] := by
  obtain ⟨rec, hseal⟩ := sealed_isSome hP hour w recAlert
    (show ([1, 0] : Bytes).length ≤ maxPlaintext by
    decide)
  refine ⟨rec, hseal, ?_⟩
  unfold wnClose
  rw [h.closed, h.established, h.io]
  have hprotect := @recordProtect_gets P (5 + 2 + 1 + 16) _ _ _ rec _ _ (by decide)
    (h.seals.trans hseal)
  exact hprotect.run_all.trans (Proc.goes_write (.start _ _))

/-! ### Receiving -/

/-- A receive begins with the header of a record. -/
theorem wnRecv_asks (h : s.Live limit our peer w r) :
    ∃ k, wnRecv P (fuel + 1) s (some out) outCap (some outLen) = .recv 5 k := by
  unfold wnRecv
  rw [h.check]
  exact ⟨_, rfl⟩

/-- A record that opens is read whole; application data is handed on, and a close_notify ends the
session. -/
theorem recvOne_course (h : s.Live limit our peer w r) {contentType : UInt8}
    (hopen : openRecord P peer.key peer.iv r rec = .ok (contentType, content))
    (hfits : (⟨recAppdata, rec⟩ : Rec).Fits s.scratchLen) (hlen : 22 ≤ rec.length) :
    ∃ k, (recvOne P s outCap).Goes rec [] k [] ∧
      (contentType = recAppdata → content.length ≤ outCap → k.Goes [] []
        (.done (.ok (some content), { s with sSeq := s.sSeq + 1 })) []) ∧
      (contentType = recAlert → content = [1, 0] → k.Goes [] []
        (.done (.error .closed, { s with sSeq := s.sSeq + 1, closed := true })) []) := by
  have hkey : s.sKey = peer.key := congrArg TrafficKeys.key h.readKeys
  have hiv : s.sIv = peer.iv := congrArg TrafficKeys.iv h.readKeys
  rw [← hkey, ← hiv, ← h.sSeq] at hopen
  have hunprotect := @recordUnprotect_gets P (s.scratchLen - recordHeaderSz) _ _ rec _ _ hlen hopen
  unfold recvOne
  refine ⟨_, (recvRecord_gets hfits).run_all.trans hunprotect.run_all, ?_, ?_⟩
  · rintro rfl hcap
    dsimp only
    rw [if_pos rfl, if_neg (Nat.not_lt.2 hcap)]
    exact Proc.goes_emit (.start _ _)
  · rintro rfl rfl
    exact .start _ _

/-- A record of application data that fits is what the call returns. -/
theorem wnRecv_data (h : s.Live limit our peer w r)
    (hopen : openRecord P peer.key peer.iv r rec = .ok (recAppdata, content))
    (hfits : (⟨recAppdata, rec⟩ : Rec).Fits s.scratchLen) (hlen : 22 ≤ rec.length)
    (hcap : content.length ≤ outCap) : ∃ res : RecvOut,
      res.ret = .ok () ∧ res.data = some content ∧ res.s.Live limit our peer w (r + 1) ∧
        (wnRecv P (fuel + 1) s (some out) outCap (some outLen)).Goes rec [] (.done res) [] := by
  obtain ⟨k, hread, hdata, -⟩ := @recvOne_course P s limit outCap our peer w r rec content h
    recAppdata hopen hfits hlen
  refine ⟨⟨.ok (), some (splice out 0 content), some content.length,
    { s with sSeq := s.sSeq + 1 }⟩, rfl, ?_, h.received, ?_⟩
  · simp only [RecvOut.data, Option.map_some, Option.getD_some, splice_take]
  · have hone := hread.trans (hdata rfl hcap)
    have hloop : (recvLoop P (fuel + 1) s outCap).Goes rec []
        (.done (.ok content, { s with sSeq := s.sSeq + 1 })) [] := by
      rw [recvLoop]
      exact hone.bind _
    unfold wnRecv
    rw [h.check]
    exact hloop.bind _

/-- A close_notify ends the session. -/
theorem wnRecv_close (h : s.Live limit our peer w r)
    (hopen : openRecord P peer.key peer.iv r rec = .ok (recAlert, [1, 0]))
    (hfits : (⟨recAppdata, rec⟩ : Rec).Fits s.scratchLen) (hlen : 22 ≤ rec.length) :
    ∃ res : RecvOut, res.ret = .error .closed ∧ res.data = none ∧ res.s.closed = true ∧
      (wnRecv P (fuel + 1) s (some out) outCap (some outLen)).Goes rec [] (.done res) [] := by
  obtain ⟨k, hread, -, hclose⟩ := @recvOne_course P s limit outCap our peer w r rec
    [1, 0] h recAlert hopen hfits hlen
  refine ⟨⟨.error .closed, some out, some 0, { s with sSeq := s.sSeq + 1, closed := true }⟩,
    rfl, rfl, rfl, ?_⟩
  have hone := hread.trans (hclose rfl rfl)
  have hloop : (recvLoop P (fuel + 1) s outCap).Goes rec []
      (.done (.error .closed, { s with sSeq := s.sSeq + 1, closed := true })) [] := by
    rw [recvLoop]
    exact hone.bind _
  unfold wnRecv
  rw [h.check]
  exact hloop.bind _

/-! ### A session that has ended -/

theorem ended_calls {e : Err} (he : s.check = .error e) (data : Bytes) :
    wnSend P s (some data) = .done (.error e, s) ∧
      wnRecv P fuel s (some out) outCap (some outLen) =
      .done ⟨.error e, some out, some outLen, s⟩ := by
  constructor
  · unfold wnSend
    rw [he]
    rfl
  · unfold wnRecv
    rw [he]
    rfl

theorem wnClose_ended {e : Err} (he : s.check = .error e) :
    wnClose P s = .done (.ok (), .zero) := by
  have hnot : (!s.closed && s.established && s.io) = false := by
    unfold Session.check at he
    cases hclosed : s.closed with
    | true => rfl
    | false =>
        cases hest : s.established with
        | false => rfl
        | true =>
            rw [hclosed, hest] at he
            cases he
  unfold wnClose
  rw [hnot]
  rfl

end Calls

end WolfNano
