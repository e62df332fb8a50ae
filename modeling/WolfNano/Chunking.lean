/-
`wn_RecvRecord` on a transport whose reads come in pieces, with the caller's memory: what it
leaves there depends on the stream only, and so does everything that is built on it.
-/
import WolfNano.Assembly
import WolfNano.Sample
import WolfNano.Duplex.Chunks

namespace WolfNano

open Duplex

/-! ### Reading into memory -/

section Reading

variable {τ : Type} (T : Transport τ)

/-- `io_recv_exact` into `mem` from `off` on; the result comes with enough fuel. -/
def ioRecvExactInto (fuel : Nat) (mem : Bytes) (off n : Nat) (x : τ) : Option (Ret × Bytes × τ) :=
  (T.fill fuel n 0 off mem x).map fun y =>
    (if y.1 = true then .ok () else .error .crypto, y.2.1, y.2.2)

/-- What `wn_RecvRecord` leaves with its caller: the code, `*type`, `*recLen` and the memory
at `rec`. -/
structure RecordRead where
  ret : Ret
  rtype : UInt8
  recLen : Nat
  mem : Bytes

/-- `wn_RecvRecord` on the caller's variables and the memory at `rec`, `cap` bytes of which
are for the record. -/
def recvRecordInto (fuel cap : Nat) (rtype : UInt8) (recLen : Nat) (mem : Bytes) (x : τ) :
    Option (RecordRead × τ) := do
  let (ret, mem, x) ← ioRecvExactInto T fuel mem 0 5 x
  match ret with
  | .error e => pure (⟨.error e, rtype, recLen, mem⟩, x)
  | .ok () =>
      let rtype := mem.getD 0 0
      let frag := ofBE (slice mem 3 2)
      if frag = 0 ∨ frag + 5 > cap ∨ frag > maxPlaintext + 256 then
        pure (⟨.error .crypto, rtype, recLen, mem⟩, x)
      else do
        let (ret, mem, x) ← ioRecvExactInto T fuel mem 5 frag x
        let recLen := frag + 5
        match ret with
        | .error e => pure (⟨.error e, rtype, recLen, mem⟩, x)
        | .ok () =>
            if rtype = recChangeCipher ∧ (frag ≠ 1 ∨ mem.getD 5 0 ≠ 1) then
              pure (⟨.error .decode, rtype, recLen, mem⟩, x)
            else
              pure (⟨.ok (), rtype, recLen, mem⟩, x)

end Reading

/-! ### What is left depends on the stream only -/

instance {cap : Nat} {stream : Bytes} : Decidable (HeaderOk cap stream) :=
  inferInstanceAs (Decidable (_ ∧ _ ∧ _))

instance {stream : Bytes} : Decidable (BadCcs stream) :=
  inferInstanceAs (Decidable (_ ∧ (_ ∨ _)))

/-- The bytes a record takes from a stream: its header, and its fragment when the header is
accepted. -/
def recordSpan (cap : Nat) (stream : Bytes) : Nat :=
  if HeaderOk cap stream then 5 + fragLen stream else 5

/-- What `wn_RecvRecord` leaves, told from the stream. -/
def received (cap : Nat) (stream : Bytes) (rtype : UInt8) (recLen : Nat) (mem : Bytes) :
    RecordRead :=
  if stream.length < 5 then
    ⟨.error .crypto, rtype, recLen, splice mem 0 stream⟩
  else if HeaderOk cap stream then
    { ret :=
        if stream.length < 5 + fragLen stream then .error .crypto
        else if BadCcs stream then .error .decode
        else .ok ()
      rtype := stream.getD 0 0
      recLen := fragLen stream + 5
      mem := splice mem 0 (stream.take (5 + fragLen stream)) }
  else
    ⟨.error .crypto, stream.getD 0 0, recLen, splice mem 0 (stream.take 5)⟩

section Stored

variable {mem stream : Bytes} {n : Nat}

/-- The first bytes of the memory are the stored ones. -/
theorem splice_getD {i : Nat} (hi : i < n) (hn : n ≤ stream.length) :
    (splice mem 0 (stream.take n)).getD i 0 = stream.getD i 0 := by
  have hlen : (stream.take n).length = n := List.length_take_of_le hn
  rw [splice, List.take_zero, List.nil_append, List.getD_append _ _ _ _ (by omega),
    List.getD_eq_getElem?_getD, List.getElem?_take, if_pos hi, ← List.getD_eq_getElem?_getD]

theorem splice_fragLen (hhdr : 5 ≤ stream.length) :
    ofBE (slice (splice mem 0 (stream.take 5)) 3 2) = fragLen stream := by
  have hlen : (stream.take 5).length = 5 := List.length_take_of_le hhdr
  have hslice : slice (splice mem 0 (stream.take 5)) 3 2 = slice stream 3 2 := by
    rw [splice, List.take_zero, List.nil_append, slice, List.drop_append_of_le_length (by omega),
      List.take_append_of_le_length (by rw [List.length_drop]; omega), List.drop_take,
      List.take_take]
    rfl
  rw [hslice]
  rfl

end Stored

section Delivered

variable {σ τ : Type} {T : Transport τ} {answer : σ → Bytes → Int × σ} {x : τ} {t : Tape σ}

/-- The read loop comes to an end, with the bytes of the stream. -/
theorem ioRecvExactInto_eq (hx : T.Delivers answer x t) {fuel n off : Nat} {mem : Bytes}
    (hfuel : n < fuel) (hmem : off + n ≤ mem.length) :
    ∃ x', ioRecvExactInto T fuel mem off n x =
        some (if n ≤ t.bytes.length then .ok () else .error .crypto,
          splice mem off (t.bytes.take n), x') ∧
      T.Delivers answer x' { t with bytes := t.bytes.drop n } := by
  have ⟨x', hfill, hx'⟩ := @Transport.fill_eq σ τ T answer _ Transport.delivers_feeds fuel n 0 off
    mem x t hx (Nat.zero_le n) hfuel hmem
  refine ⟨x', ?_, hx'⟩
  rw [ioRecvExactInto, hfill]
  simp

/-- What `wn_RecvRecord` leaves is told from the stream, and it takes the span of the record. -/
theorem recvRecordInto_eq (hx : T.Delivers answer x t) {fuel cap recLen : Nat} {rtype : UInt8}
    {mem : Bytes} (hheader : 5 ≤ mem.length) (hcap : cap ≤ mem.length)
    (hfuel : maxPlaintext + 256 < fuel) :
    ∃ x', recvRecordInto T fuel cap rtype recLen mem x =
        some (received cap t.bytes rtype recLen mem, x') ∧
      T.Delivers answer x' { t with bytes := t.bytes.drop (recordSpan cap t.bytes) } := by
  have hfive : 5 < fuel := Nat.lt_of_le_of_lt (by decide) hfuel
  have ⟨x₁, hread, hx₁⟩ := @ioRecvExactInto_eq σ τ T answer x t hx fuel 5 0 mem hfive (by omega)
  generalize hstream : t.bytes = stream at hread hx₁ ⊢
  rw [recvRecordInto, hread, received, recordSpan]
  by_cases hhdr : stream.length < 5
  · have hall : stream.take 5 = stream := List.take_of_length_le (Nat.le_of_lt hhdr)
    have hnone : ∀ n, 5 ≤ n → stream.drop n = [] := by
      intro n hn
      exact List.drop_eq_nil_of_le (by omega)
    rw [if_neg (Nat.not_le.2 hhdr), hall, if_pos hhdr]
    refine ⟨x₁, rfl, ?_⟩
    rw [hnone 5 (Nat.le_refl 5)] at hx₁
    rw [hnone _ (by split <;> omega)]
    exact hx₁
  have hhdr := Nat.not_lt.1 hhdr
  have htype := @splice_getD mem stream 5 0 (by decide) hhdr
  have hfrag := @splice_fragLen mem stream hhdr
  rw [if_pos hhdr, if_neg (Nat.not_lt.2 hhdr), Option.bind_eq_bind, Option.bind_some]
  simp only [htype, hfrag]
  by_cases hok : HeaderOk cap stream
  · have ⟨hzero, hroom, hmax⟩ := hok
    have hlen : (stream.take 5).length = 5 := List.length_take_of_le hhdr
    have hsize : (splice mem 0 (stream.take 5)).length = mem.length := by
      apply splice_length_of_le
      omega
    have ⟨x₂, hbody, hx₂⟩ := @ioRecvExactInto_eq σ τ T answer x₁ _ hx₁ fuel (fragLen stream) 5
      (splice mem 0 (stream.take 5)) (Nat.lt_of_le_of_lt hmax hfuel) (by omega)
    have hstored : splice (splice mem 0 (stream.take 5)) 5 ((stream.drop 5).take (fragLen stream)) =
        splice mem 0 (stream.take (5 + fragLen stream)) := by
      have hjoin := @Transport.splice_splice mem (stream.take 5)
        ((stream.drop 5).take (fragLen stream)) 0 (Nat.zero_le _)
      rw [hlen, ← List.take_add] at hjoin
      exact hjoin
    rw [if_neg hok.passes, if_pos hok, if_pos hok, hbody, hstored]
    rw [List.drop_drop] at hx₂
    rw [List.length_drop]
    refine ⟨x₂, ?_, hx₂⟩
    by_cases hcut : stream.length < 5 + fragLen stream
    · rw [if_neg (show ¬ fragLen stream ≤ stream.length - 5 by omega), if_pos hcut]
      rfl
    · have hfirst := @splice_getD mem stream (5 + fragLen stream) 5 (by omega) (Nat.not_lt.1 hcut)
      rw [if_pos (show fragLen stream ≤ stream.length - 5 by omega), if_neg hcut]
      simp only [Option.bind_some, hfirst]
      by_cases hccs : BadCcs stream
      · have hbad : stream.getD 0 0 = recChangeCipher ∧
            (fragLen stream ≠ 1 ∨ stream.getD 5 0 ≠ 1) := hccs
        rw [if_pos hbad, if_pos hccs]
        rfl
      · have hgood : ¬ (stream.getD 0 0 = recChangeCipher ∧
            (fragLen stream ≠ 1 ∨ stream.getD 5 0 ≠ 1)) := hccs
        rw [if_neg hgood, if_neg hccs]
        rfl
  · have hrefused : fragLen stream = 0 ∨ fragLen stream + 5 > cap ∨
        fragLen stream > maxPlaintext + 256 := by
      by_contra hnot
      rw [not_or, not_or] at hnot
      exact hok ⟨hnot.1, Nat.not_lt.1 hnot.2.1, Nat.not_lt.1 hnot.2.2⟩
    rw [if_pos hrefused, if_neg hok, if_neg hok]
    exact ⟨x₁, rfl, hx₁⟩

/-- The record a caller finds. -/
def RecordRead.record (r : RecordRead) : Except Err Rec :=
  match r.ret with
  | .ok () => .ok ⟨r.rtype, r.mem.take r.recLen⟩
  | .error e => .error e

/-- Read without memory, a record is the one that is left in it. -/
theorem recvRecord_tape_received (cap recLen : Nat) (rtype : UInt8) (mem : Bytes) :
    (recvRecord cap).eval (Tape.handler answer) t =
      some ((received cap t.bytes rtype recLen mem).record,
        { t with bytes := t.bytes.drop (recordSpan cap t.bytes) }) := by
  obtain ⟨stream, st⟩ := t
  rw [received, recordSpan]
  dsimp only
  by_cases hhdr : stream.length < 5
  · have hnone : stream.drop (if HeaderOk cap stream then 5 + fragLen stream else 5) = [] := by
      apply List.drop_eq_nil_of_le
      split <;> omega
    rw [if_pos hhdr, hnone, recvRecord]
    exact Prog.eval_bind_of_error (ioRecvExact_eval_short hhdr)
  have hhdr := Nat.not_lt.1 hhdr
  rw [if_neg (Nat.not_lt.2 hhdr)]
  by_cases hok : HeaderOk cap stream
  · rw [if_pos hok, if_pos hok]
    by_cases hcut : stream.length < 5 + fragLen stream
    · have hnone : stream.drop (5 + fragLen stream) = [] :=
        List.drop_eq_nil_of_le (Nat.le_of_lt hcut)
      rw [if_pos hcut, recvRecord_eval_cut hhdr hok hcut, hnone]
      rfl
    · have hlen := Nat.not_lt.1 hcut
      rw [if_neg hcut]
      by_cases hccs : BadCcs stream
      · rw [if_pos hccs, recvRecord_eval_ccs hok hlen hccs]
        rfl
      · have hread := @recvRecord_eval σ answer st _ cap (stream.drop (5 + fragLen stream))
          (Rec.first_fits hok hlen hccs)
        have hbytes : (splice mem 0 (stream.take (5 + fragLen stream))).take (fragLen stream + 5) =
            stream.take (5 + fragLen stream) := by
          have htake := splice_take mem (stream.take (5 + fragLen stream))
          rw [List.length_take_of_le hlen, Nat.add_comm 5] at htake
          rw [Nat.add_comm 5]
          exact htake
        have hall : (Rec.first stream).bytes ++ stream.drop (5 + fragLen stream) = stream :=
          List.take_append_drop _ _
        rw [hall] at hread
        rw [if_neg hccs, hread, RecordRead.record]
        dsimp only
        rw [hbytes]
        rfl
  · rw [if_neg hok, if_neg hok, recvRecord_eval_refused hhdr hok]
    rfl

/-- So is a record that is read from a transport. -/
theorem recvRecord_received (hx : T.Delivers answer x t) (cap recLen : Nat) (rtype : UInt8)
    (mem : Bytes) :
    ∃ x', (recvRecord cap).eval T.handler x =
        some ((received cap t.bytes rtype recLen mem).record, x') ∧
      T.Delivers answer x' { t with bytes := t.bytes.drop (recordSpan cap t.bytes) } :=
  Proc.eval_matches (@Transport.delivers_feeds σ τ T answer).matches hx
    (recvRecord_tape_received cap recLen rtype mem)

end Delivered

/-! ### Two transports -/

section Two

variable {σ τ ρ : Type}

/-- A program has one outcome on both transports, sends the same to both and leaves the same
of the stream. -/
def SameFor {α : Type} (T : Transport τ) (T' : Transport ρ) (answer : σ → Bytes → Int × σ) (x : τ)
    (x' : ρ) (p : Proc Ev α) : Prop :=
  SameRun (fun y y' => ∃ t, T.Delivers answer y t ∧ T'.Delivers answer y' t)
    (p.exec T.handler x) (p.exec T'.handler x')

/-- Two transports that deliver one stream in whatever pieces: the read loop ends on both with
the same bytes, `wn_RecvRecord` leaves the same on both and takes the span of the record, also
as the callers of the model see it, who get the record and not the memory, and the
reassembly, `wn_Recv` and the four handshakes have the same outcome. -/
theorem chunks_agree (P : Platform) (X : X509Backend) {T : Transport τ} {T' : Transport ρ}
    {answer : σ → Bytes → Int × σ} {x : τ} {x' : ρ} {t : Tape σ} (h : T.Delivers answer x t)
    (h' : T'.Delivers answer x' t) :
    (∀ fuel n off mem, n < fuel → off + n ≤ mem.length → ∃ ret stored y y',
      ioRecvExactInto T fuel mem off n x = some (ret, stored, y) ∧
        ioRecvExactInto T' fuel mem off n x' = some (ret, stored, y')) ∧
    (∀ fuel cap rtype recLen mem, 5 ≤ mem.length → cap ≤ mem.length → maxPlaintext + 256 < fuel →
      ∃ y y', recvRecordInto T fuel cap rtype recLen mem x =
          some (received cap t.bytes rtype recLen mem, y) ∧
        recvRecordInto T' fuel cap rtype recLen mem x' =
          some (received cap t.bytes rtype recLen mem, y') ∧
        T.Delivers answer y { t with bytes := t.bytes.drop (recordSpan cap t.bytes) } ∧
        T'.Delivers answer y' { t with bytes := t.bytes.drop (recordSpan cap t.bytes) }) ∧
    (∀ cap rtype recLen mem, ∃ y y',
      (recvRecord cap).eval T.handler x =
          some ((received cap t.bytes rtype recLen mem).record, y) ∧
        (recvRecord cap).eval T'.handler x' =
          some ((received cap t.bytes rtype recLen mem).record, y') ∧
        T.Delivers answer y { t with bytes := t.bytes.drop (recordSpan cap t.bytes) } ∧
        T'.Delivers answer y' { t with bytes := t.bytes.drop (recordSpan cap t.bytes) }) ∧
    (∀ fuel accCap tmpCap acc,
      SameFor T T' answer x x' (recvHandshake accCap tmpCap fuel acc).run) ∧
    (∀ fuel s out outCap outLen,
      SameFor T T' answer x x' (wnRecv P fuel s out outCap outLen)) ∧
    (∀ fuel rng args sess, SameFor T T' answer x x' (connectPskEx P fuel rng args sess)) ∧
    (∀ fuel rng args sess, SameFor T T' answer x x' (connectCertImpl P X fuel rng args sess)) ∧
    (∀ fuel rng args sess, SameFor T T' answer x x' (acceptPskEx P fuel rng args sess)) ∧
    ∀ fuel rng args sess, SameFor T T' answer x x' (acceptCertEx P fuel rng args sess) := by
  have hrun : ∀ {α : Type} (p : Proc Ev α), SameFor T T' answer x x' p := fun p =>
    Transport.exec_delivers h h' p
  refine ⟨?_, ?_, ?_, fun _ _ _ _ => hrun _, fun _ _ _ _ _ => hrun _, fun _ _ _ _ => hrun _,
    fun _ _ _ _ => hrun _, fun _ _ _ _ => hrun _, fun _ _ _ _ => hrun _⟩
  · intro fuel n off mem hfuel hmem
    have ⟨y, hread, _⟩ := ioRecvExactInto_eq h hfuel hmem
    have ⟨y', hread', _⟩ := ioRecvExactInto_eq h' hfuel hmem
    exact ⟨_, _, y, y', hread, hread'⟩
  · intro fuel cap rtype recLen mem hheader hcap hfuel
    have ⟨y, hrecord, hy⟩ := @recvRecordInto_eq σ τ T answer x t h fuel cap recLen rtype mem
      hheader hcap hfuel
    have ⟨y', hrecord', hy'⟩ := @recvRecordInto_eq σ ρ T' answer x' t h' fuel cap recLen rtype mem
      hheader hcap hfuel
    exact ⟨y, y', hrecord, hrecord', hy, hy'⟩
  · intro cap rtype recLen mem
    have ⟨y, hrecord, hy⟩ := recvRecord_received h cap recLen rtype mem
    have ⟨y', hrecord', hy'⟩ := recvRecord_received h' cap recLen rtype mem
    exact ⟨y, y', hrecord, hrecord', hy, hy'⟩

/-- A ServerHello fragment of three bytes, byte by byte and all at once. -/
theorem chunks_agree_record : ∃ y y',
    recvRecordInto (Transport.pieces fun _ => 1) 20000 64 0 0 (zeros 64)
        ([22, 3, 3, 0, 3, 2, 0, 0, 9], 0) =
      some (received 64 [22, 3, 3, 0, 3, 2, 0, 0, 9] 0 0 (zeros 64), y) ∧
    recvRecordInto (Transport.pieces fun _ => 100) 20000 64 0 0 (zeros 64)
        ([22, 3, 3, 0, 3, 2, 0, 0, 9], 0) =
      some (received 64 [22, 3, 3, 0, 3, 2, 0, 0, 9] 0 0 (zeros 64), y') := by
  have ⟨y, y', h, h', _⟩ := (chunks_agree Sample.platform
    ⟨fun _ _ _ _ _ _ => .error .badCert, fun _ _ => false⟩
    (Transport.pieces_delivers (fun _ => 1) [22, 3, 3, 0, 3, 2, 0, 0, 9] 0)
    (Transport.pieces_delivers (fun _ => 100) [22, 3, 3, 0, 3, 2, 0, 0, 9] 0)).2.1
      20000 64 0 0 (zeros 64) (by decide) (by decide) (by decide)
  exact ⟨y, y', h, h'⟩

end Two

end WolfNano
