/-
Reassembly of the first message, `wn_RecvHandshake`: on any stream of bytes, what
the loop takes from it and what it returns.
-/
import WolfNano.Quiet
import WolfNano.Streams
import WolfNano.Duplex.Place

namespace WolfNano

open Duplex

/-! ### One record -/

/-- The fragment length a header announces. -/
def fragLen (stream : Bytes) : Nat := ofBE (slice stream 3 2)

/-- The header of a record is accepted into a buffer of `cap` bytes. -/
def HeaderOk (cap : Nat) (stream : Bytes) : Prop :=
  fragLen stream ≠ 0 ∧ fragLen stream + 5 ≤ cap ∧ fragLen stream ≤ maxPlaintext + 256

/-- A ChangeCipherSpec that is not one byte of value one. -/
def BadCcs (stream : Bytes) : Prop :=
  stream.getD 0 0 = recChangeCipher ∧ (fragLen stream ≠ 1 ∨ stream.getD 5 0 ≠ 1)

/-- The record at the start of a stream. -/
def Rec.first (stream : Bytes) : Rec := ⟨stream.getD 0 0, stream.take (5 + fragLen stream)⟩

section Tape

variable {σ : Type} {answer : σ → Bytes → Int × σ} {st : σ} {cap : Nat} {stream : Bytes}

/-- Past the header, what is left of reading a record. -/
theorem recvRecord_eval_header (hhdr : 5 ≤ stream.length) :
    (recvRecord cap).eval (Tape.handler answer) ⟨stream, st⟩ =
      Prog.eval (Tape.handler answer) (do
        Prog.failIf (fragLen stream = 0 ∨ fragLen stream + 5 > cap ∨
          fragLen stream > maxPlaintext + 256) .crypto
        let body ← ioRecvExact (fragLen stream)
        Prog.failIf (stream.getD 0 0 = recChangeCipher ∧
          (fragLen stream ≠ 1 ∨ body.getD 0 0 ≠ 1)) .decode
        pure (⟨stream.getD 0 0, stream.take 5 ++ body⟩ : Rec)) ⟨stream.drop 5, st⟩ := by
  have hread := @ioRecvExact_eval σ answer st (stream.take 5) (stream.drop 5)
  rw [List.take_append_drop, List.length_take_of_le hhdr] at hread
  have hfrag : ofBE ((stream.take 5).drop 3) = fragLen stream := by
    rw [List.drop_take]
    rfl
  have htype : (stream.take 5).getD 0 0 = stream.getD 0 0 := by simp
  rw [recvRecord, Prog.eval_bind_of_ok hread]
  simp only [hfrag, htype]

theorem recvRecord_eval_refused (hhdr : 5 ≤ stream.length) (hno : ¬ HeaderOk cap stream) :
    (recvRecord cap).eval (Tape.handler answer) ⟨stream, st⟩
      = some (.error .crypto, ⟨stream.drop 5, st⟩) := by
  rw [recvRecord_eval_header hhdr]
  apply Prog.eval_bind_of_error
  apply Prog.eval_failIf_pos
  by_contra hnot
  rw [not_or, not_or] at hnot
  exact hno ⟨hnot.1, Nat.not_lt.1 hnot.2.1, Nat.not_lt.1 hnot.2.2⟩

theorem HeaderOk.passes (h : HeaderOk cap stream) :
    ¬ (fragLen stream = 0 ∨ fragLen stream + 5 > cap ∨ fragLen stream > maxPlaintext + 256) := by
  obtain ⟨hzero, hcap, hmax⟩ := h
  omega

theorem recvRecord_eval_cut (hhdr : 5 ≤ stream.length) (hok : HeaderOk cap stream)
    (hcut : stream.length < 5 + fragLen stream) :
    (recvRecord cap).eval (Tape.handler answer) ⟨stream, st⟩
      = some (.error .crypto, ⟨[], st⟩) := by
  have hshort : (stream.drop 5).length < fragLen stream := by
    rw [List.length_drop]
    omega
  rw [recvRecord_eval_header hhdr, Prog.eval_bind_of_ok (Prog.eval_failIf_neg hok.passes)]
  exact Prog.eval_bind_of_error (ioRecvExact_eval_short hshort)

theorem recvRecord_eval_ccs (hok : HeaderOk cap stream) (hlen : 5 + fragLen stream ≤ stream.length)
    (hccs : BadCcs stream) :
    (recvRecord cap).eval (Tape.handler answer) ⟨stream, st⟩
      = some (.error .decode, ⟨stream.drop (5 + fragLen stream), st⟩) := by
  have hcount : ((stream.drop 5).take (fragLen stream)).length = fragLen stream := by
    rw [List.length_take, List.length_drop]
    omega
  have hbody := @ioRecvExact_eval σ answer st ((stream.drop 5).take (fragLen stream))
    ((stream.drop 5).drop (fragLen stream))
  rw [List.take_append_drop, hcount, List.drop_drop] at hbody
  have hfirst : ((stream.drop 5).take (fragLen stream)).getD 0 0 = stream.getD 5 0 := by
    rw [List.getD_eq_getElem?_getD, List.getElem?_take, if_pos (Nat.pos_of_ne_zero hok.1),
      List.getElem?_drop, ← List.getD_eq_getElem?_getD]
  rw [recvRecord_eval_header (by omega), Prog.eval_bind_of_ok (Prog.eval_failIf_neg hok.passes),
    Prog.eval_bind_of_ok hbody]
  apply Prog.eval_bind_of_error
  apply Prog.eval_failIf_pos
  rw [hfirst]
  exact hccs

/-- What is left is a record that fits. -/
theorem Rec.first_fits (hok : HeaderOk cap stream) (hlen : 5 + fragLen stream ≤ stream.length)
    (hccs : ¬ BadCcs stream) : (Rec.first stream).Fits cap := by
  obtain ⟨hzero, hcap, hmax⟩ := hok
  have htake : (stream.take (5 + fragLen stream)).length = 5 + fragLen stream :=
    List.length_take_of_le hlen
  have hslice : slice (stream.take (5 + fragLen stream)) 3 2 = slice stream 3 2 := by
    simp only [slice, List.drop_take, List.take_take]
    rw [Nat.min_eq_left (by omega)]
  have hgetD : ∀ i, i < 6 → (stream.take (5 + fragLen stream)).getD i 0 = stream.getD i 0 := by
    intro i hi
    rw [List.getD_eq_getElem?_getD, List.getElem?_take, if_pos (by omega),
      ← List.getD_eq_getElem?_getD]
  refine ⟨(hgetD 0 (by decide)).symm, ?_, ?_, ?_, ?_, fun htype => ?_⟩
  · exact htake.trans (congrArg (5 + ofBE ·) hslice.symm)
  · exact htake ▸ Nat.lt_add_of_pos_right (Nat.pos_of_ne_zero hzero)
  · exact htake ▸ Nat.add_comm _ 5 ▸ hcap
  · exact htake ▸ Nat.add_le_add_left hmax 5
  · have hgood := not_and.1 hccs htype
    rw [not_or, not_not, not_not] at hgood
    exact ⟨htake.trans (congrArg (5 + ·) hgood.1), (hgetD 5 (by decide)).trans hgood.2⟩

/-- Reading a record from any stream: a record that fits, or an error. -/
theorem recvRecord_tape (cap : Nat) (stream : Bytes) :
    (∃ (r : Rec) (rest : Bytes), r.Fits cap ∧ stream = r.bytes ++ rest) ∨
      ∃ (e : Err) (rest : Bytes), (recvRecord cap).eval (Tape.handler answer) ⟨stream, st⟩
        = some (.error e, ⟨rest, st⟩) := by
  by_cases hhdr : stream.length < 5
  · refine .inr ⟨.crypto, [], ?_⟩
    rw [recvRecord]
    exact Prog.eval_bind_of_error (ioRecvExact_eval_short hhdr)
  have hhdr := Nat.not_lt.1 hhdr
  by_cases hok : HeaderOk cap stream
  · by_cases hcut : stream.length < 5 + fragLen stream
    · exact .inr ⟨_, _, recvRecord_eval_cut hhdr hok hcut⟩
    · have hlen := Nat.not_lt.1 hcut
      by_cases hccs : BadCcs stream
      · exact .inr ⟨_, _, recvRecord_eval_ccs hok hlen hccs⟩
      · exact .inl ⟨.first stream, stream.drop (5 + fragLen stream), Rec.first_fits hok hlen hccs,
          (List.take_append_drop _ _).symm⟩
  · exact .inr ⟨_, _, recvRecord_eval_refused hhdr hok⟩

end Tape

/-! ### What the loop does with a record -/

/-- A record is added to the accumulator: it is refused, more is needed, or the message
is whole. -/
def addRecord (accCap : Nat) (acc : Bytes) (r : Rec) : Except Err (Bytes ⊕ Bytes) :=
  if r.isCcs then .ok (.inl acc)
  else if r.rtype ≠ recHandshake ∨ r.bytes.length ≤ recordHeaderSz then .error .unexpectedMsg
  else if r.fragment.length > accCap - acc.length then .error .decode
  else if (acc ++ r.fragment).length < 4 then .ok (.inl (acc ++ r.fragment))
  else if 4 + hsMsgLen (acc ++ r.fragment) 0 > accCap then .error .decode
  else if (acc ++ r.fragment).length < 4 + hsMsgLen (acc ++ r.fragment) 0 then
    .ok (.inl (acc ++ r.fragment))
  else if (acc ++ r.fragment).length ≠ 4 + hsMsgLen (acc ++ r.fragment) 0 then .error .decode
  else .ok (.inr (acc ++ r.fragment))

section Loop

variable {σ : Type} {answer : σ → Bytes → Int × σ} {io : σ} {accCap tmpCap : Nat}

/-- One round of the loop on a record that fits. -/
theorem recvHandshake_round {fuel : Nat} {acc rest : Bytes} {r : Rec} (hfits : r.Fits tmpCap) :
    (recvHandshake accCap tmpCap (fuel + 1) acc).eval (Tape.handler answer) ⟨r.bytes ++ rest, io⟩ =
      match addRecord accCap acc r with
      | .error e => some (.error e, ⟨rest, io⟩)
      | .ok (.inl acc') =>
          (recvHandshake accCap tmpCap fuel acc').eval (Tape.handler answer) ⟨rest, io⟩
      | .ok (.inr msg) => some (.ok msg, ⟨rest, io⟩) := by
  rw [recvHandshake, Prog.eval_bind_of_ok (recvRecord_eval hfits), addRecord]
  by_cases hccs : r.isCcs = true
  · rw [if_pos hccs, if_pos hccs]
  rw [if_neg hccs, if_neg hccs]
  by_cases htype : r.rtype ≠ recHandshake ∨ r.bytes.length ≤ recordHeaderSz
  · rw [if_pos htype]
    exact Prog.eval_bind_of_error (Prog.eval_failIf_pos htype)
  rw [if_neg htype, Prog.eval_bind_of_ok (Prog.eval_failIf_neg htype)]
  by_cases hbig : r.fragment.length > accCap - acc.length
  · rw [if_pos hbig]
    exact Prog.eval_bind_of_error (Prog.eval_failIf_pos hbig)
  rw [if_neg hbig, Prog.eval_bind_of_ok (Prog.eval_failIf_neg hbig),
    Prog.eval_bind_of_ok Prog.eval_note]
  by_cases hhdr : (acc ++ r.fragment).length < 4
  · rw [if_pos hhdr, if_pos hhdr]
  rw [if_neg hhdr, if_neg hhdr]
  by_cases hlong : 4 + hsMsgLen (acc ++ r.fragment) 0 > accCap
  · rw [if_pos hlong]
    exact Prog.eval_bind_of_error (Prog.eval_failIf_pos hlong)
  rw [if_neg hlong, Prog.eval_bind_of_ok (Prog.eval_failIf_neg hlong)]
  by_cases hshort : (acc ++ r.fragment).length < 4 + hsMsgLen (acc ++ r.fragment) 0
  · rw [if_pos hshort, if_pos hshort]
  rw [if_neg hshort, if_neg hshort]
  by_cases hmore : (acc ++ r.fragment).length ≠ 4 + hsMsgLen (acc ++ r.fragment) 0
  · rw [if_pos hmore]
    exact Prog.eval_bind_of_error (Prog.eval_failIf_pos hmore)
  rw [if_neg hmore, Prog.eval_bind_of_ok (Prog.eval_failIf_neg hmore)]
  rfl

/-- The records that make up a message, from what is already there. -/
inductive Assembles (accCap tmpCap : Nat) : Bytes → List Rec → Bytes → Prop
  | more {acc acc' msg : Bytes} {r : Rec} {recs : List Rec} (hfits : r.Fits tmpCap)
      (hadd : addRecord accCap acc r = .ok (.inl acc'))
      (hrest : Assembles accCap tmpCap acc' recs msg) :
      Assembles accCap tmpCap acc (r :: recs) msg
  | last {acc msg : Bytes} {r : Rec} (hfits : r.Fits tmpCap)
      (hadd : addRecord accCap acc r = .ok (.inr msg)) : Assembles accCap tmpCap acc [r] msg

/-- The loop succeeds with the records that make up the message. -/
theorem recvHandshake_of_assembles {acc msg rest : Bytes} {recs : List Rec}
    (h : Assembles accCap tmpCap acc recs msg) :
    ∀ {fuel : Nat}, recs.length ≤ fuel →
      (recvHandshake accCap tmpCap fuel acc).eval (Tape.handler answer)
        ⟨recs.flatMap Rec.bytes ++ rest, io⟩ = some (.ok msg, ⟨rest, io⟩) := by
  induction h with
  | more hfits hadd hrest ih =>
      intro fuel hfuel
      obtain ⟨fuel, rfl⟩ := Nat.exists_eq_add_of_le' (Nat.le_of_add_left_le hfuel)
      rw [List.flatMap_cons, List.append_assoc, recvHandshake_round hfits, hadd]
      exact ih (Nat.le_of_succ_le_succ hfuel)
  | last hfits hadd =>
      intro fuel hfuel
      obtain ⟨fuel, rfl⟩ : ∃ n, fuel = n + 1 := Nat.exists_eq_add_of_le' hfuel
      rw [List.flatMap_cons, List.append_assoc, recvHandshake_round hfits, hadd]
      rfl

/-- A round that finds no record that fits fails. -/
theorem recvHandshake_fails {fuel : Nat} {acc stream rest : Bytes} {e : Err}
    (h : (recvRecord tmpCap).eval (Tape.handler answer) ⟨stream, io⟩
      = some (.error e, ⟨rest, io⟩)) :
    (recvHandshake accCap tmpCap (fuel + 1) acc).eval (Tape.handler answer) ⟨stream, io⟩
      = some (.error e, ⟨rest, io⟩) := by
  rw [recvHandshake]
  exact Prog.eval_bind_of_error h

/-- A loop that succeeds took records that make up its message. -/
theorem assembles_of_recvHandshake {fuel : Nat} {acc stream msg rest : Bytes} {io' : σ}
    (h : (recvHandshake accCap tmpCap fuel acc).eval (Tape.handler answer) ⟨stream, io⟩
      = some (.ok msg, ⟨rest, io'⟩)) :
    ∃ recs, stream = recs.flatMap Rec.bytes ++ rest ∧ Assembles accCap tmpCap acc recs msg := by
  induction fuel generalizing acc stream with
  | zero => cases h
  | succ fuel ih =>
      rcases @recvRecord_tape _ answer io tmpCap stream with ⟨r, stream', hfits, rfl⟩ |
        ⟨e, rest', hfail⟩
      · rw [recvHandshake_round hfits] at h
        cases hadd : addRecord accCap acc r with
        | error e =>
            rw [hadd] at h
            cases h
        | ok x =>
            rw [hadd] at h
            cases x with
            | inl acc' =>
                obtain ⟨recs, rfl, hrest⟩ := ih h
                refine ⟨r :: recs, ?_, .more hfits hadd hrest⟩
                rw [List.flatMap_cons, List.append_assoc]
            | inr msg' =>
                cases h
                refine ⟨[r], ?_, .last hfits hadd⟩
                rw [List.flatMap_cons, List.flatMap_nil, List.append_nil]
      · rw [recvHandshake_fails hfail] at h
        cases h

/-- With enough rounds for the stream the loop comes to an end. -/
theorem recvHandshake_returns {fuel : Nat} {acc stream : Bytes} (hfuel : stream.length < fuel) :
    ∃ x rest, (recvHandshake accCap tmpCap fuel acc).eval (Tape.handler answer) ⟨stream, io⟩
      = some (x, ⟨rest, io⟩) := by
  induction fuel generalizing acc stream with
  | zero => exact absurd hfuel (Nat.not_lt_zero _)
  | succ fuel ih =>
      rcases @recvRecord_tape _ answer io tmpCap stream with ⟨r, stream', hfits, rfl⟩ |
        ⟨e, rest', hfail⟩
      · rw [recvHandshake_round hfits]
        have hpos := hfits.nonempty
        rw [List.length_append] at hfuel
        cases hadd : addRecord accCap acc r with
        | error e => exact ⟨_, _, rfl⟩
        | ok x =>
            cases x with
            | inl acc' => exact ih (by omega)
            | inr msg => exact ⟨_, _, rfl⟩
      · exact ⟨_, _, recvHandshake_fails hfail⟩

end Loop

/-! ### The message and its records -/

/-- A header whose length field covers the rest of the record. -/
def Rec.Framed (r : Rec) : Prop :=
  r.rtype = r.bytes.getD 0 0 ∧ r.bytes.length = 5 + ofBE (slice r.bytes 3 2)

/-- A handshake record or a valid ChangeCipherSpec, in a buffer of `tmpCap` bytes. -/
def Rec.Carries (tmpCap : Nat) (r : Rec) : Prop :=
  r.Framed ∧ r.bytes.length ≤ tmpCap ∧
    (r.rtype = recChangeCipher ∧ r.fragment = [1] ∨ r.rtype = recHandshake)

/-- A fragment of a size the record layer has. -/
def Rec.Sized (r : Rec) : Prop :=
  r.fragment ≠ [] ∧ r.fragment.length ≤ maxPlaintext + 256

/-- The handshake bytes of records, those of a ChangeCipherSpec left out. -/
def hsBytes (recs : List Rec) : Bytes := (recs.filter fun r => !r.isCcs).flatMap Rec.fragment

/-- The records are one message, cut in some way: they are all needed for it, and it fills
them. -/
structure OneMessage (rec? : Rec → Prop) (accCap : Nat) (recs : List Rec) (msg : Bytes) : Prop where
  carries : ∀ r ∈ recs, rec? r
  content : hsBytes recs = msg
  length_eq : msg.length = 4 + hsMsgLen msg 0
  le_cap : msg.length ≤ accCap
  needed : ∀ pre suf, recs = pre ++ suf → suf ≠ [] → (hsBytes pre).length < msg.length

section Message

variable {accCap tmpCap : Nat}

theorem Rec.fragment_length (r : Rec) : r.fragment.length = r.bytes.length - 5 :=
  List.length_drop

/-- The records `wn_RecvRecord` accepts, said of their parts. -/
theorem Rec.fits_iff {r : Rec} :
    r.Fits tmpCap ∧ (r.isCcs = true ∨ r.rtype = recHandshake) ↔ r.Carries tmpCap ∧ r.Sized := by
  have hlen := r.fragment_length
  have hccs : r.isCcs = true ↔ r.rtype = recChangeCipher := beq_iff_eq
  have hone : r.bytes.length = 6 → r.fragment = [r.bytes.getD 5 0] := by
    intro hsix
    rw [← slice_one (show 5 < r.bytes.length by omega), slice, List.take_of_length_le]
    · rfl
    · rw [List.length_drop]
      omega
  constructor
  · rintro ⟨hfits, hkind⟩
    have hpos := hfits.nonempty
    have hmax := hfits.le_max
    refine ⟨⟨⟨hfits.type_eq, hfits.length_eq⟩, hfits.le_cap, ?_⟩, ?_, by omega⟩
    · rcases hkind with hkind | hkind
      · obtain ⟨hsix, hvalue⟩ := hfits.ccs (hccs.1 hkind)
        rw [hone hsix, hvalue]
        exact .inl ⟨hccs.1 hkind, rfl⟩
      · exact .inr hkind
    · apply List.ne_nil_of_length_pos
      omega
  · rintro ⟨⟨⟨htype, hframe⟩, hcap, hkind⟩, hne, hmax⟩
    have hpos := List.length_pos_of_ne_nil hne
    have hle : r.bytes.length ≤ 5 + r.fragment.length := by omega
    refine ⟨⟨htype, hframe, by omega, hcap, Nat.le_trans hle (Nat.add_le_add_left hmax 5),
      fun h => ?_⟩, ?_⟩
    · rcases hkind with ⟨-, hfrag⟩ | hhs
      · rw [hfrag] at hlen
        have hsix : r.bytes.length = 6 := by
          rw [List.length_singleton] at hlen
          omega
        rw [hone hsix] at hfrag
        exact ⟨hsix, List.singleton_inj.1 hfrag⟩
      · rw [h] at hhs
        exact absurd hhs (by decide)
    · exact hkind.imp (fun h => hccs.2 h.1) id

theorem hsBytes_ccs {r : Rec} {recs : List Rec} (h : r.isCcs = true) :
    hsBytes (r :: recs) = hsBytes recs := by
  rw [hsBytes, List.filter_cons_of_neg (by rw [h]; decide)]
  rfl

theorem hsBytes_hs {r : Rec} {recs : List Rec} (h : r.isCcs = false) :
    hsBytes (r :: recs) = r.fragment ++ hsBytes recs := by
  rw [hsBytes, List.filter_cons_of_pos (by rw [h]; rfl), List.flatMap_cons]
  rfl

/-- The length field does not change once it is there. -/
theorem hsMsgLen_append {acc more : Bytes} (h : 4 ≤ acc.length) :
    hsMsgLen (acc ++ more) 0 = hsMsgLen acc 0 := by
  rw [hsMsgLen, hsMsgLen, slice, slice, List.drop_append_of_le_length (by omega),
    List.take_append_of_le_length]
  rw [List.length_drop]
  omega

section Add

variable {acc acc' msg : Bytes} {r : Rec}

theorem addRecord_ccs (h : r.isCcs = true) : addRecord accCap acc r = .ok (.inl acc) := by
  rw [addRecord, if_pos h]

theorem addRecord_kind {x : Bytes ⊕ Bytes} (h : addRecord accCap acc r = .ok x) :
    r.isCcs = true ∨ r.rtype = recHandshake := by
  by_contra hnot
  rw [not_or] at hnot
  rw [addRecord, if_neg hnot.1, if_pos (.inl hnot.2)] at h
  cases h

/-- A handshake record that fits is measured against the accumulator. -/
theorem addRecord_hs (hfits : r.Fits tmpCap) (hhs : r.rtype = recHandshake) :
    addRecord accCap acc r =
      if (acc ++ r.fragment).length > accCap then .error .decode
      else if (acc ++ r.fragment).length < 4 then .ok (.inl (acc ++ r.fragment))
      else if 4 + hsMsgLen (acc ++ r.fragment) 0 > accCap then .error .decode
      else if (acc ++ r.fragment).length < 4 + hsMsgLen (acc ++ r.fragment) 0 then
        .ok (.inl (acc ++ r.fragment))
      else if (acc ++ r.fragment).length ≠ 4 + hsMsgLen (acc ++ r.fragment) 0 then .error .decode
      else .ok (.inr (acc ++ r.fragment)) := by
  have hpos := hfits.nonempty
  have hlen := r.fragment_length
  have hccs : ¬ r.isCcs = true := by
    rw [Rec.isCcs, hhs]
    decide
  have htype : ¬ (r.rtype ≠ recHandshake ∨ r.bytes.length ≤ recordHeaderSz) := by
    rw [not_or, not_not]
    exact ⟨hhs, Nat.not_le.2 hpos⟩
  have hroom : r.fragment.length > accCap - acc.length ↔ (acc ++ r.fragment).length > accCap := by
    rw [List.length_append]
    omega
  rw [addRecord, if_neg hccs, if_neg htype]
  exact if_congr hroom rfl rfl

/-- A message that ends with this record. -/
theorem addRecord_whole (hfits : r.Fits tmpCap) (hhs : r.rtype = recHandshake) :
    addRecord accCap acc r = .ok (.inr msg) ↔
      acc ++ r.fragment = msg ∧ msg.length = 4 + hsMsgLen msg 0 ∧ msg.length ≤ accCap := by
  rw [addRecord_hs hfits hhs]
  constructor
  · intro h
    split_ifs at h with hbig hhdr hlong hshort hmore
    · cases h
    · cases h
    · cases h
      exact ⟨rfl, not_not.1 hmore, Nat.not_lt.1 hbig⟩
  · rintro ⟨rfl, hlen, hcap⟩
    rw [if_neg (by omega), if_neg (by omega), if_neg (by omega), if_neg (by omega),
      if_neg (not_not.2 hlen)]

/-- A record after which more is needed. -/
theorem addRecord_part (hfits : r.Fits tmpCap) (hhs : r.rtype = recHandshake)
    (h : addRecord accCap acc r = .ok (.inl acc')) : acc' = acc ++ r.fragment := by
  rw [addRecord_hs hfits hhs] at h
  split_ifs at h
  · cases h
    rfl
  · cases h
    rfl
  · cases h

/-- A part of a message that fits is kept. -/
theorem addRecord_of_part {more : Bytes} (hfits : r.Fits tmpCap) (hhs : r.rtype = recHandshake)
    (hmsg : acc ++ r.fragment ++ more = msg) (hlt : (acc ++ r.fragment).length < msg.length)
    (hlen : msg.length = 4 + hsMsgLen msg 0) (hcap : msg.length ≤ accCap) :
    addRecord accCap acc r = .ok (.inl (acc ++ r.fragment)) := by
  rw [addRecord_hs hfits hhs, if_neg (by omega)]
  by_cases hhdr : (acc ++ r.fragment).length < 4
  · rw [if_pos hhdr]
  · have hfield : hsMsgLen (acc ++ r.fragment) 0 = hsMsgLen msg 0 := by
      rw [← hmsg]
      exact (hsMsgLen_append (Nat.not_lt.1 hhdr)).symm
    rw [if_neg hhdr, if_neg (by omega), if_pos (by omega)]

end Add

/-- Records that make up a message, from nothing or from a part of it. -/
structure Completes (accCap tmpCap : Nat) (acc : Bytes) (recs : List Rec) (msg : Bytes) : Prop where
  carries : ∀ r ∈ recs, r.Fits tmpCap ∧ (r.isCcs = true ∨ r.rtype = recHandshake)
  content : acc ++ hsBytes recs = msg
  length_eq : msg.length = 4 + hsMsgLen msg 0
  le_cap : msg.length ≤ accCap
  needed : ∀ pre suf, recs = pre ++ suf → suf ≠ [] → (acc ++ hsBytes pre).length < msg.length

theorem hsBytes_nil : hsBytes [] = [] := rfl

theorem Assembles.completes {acc msg : Bytes} {recs : List Rec}
    (h : Assembles accCap tmpCap acc recs msg) :
    recs ≠ [] ∧ Completes accCap tmpCap acc recs msg := by
  induction h with
  | @last acc msg r hfits hadd =>
      have hkind := addRecord_kind hadd
      have hhs : r.rtype = recHandshake := by
        rcases hkind with hccs | hhs
        · rw [addRecord_ccs hccs] at hadd
          cases hadd
        · exact hhs
      have hccs : r.isCcs = false := by
        rw [Rec.isCcs, hhs]
        rfl
      obtain ⟨hmsg, hlen, hcap⟩ := (addRecord_whole hfits hhs).1 hadd
      refine ⟨List.cons_ne_nil _ _, ?_, ?_, hlen, hcap, ?_⟩
      · intro r' hr'
        rw [List.mem_singleton.1 hr']
        exact ⟨hfits, hkind⟩
      · rw [hsBytes_hs hccs, hsBytes_nil, List.append_nil]
        exact hmsg
      · intro pre suf hsplit hne
        have hpre : pre = [] := by
          cases pre with
          | nil => rfl
          | cons p pre =>
              have hnil := (List.cons.inj hsplit).2
              exact absurd (List.append_eq_nil_iff.1 hnil.symm).2 hne
        have hpos := hfits.nonempty
        have hfrag := r.fragment_length
        rw [hpre, hsBytes_nil, List.append_nil, ← hmsg, List.length_append]
        omega
  | @more acc acc' msg r recs hfits hadd hrest ih =>
      have hkind := addRecord_kind hadd
      obtain ⟨hne, hcarries, hcontent, hlen, hcap, hneeded⟩ := ih
      have hstep : acc ++ hsBytes [r] = acc' := by
        rcases hkind with hccs | hhs
        · rw [addRecord_ccs hccs] at hadd
          cases hadd
          rw [hsBytes_ccs hccs, hsBytes_nil, List.append_nil]
        · have hccs : r.isCcs = false := by
            rw [Rec.isCcs, hhs]
            rfl
          rw [addRecord_part hfits hhs hadd, hsBytes_hs hccs, hsBytes_nil, List.append_nil]
      have hsplit : ∀ recs, hsBytes (r :: recs) = hsBytes [r] ++ hsBytes recs := by
        intro recs
        rw [hsBytes, hsBytes, hsBytes, ← List.flatMap_append, ← List.filter_append]
        rfl
      refine ⟨List.cons_ne_nil _ _, ?_, ?_, hlen, hcap, ?_⟩
      · intro r' hr'
        rcases List.mem_cons.1 hr' with rfl | hr'
        · exact ⟨hfits, hkind⟩
        · exact hcarries r' hr'
      · rw [hsplit, ← List.append_assoc, hstep]
        exact hcontent
      · intro pre suf hpre hsuf
        cases pre with
        | nil =>
            have hlt := hneeded [] recs rfl hne
            rw [hsBytes_nil, List.append_nil] at hlt ⊢
            rw [← hstep, List.length_append] at hlt
            omega
        | cons p pre =>
            obtain ⟨rfl, hrecs⟩ := List.cons.inj hpre
            rw [hsplit, ← List.append_assoc, hstep]
            exact hneeded pre suf hrecs hsuf

theorem Completes.assembles {acc msg : Bytes} {recs : List Rec}
    (h : Completes accCap tmpCap acc recs msg) (hacc : acc.length < msg.length) :
    Assembles accCap tmpCap acc recs msg := by
  induction recs generalizing acc with
  | nil =>
      have hcontent := h.content
      rw [hsBytes_nil, List.append_nil] at hcontent
      rw [hcontent] at hacc
      exact absurd hacc (Nat.lt_irrefl _)
  | cons r recs ih =>
      obtain ⟨hcarries, hcontent, hlen, hcap, hneeded⟩ := h
      obtain ⟨hfits, hkind⟩ := hcarries r List.mem_cons_self
      have hrest := fun r' hr' => hcarries r' (List.mem_cons_of_mem _ hr')
      by_cases hccs : r.isCcs = true
      · rw [hsBytes_ccs hccs] at hcontent
        refine .more hfits (addRecord_ccs hccs) (ih ⟨hrest, hcontent, hlen, hcap, ?_⟩ hacc)
        intro pre suf hpre hsuf
        have hlt := hneeded (r :: pre) suf (by rw [hpre]; rfl) hsuf
        rwa [hsBytes_ccs hccs] at hlt
      · have hhs := hkind.resolve_left hccs
        rw [Bool.not_eq_true] at hccs
        rw [hsBytes_hs hccs, ← List.append_assoc] at hcontent
        by_cases hlast : recs = []
        · subst hlast
          rw [hsBytes_nil, List.append_nil] at hcontent
          exact .last hfits ((addRecord_whole hfits hhs).2 ⟨hcontent, hlen, hcap⟩)
        · have hlt := hneeded [r] recs rfl hlast
          rw [hsBytes_hs hccs, hsBytes_nil, List.append_nil] at hlt
          have hadd := addRecord_of_part hfits hhs hcontent hlt hlen hcap
          refine .more hfits hadd (ih ⟨hrest, hcontent, hlen, hcap, ?_⟩ hlt)
          intro pre suf hpre hsuf
          have hmore := hneeded (r :: pre) suf (by rw [hpre]; rfl) hsuf
          rwa [hsBytes_hs hccs, ← List.append_assoc] at hmore

/-- Whether all records are needed can be seen from the beginnings of the list. -/
theorem needed_of_take {recs : List Rec} {n : Nat}
    (h : ∀ k < recs.length, (hsBytes (recs.take k)).length < n) {pre suf : List Rec}
    (hsplit : recs = pre ++ suf) (hne : suf ≠ []) : (hsBytes pre).length < n := by
  have hpos := List.length_pos_of_ne_nil hne
  have hk := h pre.length (by rw [hsplit, List.length_append]; omega)
  rwa [hsplit, List.take_left] at hk

theorem oneMessage_iff {recs : List Rec} {msg : Bytes} :
    OneMessage (fun r => r.Carries tmpCap ∧ r.Sized) accCap recs msg ↔
      Assembles accCap tmpCap [] recs msg := by
  constructor
  · rintro ⟨hcarries, hcontent, hlen, hcap, hneeded⟩
    refine Completes.assembles ⟨fun r hr => Rec.fits_iff.2 (hcarries r hr), hcontent, hlen, hcap,
      hneeded⟩ ?_
    rw [hlen, List.length_nil]
    omega
  · intro h
    obtain ⟨-, hcarries, hcontent, hlen, hcap, hneeded⟩ := h.completes
    exact ⟨fun r hr => Rec.fits_iff.1 (hcarries r hr), hcontent, hlen, hcap, hneeded⟩

end Message

/-! ### Copies -/

/-- A copy stays inside its region. -/
def CopyInside (e : Ev) : Prop :=
  match e with
  | .copy cap off n => off + n ≤ cap
  | _ => True

/-- The loop writes inside the accumulator, however the transport behaves. -/
theorem recvHandshake_copies {accCap tmpCap fuel : Nat} {acc : Bytes} (hacc : acc.length ≤ accCap) :
    Prog.Notes CopyInside (recvHandshake accCap tmpCap fuel acc) :=
  recvHandshake_notes (fun _ _ h => h) hacc

/-! ### The whole function -/

/-- On every stream the function returns, and succeeds exactly with the records of one
message, which it takes from the stream and nothing more. -/
theorem recvHandshake_exact {σ : Type} (answer : σ → Bytes → Int × σ) (io : σ)
    (accCap tmpCap fuel : Nat) (stream : Bytes) (hfuel : stream.length < fuel) :
    (∃ x rest, (recvHandshake accCap tmpCap fuel []).eval (Tape.handler answer) ⟨stream, io⟩
        = some (x, ⟨rest, io⟩)) ∧
      (∀ msg rest, (recvHandshake accCap tmpCap fuel []).eval (Tape.handler answer) ⟨stream, io⟩
          = some (.ok msg, ⟨rest, io⟩) ↔
        ∃ recs, OneMessage (fun r => r.Carries tmpCap ∧ r.Sized) accCap recs msg ∧
          stream = recs.flatMap Rec.bytes ++ rest) ∧
      ∀ tr x, (recvHandshake accCap tmpCap fuel []).run.Runs tr x →
        ∀ e ∈ notes tr, CopyInside e := by
  refine ⟨recvHandshake_returns hfuel, fun msg rest => ?_, ?_⟩
  · constructor
    · intro h
      obtain ⟨recs, hstream, hrecs⟩ := assembles_of_recvHandshake h
      exact ⟨recs, oneMessage_iff.2 hrecs, hstream⟩
    · rintro ⟨recs, hmsg, rfl⟩
      have hrecs := oneMessage_iff.1 hmsg
      have hcount : recs.length ≤ (recs.flatMap Rec.bytes).length := by
        have hall := hmsg.carries
        clear hfuel hmsg hrecs
        induction recs with
        | nil => exact Nat.zero_le _
        | cons r recs ih =>
            have hrest := ih fun r' hr' => hall r' (List.mem_cons_of_mem _ hr')
            have hpos := (Rec.fits_iff.2 (hall r List.mem_cons_self)).1.nonempty
            rw [List.flatMap_cons, List.length_append, List.length_cons]
            omega
      rw [List.length_append] at hfuel
      exact recvHandshake_of_assembles hrecs (by omega)
  · intro tr x hrun
    exact hrun.notes (recvHandshake_copies (Nat.zero_le _))

namespace Sample

/-- A handshake record with this fragment. -/
def plainHsRecord (fragment : Bytes) : Rec :=
  ⟨recHandshake, plainHeader recHandshake fragment.length ++ fragment⟩

/-- A message cut inside its header, with a ChangeCipherSpec between the two parts. -/
def cutMessage : List Rec :=
  [plainHsRecord [1, 0], ⟨recChangeCipher, [20, 3, 3, 0, 1, 1]⟩, plainHsRecord [0, 1, 7]]

theorem recvHandshake_exact_sample :
    (recvHandshake 64 64 100 []).eval (Tape.handler fun (u : Unit) _ => (0, u))
      ⟨cutMessage.flatMap Rec.bytes ++ [9], ()⟩ = some (.ok [1, 0, 0, 1, 7], ⟨[9], ()⟩) := by
  obtain ⟨-, hexact, -⟩ := recvHandshake_exact (fun (u : Unit) _ => (0, u)) () 64 64 100
    (cutMessage.flatMap Rec.bytes ++ [9]) (by decide)
  have hneeded : ∀ k < cutMessage.length, (hsBytes (cutMessage.take k)).length < 5 := by decide
  refine (hexact [1, 0, 0, 1, 7] [9]).2
    ⟨cutMessage, ⟨?_, rfl, rfl, by decide, fun _ _ => needed_of_take hneeded⟩, rfl⟩
  intro r hr
  simp only [cutMessage, List.mem_cons, List.not_mem_nil, or_false] at hr
  rcases hr with rfl | rfl | rfl
  · exact ⟨⟨⟨rfl, rfl⟩, by decide, .inr rfl⟩, by decide, by decide⟩
  · exact ⟨⟨⟨rfl, rfl⟩, by decide, .inl ⟨rfl, rfl⟩⟩, by decide, by decide⟩
  · exact ⟨⟨⟨rfl, rfl⟩, by decide, .inr rfl⟩, by decide, by decide⟩

/-- A handshake record without a fragment, before a whole message. -/
def emptyFirst : List Rec := [plainHsRecord [], plainHsRecord [1, 0, 0, 0]]

/-- Cut in this way, with an empty part, the message is refused. -/
theorem empty_record_refused :
    OneMessage (Rec.Carries 64) 64 emptyFirst [1, 0, 0, 0] ∧
      (recvHandshake 64 64 100 []).eval (Tape.handler fun (u : Unit) _ => (0, u))
        ⟨emptyFirst.flatMap Rec.bytes, ()⟩
          = some (.error .crypto, ⟨(plainHsRecord [1, 0, 0, 0]).bytes, ()⟩) := by
  have hneeded : ∀ k < emptyFirst.length, (hsBytes (emptyFirst.take k)).length < 4 := by decide
  refine ⟨⟨?_, rfl, rfl, by decide, fun _ _ => needed_of_take hneeded⟩, rfl⟩
  intro r hr
  simp only [emptyFirst, List.mem_cons, List.not_mem_nil, or_false] at hr
  rcases hr with rfl | rfl
  · exact ⟨⟨rfl, rfl⟩, by decide, .inr rfl⟩
  · exact ⟨⟨rfl, rfl⟩, by decide, .inr rfl⟩

end Sample

end WolfNano
