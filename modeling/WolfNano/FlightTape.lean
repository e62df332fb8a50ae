/-
The encrypted flight on a tape: sealed handshake records with ChangeCipherSpec
records between them, and what the two clients make of the next one.
-/
import WolfNano.Flights

namespace WolfNano

open Duplex

/-- A protected handshake record with padding, from a provider that takes the key. -/
def sealHs (P : Platform) (key iv : Bytes) (seq : UInt64) (content : Bytes) (pad : Nat) :
    Option Bytes :=
  if P.aesInit && P.aesKey key then sealInner P key iv seq (hsInner content pad) else none

/-- A record of a flight. -/
inductive FlightRec where
  | ccs
  | hs (content : Bytes) (pad : Nat)
  deriving DecidableEq

/-- The handshake contents of a flight. -/
def flightContents (items : List FlightRec) : List Bytes :=
  items.filterMap fun
    | .ccs => none
    | .hs content _ => some content

/-- The flight on the wire: handshake records sealed one after the other, and valid
ChangeCipherSpec records, each of which fits the reader's buffer. -/
inductive SealedFlight (P : Platform) (key iv : Bytes) (cap : Nat) :
    UInt64 → List FlightRec → Bytes → Prop
  | nil {seq : UInt64} : SealedFlight P key iv cap seq [] []
  | ccs {seq : UInt64} {rec : Rec} {items : List FlightRec} {wire : Bytes}
      (hfits : rec.Fits cap) (hccs : rec.isCcs = true)
      (hrest : SealedFlight P key iv cap seq items wire) :
      SealedFlight P key iv cap seq (.ccs :: items) (rec.bytes ++ wire)
  | hs {seq : UInt64} {content rec wire : Bytes} {pad : Nat} {items : List FlightRec}
      (hmax : content.length + pad ≤ maxPlaintext)
      (hseal : sealHs P key iv seq content pad = some rec) (hcap : rec.length ≤ cap)
      (hrest : SealedFlight P key iv cap (seq + 1) items wire) :
      SealedFlight P key iv cap seq (.hs content pad :: items) (rec ++ wire)

section Tape

variable {P : Platform} {σ : Type} {answer : σ → Bytes → Int × σ} {keys : HsKeys}
  {content rec rest : Bytes} {pad fuel cap : Nat} {key iv : Bytes} {seq : UInt64} {io : σ}

theorem not_ccs_of_appdata (bytes : Bytes) : ¬ (⟨recAppdata, bytes⟩ : Rec).isCcs = true := by
  intro h
  have heq : recAppdata = recChangeCipher := beq_iff_eq.1 h
  exact absurd heq (by decide)

theorem sealHs_length (h : sealHs P key iv seq content pad = some rec) :
    rec.length = content.length + 1 + pad + 21 := by
  unfold sealHs at h
  split at h
  · rw [sealInner_length h, hsInner_length]
  · cases h

/-- A sealed handshake record that fits is read and opened. -/
theorem sealHs_eval (hopens : P.OpensSealed) (hmax : content.length + pad ≤ maxPlaintext)
    (hseal : sealHs P key iv seq content pad = some rec) (hcap : rec.length ≤ cap)
    (outCap : Nat) :
    (recvRecord cap).eval (Tape.handler answer) ⟨rec ++ rest, io⟩
        = some (.ok ⟨recAppdata, rec⟩, ⟨rest, io⟩) ∧
      (recordUnprotect P outCap key iv seq rec).eval (Tape.handler answer) ⟨rest, io⟩
        = some (.ok (recHandshake, content), ⟨rest, io⟩) := by
  have hlen := sealHs_length hseal
  unfold sealHs at hseal
  split at hseal
  · rename_i haes
    have hopen := sealInner_open hopens haes hseal
    refine ⟨recvRecord_eval (sealInner_fits hseal ?_ hcap), ?_⟩
    · rw [hsInner_length]
      omega
    · rw [recordUnprotect_eval (by omega), hopen, splitInner_hsInner]
  · cases hseal

/-- A program goes on after a record by its parser. -/
def afterRecord {α : Type} (answer : σ → Bytes → Int × σ) (next : α → Shell α)
    (t : Tape σ) : Except Err (α × Bool) → Option (Except Err α × Tape σ)
  | .error e => some (.error e, t)
  | .ok (st, true) => some (.ok st, t)
  | .ok (st, false) => (next st).eval (Tape.handler answer) t

theorem afterRecord_eq {α : Type} {x : Except Err (α × Bool)} {next : α → Shell α}
    {t : Tape σ} :
    (Prog.lift x >>= fun y : α × Bool => if y.2 then pure y.1 else next y.1 : Shell α).eval
        (Tape.handler answer) t = afterRecord answer next t x := by
  rw [Prog.eval_bind, Prog.eval_lift]
  rcases x with e | ⟨st, _ | _⟩
  · rfl
  · rfl
  · rfl

/-! ### The PSK client -/

theorem pskFlight_ccs {scratchLen : Nat} {st : PskFlight} {r : Rec}
    (hfits : r.Fits scratchLen) (hccs : r.isCcs = true) :
    (pskFlight P scratchLen keys (fuel + 1) st).eval (Tape.handler answer)
        ⟨r.bytes ++ rest, io⟩ =
      (pskFlight P scratchLen keys fuel st).eval (Tape.handler answer) ⟨rest, io⟩ := by
  rw [pskFlight, Prog.eval_bind_of_ok (recvRecord_eval hfits)]
  dsimp only
  rw [if_pos hccs]

theorem pskFlight_hs (hopens : P.OpensSealed) {scratchLen : Nat} {st : PskFlight}
    (hmax : content.length + pad ≤ maxPlaintext)
    (hseal : sealHs P keys.sKey keys.sIv st.sSeq content pad = some rec)
    (hcap : rec.length ≤ scratchLen) :
    (pskFlight P scratchLen keys (fuel + 1) st).eval (Tape.handler answer)
        ⟨rec ++ rest, io⟩ =
      if content.length + 1 + pad > pskPlainSz - st.acc.length then
        some (.error .decode, ⟨rest, io⟩)
      else
        afterRecord answer (pskFlight P scratchLen keys fuel) ⟨rest, io⟩
          (pskFlightMsgs P keys.sHs (st.acc ++ content).length
            { st with acc := st.acc ++ content, sSeq := st.sSeq + 1 }) := by
  have hlen := sealHs_length hseal
  obtain ⟨hread, hopen⟩ := @sealHs_eval P σ answer content rec rest pad scratchLen _ _ _ io
    hopens hmax hseal hcap (pskPlainSz - st.acc.length)
  have hinner : innerLen ⟨recAppdata, rec⟩ = content.length + 1 + pad := by
    simp only [innerLen, recordHeaderSz, recordTagSz]
    omega
  rw [pskFlight, Prog.eval_bind_of_ok hread]
  dsimp only
  rw [if_neg (not_ccs_of_appdata rec),
    Prog.eval_bind_of_ok (Prog.eval_failIf_neg (not_not.2 rfl))]
  by_cases hguard : content.length + 1 + pad > pskPlainSz - st.acc.length
  · rw [if_pos hguard]
    exact Prog.eval_bind_of_error (Prog.eval_failIf_pos (.inr (by rw [hinner]; exact hguard)))
  · rw [if_neg hguard, Prog.eval_bind_of_ok (Prog.eval_failIf_neg ?_),
      Prog.eval_bind_of_ok hopen]
    · dsimp only
      rw [Prog.eval_bind_of_ok (Prog.eval_failIf_neg (not_not.2 rfl))]
      exact afterRecord_eq
    · rintro (hshort | hbig)
      · simp only [recordHeaderSz, recordTagSz] at hshort
        omega
      · rw [hinner] at hbig
        exact hguard hbig

theorem pskFlight_end {scratchLen : Nat} {st : PskFlight} :
    (pskFlight P scratchLen keys (fuel + 1) st).eval (Tape.handler answer) ⟨[], io⟩ =
      some (.error .crypto, ⟨[], io⟩) := by
  rw [pskFlight]
  exact Prog.eval_bind_of_error recvRecord_eval_end

/-! ### The certificate client -/

section Cert

variable {X : X509Backend} {args : CertArgs} {st : CertFlight}

theorem certFlight_ccs {r : Rec} (hfits : r.Fits (args.ioCap P.build)) (hccs : r.isCcs = true) :
    (certFlight P X args keys (fuel + 1) st).eval (Tape.handler answer) ⟨r.bytes ++ rest, io⟩ =
      (certFlight P X args keys fuel st).eval (Tape.handler answer) ⟨rest, io⟩ := by
  rw [certFlight, Prog.eval_bind_of_ok (recvRecord_eval hfits)]
  dsimp only
  rw [if_pos hccs]

theorem certFlight_hs (hopens : P.OpensSealed) (hmax : content.length + pad ≤ maxPlaintext)
    (hseal : sealHs P keys.sKey keys.sIv st.sSeq content pad = some rec)
    (hcap : rec.length ≤ args.ioCap P.build) :
    (certFlight P X args keys (fuel + 1) st).eval (Tape.handler answer) ⟨rec ++ rest, io⟩ =
      if st.acc.length + content.length > hsAccSz P.build then
        some (.error .decode, ⟨rest, io⟩)
      else
        afterRecord answer (certFlight P X args keys fuel) ⟨rest, io⟩
          (certFlightMsgs P X args keys.sHs (st.acc ++ content).length
            { st with acc := st.acc ++ content, sSeq := st.sSeq + 1 }) := by
  obtain ⟨hread, hopen⟩ := @sealHs_eval P σ answer content rec rest pad (args.ioCap P.build)
    _ _ _ io hopens hmax hseal hcap (args.ioCap P.build - recordHeaderSz)
  rw [certFlight, Prog.eval_bind_of_ok hread]
  dsimp only
  rw [if_neg (not_ccs_of_appdata rec),
    Prog.eval_bind_of_ok (Prog.eval_failIf_neg (not_not.2 rfl)),
    Prog.eval_bind_of_ok hopen]
  dsimp only
  rw [Prog.eval_bind_of_ok (Prog.eval_failIf_neg (not_not.2 rfl))]
  by_cases hguard : st.acc.length + content.length > hsAccSz P.build
  · rw [if_pos hguard]
    exact Prog.eval_bind_of_error (Prog.eval_failIf_pos hguard)
  · rw [if_neg hguard, Prog.eval_bind_of_ok (Prog.eval_failIf_neg hguard),
      Prog.eval_bind_of_ok Prog.eval_note]
    exact afterRecord_eq

theorem certFlight_end :
    (certFlight P X args keys (fuel + 1) st).eval (Tape.handler answer) ⟨[], io⟩ =
      some (.error .crypto, ⟨[], io⟩) := by
  rw [certFlight]
  exact Prog.eval_bind_of_error recvRecord_eval_end

end Cert

end Tape

/-! ### What was opened -/

/-- The contents of a record that was opened. -/
def Ev.content? (P : Platform) : Ev → Option Bytes
  | .unprotect _ key iv seq rec =>
      match openRecord P key iv seq rec with
      | .ok (_, content) => some content
      | .error _ => none
  | .unprotectOver gap _ key iv seq rec =>
      match openRecordOver P gap key iv seq rec with
      | .ok (_, content) => some content
      | .error _ => none
  | _ => none

/-- The contents of the records a run opened. -/
def openedContents (P : Platform) (tr : List (Act Ev)) : List Bytes :=
  (notes tr).filterMap (Ev.content? P)

section Opened

variable {P : Platform} {tr tr' : List (Act Ev)}

@[simp] theorem openedContents_append :
    openedContents P (tr ++ tr') = openedContents P tr ++ openedContents P tr' := by
  rw [openedContents, notes_append, List.filterMap_append]
  rfl

theorem openedContents_reads (r : Rec) : openedContents P r.reads = [] := rfl

theorem openedContents_opened {cap : Nat} {key iv rec content : Bytes} {seq : UInt64}
    {contentType : UInt8} (h : openRecord P key iv seq rec = .ok (contentType, content)) :
    openedContents P [.note (.unprotect cap key iv seq rec)] = [content] := by
  change [Ev.unprotect cap key iv seq rec].filterMap (Ev.content? P) = [content]
  rw [List.filterMap_cons, Ev.content?, h]
  rfl

theorem openedContents_openedOver {gap cap : Nat} {key iv rec content : Bytes}
    {seq : UInt64} {contentType : UInt8}
    (h : openRecordOver P gap key iv seq rec = .ok (contentType, content)) :
    openedContents P [.note (.unprotectOver gap cap key iv seq rec)] = [content] := by
  change [Ev.unprotectOver gap cap key iv seq rec].filterMap (Ev.content? P) = [content]
  rw [List.filterMap_cons, Ev.content?, h]
  rfl

end Opened

/-- The record without its padding. -/
def FlightRec.unpadded : FlightRec → FlightRec
  | .ccs => .ccs
  | .hs content _ => .hs content 0

/-! ### Both loops -/

/-- Whether every record of the flight finds room behind what was taken before. -/
def Roomy (room : Nat → Nat → Nat → Prop) : Nat → List FlightRec → Prop
  | _, [] => True
  | n, .ccs :: items => Roomy room n items
  | n, .hs content pad :: items =>
      room n content.length pad ∧ Roomy room (n + content.length) items

/-- Records without padding find room as long as their contents do. -/
theorem roomy_of_total {room : Nat → Nat → Nat → Prop} {total n : Nat} {items : List FlightRec}
    (hroom : ∀ n len, n + len ≤ total → room n len 0) (hpad : ∀ r ∈ items, r.unpadded = r)
    (htotal : n + (flightContents items).flatten.length ≤ total) : Roomy room n items := by
  induction items generalizing n with
  | nil => trivial
  | cons item items ih =>
      have hrest := fun r hr => hpad r (List.mem_cons_of_mem _ hr)
      cases item with
      | ccs => exact ih hrest htotal
      | hs content pad =>
          have hzero := hpad _ List.mem_cons_self
          simp only [FlightRec.unpadded, FlightRec.hs.injEq, true_and] at hzero
          change n + (content :: flightContents items).flatten.length ≤ total at htotal
          rw [List.flatten_cons, List.length_append] at htotal
          subst hzero
          exact ⟨hroom _ _ (by omega), ih hrest (by omega)⟩

/-- Whether every record of the flight finds room with its padding if it does without. -/
def PadRoom (room : Nat → Nat → Nat → Prop) : Nat → List FlightRec → Prop
  | _, [] => True
  | n, .ccs :: items => PadRoom room n items
  | n, .hs content pad :: items =>
      (room n content.length 0 → room n content.length pad) ∧
        PadRoom room (n + content.length) items

/-- A client's loop over the records of the flight is a reassembly of their contents. -/
structure FlightLoop (P : Platform) (key iv : Bytes) (cap : Nat) (St S : Type) where
  R : Reassembly S Err
  loop : Nat → St → Shell St
  acc : St → Bytes
  off : S → Nat
  seq : St → UInt64
  parse : St → S
  /-- The state after a record with these contents. -/
  take : St → Bytes → S → St
  /-- The bytes taken before, the contents of the record and its padding. -/
  room : Nat → Nat → Nat → Prop
  room_unpadded : ∀ {n len pad}, room n len pad → room n len 0
  take_acc : ∀ st content s, acc (take st content s) = acc st ++ content
  take_seq : ∀ st content s, seq (take st content s) = seq st + 1
  take_parse : ∀ st content s, parse (take st content s) = s
  pull_off : ∀ {s p n s' last}, R.pull s p = .msg n s' last → off s' = off s + n
  loop_zero : ∀ st, loop 0 st = Prog.spin
  loop_ccs : ∀ {σ : Type} {answer : σ → Bytes → Int × σ} {fuel : Nat} {st : St} {r : Rec}
    {rest : Bytes} {io : σ}, r.Fits cap → r.isCcs = true →
    (loop (fuel + 1) st).eval (Tape.handler answer) ⟨r.bytes ++ rest, io⟩ =
      (loop fuel st).eval (Tape.handler answer) ⟨rest, io⟩
  loop_hs : ∀ {σ : Type} {answer : σ → Bytes → Int × σ} {fuel : Nat} {st : St}
    {content rec rest : Bytes} {pad : Nat} {io : σ}, P.OpensSealed →
    off (parse st) ≤ (acc st).length → content.length + pad ≤ maxPlaintext →
    sealHs P key iv (seq st) content pad = some rec → rec.length ≤ cap →
    room (acc st).length content.length pad →
    (loop (fuel + 1) st).eval (Tape.handler answer) ⟨rec ++ rest, io⟩ =
      afterRecord answer (loop fuel) ⟨rest, io⟩
        ((R.outcome (parse st) ((acc st).drop (off (parse st)) ++ content)).map
          fun y => (take st content y.1, y.2.2))
  loop_ok : ∀ {fuel : Nat} {st st' : St} {tr : List (Act Ev)},
    off (parse st) ≤ (acc st).length → Prog.Ok (loop (fuel + 1) st) tr st' →
    (∃ s t, tr = s ++ t ∧ openedContents P s = [] ∧ Prog.Ok (loop fuel st) t st') ∨
      ∃ content s t p left last, tr = s ++ t ∧ openedContents P s = [content] ∧
        R.outcome (parse st) ((acc st).drop (off (parse st)) ++ content) =
          .ok (p, left, last) ∧
        if last then t = [] ∧ parse st' = p
        else Prog.Ok (loop fuel (take st content p)) t st'
  loop_full : ∀ {σ : Type} {answer : σ → Bytes → Int × σ} {fuel : Nat} {st : St}
    {content rec rest : Bytes} {pad : Nat} {io : σ}, P.OpensSealed →
    content.length + pad ≤ maxPlaintext →
    sealHs P key iv (seq st) content pad = some rec → rec.length ≤ cap →
    ¬ room (acc st).length content.length pad →
    (loop (fuel + 1) st).eval (Tape.handler answer) ⟨rec ++ rest, io⟩ =
      some (.error .decode, ⟨rest, io⟩)
  loop_end : ∀ {σ : Type} {answer : σ → Bytes → Int × σ} {fuel : Nat} {st : St} {io : σ},
    (loop (fuel + 1) st).eval (Tape.handler answer) ⟨[], io⟩ =
      some (.error .crypto, ⟨[], io⟩)

namespace FlightLoop

variable {P : Platform} {key iv : Bytes} {cap : Nat} {St S : Type}
  {L : FlightLoop P key iv cap St S} {st : St} {content rest : Bytes} {s : S} {last : Bool}

variable (L) in
/-- The bytes that were not parsed yet. -/
def pending (st : St) : Bytes := (L.acc st).drop (L.off (L.parse st))

variable (L) in
def Good (st : St) : Prop := L.off (L.parse st) ≤ (L.acc st).length

/-- What is left after a record is what its messages leave. -/
theorem take_pending (hgood : L.Good st)
    (h : L.R.outcome (L.parse st) (L.pending st ++ content) = .ok (s, rest, last)) :
    L.pending (L.take st content s) = rest ∧ L.Good (L.take st content s) := by
  obtain ⟨n, hn, hrest, hoff⟩ := Reassembly.outcome_off L.pull_off h
  have hlen : (L.pending st ++ content).length =
      (L.acc st).length - L.off (L.parse st) + content.length := by
    rw [List.length_append, pending, List.length_drop]
  unfold Good at hgood
  constructor
  · have happend : L.pending st ++ content =
        (L.acc st ++ content).drop (L.off (L.parse st)) :=
      (List.drop_append_of_le_length hgood).symm
    rw [pending, L.take_acc, L.take_parse, hoff, hrest, happend, List.drop_drop]
  · rw [Good, L.take_acc, L.take_parse, hoff, List.length_append]
    omega

/-- The end of the stream before Finished. -/
def result : Except Err (S × Bool) → Except Err S
  | .error e => .error e
  | .ok (s, true) => .ok s
  | .ok (_, false) => .error .crypto

/-- A successful run opened records whose contents have a last message. -/
theorem ok_outcome {fuel : Nat} {st' : St} {tr : List (Act Ev)} (hgood : L.Good st)
    (hwait : L.R.pull (L.parse st) (L.pending st) = .wait)
    (h : Prog.Ok (L.loop fuel st) tr st') :
    ∃ rest, L.R.outcome (L.parse st) (L.pending st ++ (openedContents P tr).flatten) =
      .ok (L.parse st', rest, true) := by
  induction fuel generalizing st tr with
  | zero =>
      rw [L.loop_zero] at h
      exact absurd h Prog.ok_spin
  | succ fuel ih =>
      rcases L.loop_ok hgood h with ⟨s, t, rfl, hs, hrest⟩ |
        ⟨content, s, t, p, left, last, rfl, hs, houtcome, hlast⟩
      · rw [openedContents_append, hs, List.nil_append]
        exact ih hgood hwait hrest
      · rw [openedContents_append, hs, List.singleton_append, List.flatten_cons,
          ← List.append_assoc, Reassembly.outcome_append]
        have hpull : L.R.outcome (L.parse st) (L.pending st ++ content) = .ok (p, left, last) :=
          houtcome
        rw [hpull]
        cases last with
        | true =>
            obtain ⟨rfl, rfl⟩ := hlast
            exact ⟨_, rfl⟩
        | false =>
            obtain ⟨hpending, hgood'⟩ := take_pending hgood hpull
            have hwait' : L.R.pull (L.parse (L.take st content p))
                (L.pending (L.take st content p)) = .wait := by
              rw [L.take_parse, hpending]
              exact Reassembly.outcome_rest hpull
            have hnext := ih hgood' hwait' hlast
            rw [L.take_parse, hpending] at hnext
            exact hnext

section Runs

variable {σ : Type} {answer : σ → Bytes → Int × σ} {io : σ} {seq : UInt64}
  {items : List FlightRec} {wire : Bytes} {fuel : Nat}

/-- A sealed flight with nothing after it: the outcome is that of the reassembly. -/
theorem run (hopens : P.OpensSealed) (hwire : SealedFlight P key iv cap seq items wire)
    (hgood : L.Good st) (hseq : L.seq st = seq)
    (hroom : Roomy L.room (L.acc st).length items) (hfuel : items.length < fuel) :
    ∃ y rest, (L.loop fuel st).eval (Tape.handler answer) ⟨wire, io⟩ =
        some (y, ⟨rest, io⟩) ∧
      y.map L.parse = result (Reassembly.verdict
        (L.R.feed (L.parse st) (L.pending st) (flightContents items))) := by
  induction hwire generalizing st fuel with
  | nil =>
      obtain ⟨fuel, rfl⟩ := Nat.exists_eq_succ_of_ne_zero (Nat.ne_zero_of_lt hfuel)
      exact ⟨_, _, L.loop_end, rfl⟩
  | ccs hfits hccs hrest ih =>
      obtain ⟨fuel, rfl⟩ := Nat.exists_eq_succ_of_ne_zero (Nat.ne_zero_of_lt hfuel)
      rw [L.loop_ccs hfits hccs]
      exact ih hgood hseq hroom (Nat.lt_of_succ_lt_succ hfuel)
  | @hs seq content rec wire pad items hmax hseal hcap hrest ih =>
      obtain ⟨fuel, rfl⟩ := Nat.exists_eq_succ_of_ne_zero (Nat.ne_zero_of_lt hfuel)
      rw [L.loop_hs hopens hgood hmax (hseq ▸ hseal) hcap hroom.1]
      change ∃ y rest, afterRecord answer (L.loop fuel) ⟨wire, io⟩
          ((L.R.outcome (L.parse st) (L.pending st ++ content)).map
            fun y => (L.take st content y.1, y.2.2)) = some (y, ⟨rest, io⟩) ∧
        y.map L.parse = result (Reassembly.verdict (L.R.feed (L.parse st) (L.pending st)
          (content :: flightContents items)))
      rw [Reassembly.feed]
      cases houtcome : L.R.outcome (L.parse st) (L.pending st ++ content) with
      | error e => exact ⟨_, _, rfl, rfl⟩
      | ok y =>
          obtain ⟨s, left, last⟩ := y
          obtain ⟨hpending, hgood'⟩ := take_pending hgood houtcome
          cases last with
          | true => exact ⟨_, _, rfl, congrArg Except.ok (L.take_parse st content s)⟩
          | false =>
              have hnext := ih hgood' (by rw [L.take_seq, hseq])
                (by rw [L.take_acc, List.length_append]; exact hroom.2)
                (Nat.lt_of_succ_lt_succ hfuel)
              rw [L.take_parse, hpending] at hnext
              exact hnext

/-- A program goes on after the flight without reading. -/
def after {β : Type} (answer : σ → Bytes → Int × σ) (fin : S → Shell β) (io : σ) :
    Except Err S → Option (Except Err β × σ)
  | .error e => some (.error e, io)
  | .ok s => (fin s).run.outcome answer ⟨[], io⟩

/-- What the client does after the flight is decided by the bytes of the flight. -/
theorem outcome (hopens : P.OpensSealed) (hwire : SealedFlight P key iv cap seq items wire)
    (hgood : L.Good st) (hseq : L.seq st = seq)
    (hroom : Roomy L.room (L.acc st).length items) (hfuel : items.length < fuel)
    {β : Type} {fin : S → Shell β} (hfin : ∀ s, (fin s).Straight) :
    (L.loop fuel st >>= fun st => fin (L.parse st)).run.outcome answer ⟨wire, io⟩ =
      after answer fin io (result (Reassembly.verdict
        (L.R.feed (L.parse st) (L.pending st) (flightContents items)))) := by
  obtain ⟨y, rest, heval, hy⟩ := @run P key iv cap St S L st σ answer io seq items wire fuel
    hopens hwire hgood hseq hroom hfuel
  rw [← hy]
  cases y with
  | error e => exact Prog.outcome_bind_of_error heval
  | ok st' =>
      rw [Prog.outcome_bind_of_ok heval]
      exact (hfin _).outcome

/-- Two ways of cutting the same bytes into records. -/
theorem cuts {β : Type} (st : St) (fin : S → Shell β) (hopens : P.OpensSealed)
    {items' : List FlightRec} {wire' : Bytes}
    (hwire : SealedFlight P key iv cap seq items wire)
    (hwire' : SealedFlight P key iv cap seq items' wire')
    (hcut : (flightContents items).flatten = (flightContents items').flatten)
    (hgood : L.Good st) (hseq : L.seq st = seq) (hpending : L.pending st = [])
    (hroom : Roomy L.room (L.acc st).length items)
    (hroom' : Roomy L.room (L.acc st).length items')
    (hfin : ∀ s, (fin s).Straight) :
    SameEnd answer (fun fuel => (L.loop fuel st >>= fun st => fin (L.parse st)).run)
      ⟨wire, io⟩ ⟨wire', io⟩ := by
  have hend : ∃ y, after answer fin io (result (Reassembly.verdict
      (L.R.feed (L.parse st) [] (flightContents items)))) = some y := by
    rcases result (Reassembly.verdict (L.R.feed (L.parse st) [] (flightContents items))) with
      e | s
    · exact ⟨_, rfl⟩
    · exact (hfin s).returns _
  obtain ⟨y, hy⟩ := hend
  refine ⟨y, ⟨items.length + 1, fun fuel hfuel => ?_⟩, ⟨items'.length + 1, fun fuel hfuel => ?_⟩⟩
  · rw [outcome hopens hwire hgood hseq hroom hfuel hfin, hpending]
    exact hy
  · rw [outcome hopens hwire' hgood hseq hroom' hfuel hfin, hpending,
      ← Reassembly.feed_chunks hcut]
    exact hy

/-- Padding that finds room changes nothing, whatever follows the flight. -/
theorem pads (hopens : P.OpensSealed) {wire' more : Bytes}
    (hwire : SealedFlight P key iv cap seq (items.map .unpadded) wire)
    (hwire' : SealedFlight P key iv cap seq items wire')
    (hgood : L.Good st) (hseq : L.seq st = seq)
    (hroom : PadRoom L.room (L.acc st).length items) :
    (L.loop fuel st).run.outcome answer ⟨wire ++ more, io⟩ =
      (L.loop fuel st).run.outcome answer ⟨wire' ++ more, io⟩ := by
  induction items generalizing seq wire wire' st fuel with
  | nil =>
      cases hwire
      cases hwire'
      rfl
  | cons item items ih =>
      cases fuel with
      | zero => rw [L.loop_zero]; rfl
      | succ fuel =>
          unfold Proc.outcome at ih ⊢
          cases item with
          | ccs =>
              cases hwire with
              | ccs hfits hccs hrest =>
                  cases hwire' with
                  | ccs hfits' hccs' hrest' =>
                      rw [List.append_assoc, List.append_assoc, Prog.run_eval, Prog.run_eval,
                        L.loop_ccs hfits hccs, L.loop_ccs hfits' hccs']
                      exact ih hrest hrest' hgood hseq hroom
          | hs content pad =>
              cases hwire with
              | hs hmax hseal hcap hrest =>
                  cases hwire' with
                  | hs hmax' hseal' hcap' hrest' =>
                      subst hseq
                      rw [List.append_assoc, List.append_assoc, Prog.run_eval, Prog.run_eval]
                      by_cases hfits : L.room (L.acc st).length content.length 0
                      case neg =>
                        have hfits' : ¬ L.room (L.acc st).length content.length pad :=
                          fun h => hfits (L.room_unpadded h)
                        rw [L.loop_full hopens hmax hseal hcap hfits,
                          L.loop_full hopens hmax' hseal' hcap' hfits']
                        rfl
                      rw [L.loop_hs hopens hgood hmax hseal hcap hfits,
                        L.loop_hs hopens hgood hmax' hseal' hcap' (hroom.1 hfits)]
                      change (afterRecord answer (L.loop fuel) _
                          ((L.R.outcome (L.parse st) (L.pending st ++ content)).map _)).map _ =
                        (afterRecord answer (L.loop fuel) _
                          ((L.R.outcome (L.parse st) (L.pending st ++ content)).map _)).map _
                      cases houtcome : L.R.outcome (L.parse st) (L.pending st ++ content) with
                      | error e => rfl
                      | ok y =>
                          obtain ⟨s, left, last⟩ := y
                          obtain ⟨-, hgood'⟩ := take_pending hgood houtcome
                          have hlen : (L.acc (L.take st content s)).length =
                              (L.acc st).length + content.length := by
                            rw [L.take_acc, List.length_append]
                          cases last with
                          | true => rfl
                          | false =>
                              exact ih hrest hrest' hgood' (L.take_seq st content s)
                                (hlen ▸ hroom.2)

end Runs

end FlightLoop

/-! ### The loops of the drivers -/

theorem pskFlight_ok {P : Platform} {keys : HsKeys} {scratchLen fuel : Nat} {st st' : PskFlight}
    {tr : List (Act Ev)} (h : Prog.Ok (pskFlight P scratchLen keys (fuel + 1) st) tr st') :
    (∃ s t, tr = s ++ t ∧ openedContents P s = [] ∧
        Prog.Ok (pskFlight P scratchLen keys fuel st) t st') ∨
      ∃ content s t st₁ fin, tr = s ++ t ∧ openedContents P s = [content] ∧
        pskFlightMsgs P keys.sHs (st.acc ++ content).length
          { st with acc := st.acc ++ content, sSeq := st.sSeq + 1 } = .ok (st₁, fin) ∧
        if fin then t = [] ∧ st₁ = st' else Prog.Ok (pskFlight P scratchLen keys fuel st₁)
          t st' := by
  rw [pskFlight, Prog.ok_bind] at h
  obtain ⟨r, s, t, rfl, hread, h⟩ := h
  obtain ⟨-, rfl⟩ := recvRecord_ok.1 hread
  by_cases hccs : r.isCcs = true
  · rw [if_pos hccs] at h
    exact .inl ⟨_, _, rfl, rfl, h⟩
  · rw [if_neg hccs] at h
    simp only [Prog.ok_bind, Prog.ok_failIf, Prog.ok_lift, recordUnprotect_ok] at h
    obtain ⟨_, _, _, rfl, ⟨rfl, -⟩, _, _, _, rfl, ⟨rfl, -⟩, ⟨contentType, content⟩, _, _, rfl,
      ⟨-, hopen, rfl⟩, _, _, _, rfl, ⟨rfl, htype⟩, ⟨st₁, fin⟩, _, t, rfl, ⟨rfl, hmsgs⟩, h⟩ := h
    refine .inr ⟨content, r.reads ++ [.note (.unprotect (pskPlainSz - st.acc.length) keys.sKey
      keys.sIv st.sSeq r.bytes)], t, st₁, fin, by simp, ?_, hmsgs, ?_⟩
    · rw [openedContents_append, openedContents_reads, openedContents_opened hopen]
      rfl
    · cases fin with
      | true => exact Prog.ok_pure.1 h
      | false => exact h

theorem certFlight_ok {P : Platform} {X : X509Backend} {args : CertArgs} {keys : HsKeys}
    {fuel : Nat} {st st' : CertFlight} {tr : List (Act Ev)}
    (h : Prog.Ok (certFlight P X args keys (fuel + 1) st) tr st') :
    (∃ s t, tr = s ++ t ∧ openedContents P s = [] ∧
        Prog.Ok (certFlight P X args keys fuel st) t st') ∨
      ∃ content s t st₁ fin, tr = s ++ t ∧ openedContents P s = [content] ∧
        certFlightMsgs P X args keys.sHs (st.acc ++ content).length
          { st with acc := st.acc ++ content, sSeq := st.sSeq + 1 } = .ok (st₁, fin) ∧
        if fin then t = [] ∧ st₁ = st' else Prog.Ok (certFlight P X args keys fuel st₁) t st' := by
  rw [certFlight, Prog.ok_bind] at h
  obtain ⟨r, s, t, rfl, hread, h⟩ := h
  obtain ⟨-, rfl⟩ := recvRecord_ok.1 hread
  by_cases hccs : r.isCcs = true
  · rw [if_pos hccs] at h
    exact .inl ⟨_, _, rfl, rfl, h⟩
  · rw [if_neg hccs] at h
    simp only [Prog.ok_bind, Prog.ok_failIf, Prog.ok_lift, Prog.ok_note,
      recordUnprotect_ok] at h
    obtain ⟨_, _, _, rfl, ⟨rfl, -⟩, ⟨contentType, content⟩, _, _, rfl, ⟨-, hopen, rfl⟩, _, _, _,
      rfl, ⟨rfl, htype⟩, _, _, _, rfl, ⟨rfl, -⟩, _, _, _, rfl, rfl, ⟨st₁, fin⟩, _, t, rfl,
      ⟨rfl, hmsgs⟩, h⟩ := h
    refine .inr ⟨content, r.reads ++ [.note (.unprotect (args.ioCap P.build - recordHeaderSz)
      keys.sKey keys.sIv st.sSeq r.bytes), .note (.copy (hsAccSz P.build) st.acc.length
        content.length)], t, st₁, fin, by simp, ?_, hmsgs, ?_⟩
    · rw [openedContents_append, openedContents_reads]
      exact openedContents_opened hopen
    · cases fin with
      | true => exact Prog.ok_pure.1 h
      | false => exact h

section Drivers

variable (P : Platform) (keys : HsKeys)

/-- The PSK client asks for room for the whole inner plaintext. -/
def pskLoop (scratchLen : Nat) :
    FlightLoop P keys.sKey keys.sIv scratchLen PskFlight PskParse where
  R := pskReassembly P keys.sHs
  loop := pskFlight P scratchLen keys
  acc := PskFlight.acc
  off := PskParse.off
  seq := PskFlight.sSeq
  parse := PskFlight.parse
  take st content s :=
    { st with acc := st.acc ++ content, sSeq := st.sSeq + 1 }.put s
  room n len pad := n + len + 1 + pad ≤ pskPlainSz
  room_unpadded {_ _ _} hroom := by omega
  take_acc _ _ _ := rfl
  take_seq _ _ _ := rfl
  take_parse _ _ _ := rfl
  pull_off h := by
    obtain ⟨-, -, -, hle, hstep⟩ := pskPull_msg.1 h
    rw [pskStep_off hstep, List.length_take_of_le hle]
  loop_zero _ := rfl
  loop_ccs hfits hccs := pskFlight_ccs hfits hccs
  loop_hs {_ _ _ st content _ _ _ _} hopens hgood hmax hseal hcap hroom := by
    have hoff : st.accOff ≤ (st.acc ++ content).length := by
      rw [List.length_append]
      exact Nat.le_trans hgood (Nat.le_add_right ..)
    have happend : (st.acc ++ content).drop st.accOff = st.acc.drop st.accOff ++ content :=
      List.drop_append_of_le_length hgood
    rw [pskFlight_hs hopens hmax hseal hcap, if_neg (by omega), pskFlightMsgs_eq hoff]
    change afterRecord _ _ _ (((pskReassembly P keys.sHs).drain _ st.parse
      ((st.acc ++ content).drop st.accOff)).map _) = _
    rw [Reassembly.drain_enough (by rw [List.length_drop]; omega), happend]
    rfl
  loop_ok {_ st _ _} hgood h := by
    have happend : ∀ content, (st.acc ++ content).drop st.accOff =
        st.acc.drop st.accOff ++ content := fun _ => List.drop_append_of_le_length hgood
    rcases pskFlight_ok h with hccs | ⟨content, s, t, st₁, fin, htr, hs, hmsgs, hrest⟩
    · exact .inl hccs
    · have hoff : st.accOff ≤ (st.acc ++ content).length := by
        rw [List.length_append]
        exact Nat.le_trans hgood (Nat.le_add_right ..)
      rw [pskFlightMsgs_eq hoff] at hmsgs
      change ((pskReassembly P keys.sHs).drain _ st.parse
        ((st.acc ++ content).drop st.accOff)).map _ = _ at hmsgs
      rw [Reassembly.drain_enough (by rw [List.length_drop]; omega), happend] at hmsgs
      cases houtcome : (pskReassembly P keys.sHs).outcome st.parse
          (st.acc.drop st.accOff ++ content) with
      | error e =>
          rw [houtcome] at hmsgs
          cases hmsgs
      | ok y =>
          rw [houtcome] at hmsgs
          cases hmsgs
          refine .inr ⟨content, s, t, y.1, y.2.1, y.2.2, htr, hs, houtcome, ?_⟩
          cases hlast : y.2.2 with
          | true =>
              rw [hlast] at hrest
              obtain ⟨rfl, rfl⟩ := hrest
              exact ⟨rfl, rfl⟩
          | false =>
              rw [hlast] at hrest
              exact hrest
  loop_full hopens hmax hseal hcap hroom := by
    rw [pskFlight_hs hopens hmax hseal hcap, if_pos (by omega)]
  loop_end := pskFlight_end

/-- The certificate client asks for room for the contents. -/
def certLoop (X : X509Backend) (args : CertArgs) :
    FlightLoop P keys.sKey keys.sIv (args.ioCap P.build) CertFlight CertParse where
  R := certReassembly P X args keys.sHs
  loop := certFlight P X args keys
  acc := CertFlight.acc
  off := CertParse.off
  seq := CertFlight.sSeq
  parse := CertFlight.parse
  take st content s :=
    { st with acc := st.acc ++ content, sSeq := st.sSeq + 1 }.put s
  room n len _ := n + len ≤ hsAccSz P.build
  room_unpadded hroom := hroom
  take_acc _ _ _ := rfl
  take_seq _ _ _ := rfl
  take_parse _ _ _ := rfl
  pull_off h := by
    obtain ⟨-, -, hle, hstep⟩ := certPull_msg.1 h
    rw [certStep_off hstep, List.length_take_of_le hle]
  loop_zero _ := rfl
  loop_ccs hfits hccs := certFlight_ccs hfits hccs
  loop_hs {_ _ _ st content _ _ _ _} hopens hgood hmax hseal hcap hroom := by
    have hoff : st.off ≤ (st.acc ++ content).length := by
      rw [List.length_append]
      exact Nat.le_trans hgood (Nat.le_add_right ..)
    have happend : (st.acc ++ content).drop st.off = st.acc.drop st.off ++ content :=
      List.drop_append_of_le_length hgood
    rw [certFlight_hs hopens hmax hseal hcap, if_neg (by omega), certFlightMsgs_eq hoff]
    change afterRecord _ _ _ (((certReassembly P X args keys.sHs).drain _ st.parse
      ((st.acc ++ content).drop st.off)).map _) = _
    rw [Reassembly.drain_enough (by rw [List.length_drop]; omega), happend]
    rfl
  loop_ok {_ st _ _} hgood h := by
    have happend : ∀ content, (st.acc ++ content).drop st.off =
        st.acc.drop st.off ++ content := fun _ => List.drop_append_of_le_length hgood
    rcases certFlight_ok h with hccs | ⟨content, s, t, st₁, fin, htr, hs, hmsgs, hrest⟩
    · exact .inl hccs
    · have hoff : st.off ≤ (st.acc ++ content).length := by
        rw [List.length_append]
        exact Nat.le_trans hgood (Nat.le_add_right ..)
      rw [certFlightMsgs_eq hoff] at hmsgs
      change ((certReassembly P X args keys.sHs).drain _ st.parse
        ((st.acc ++ content).drop st.off)).map _ = _ at hmsgs
      rw [Reassembly.drain_enough (by rw [List.length_drop]; omega), happend] at hmsgs
      cases houtcome : (certReassembly P X args keys.sHs).outcome st.parse
          (st.acc.drop st.off ++ content) with
      | error e =>
          rw [houtcome] at hmsgs
          cases hmsgs
      | ok y =>
          rw [houtcome] at hmsgs
          cases hmsgs
          refine .inr ⟨content, s, t, y.1, y.2.1, y.2.2, htr, hs, houtcome, ?_⟩
          cases hlast : y.2.2 with
          | true =>
              rw [hlast] at hrest
              obtain ⟨rfl, rfl⟩ := hrest
              exact ⟨rfl, rfl⟩
          | false =>
              rw [hlast] at hrest
              exact hrest
  loop_full hopens hmax hseal hcap hroom := by
    rw [certFlight_hs hopens hmax hseal hcap, if_pos (by omega)]
  loop_end := certFlight_end

end Drivers

end WolfNano
