/-
The encrypted flight of the server as a reassembly, for both clients: the loops of
the drivers over an accumulator are the drain of one reassembly each.
-/
import WolfNano.Leftovers
import WolfNano.Streams
import WolfNano.Duplex.Reassembly

namespace WolfNano

open Duplex

theorem except_map_bind {ε α β γ : Type} (x : Except ε α) (f : α → Except ε β) (g : β → γ) :
    (x >>= f).map g = x >>= fun a => (f a).map g := by
  cases x with
  | error e => rfl
  | ok a => rfl

/-- The length of a handshake message by its header. -/
def hsBodyLen (hdr : Bytes) : Nat := ofBE (slice hdr 1 3)

theorem slice_take {b : Bytes} {n i k : Nat} (h : i + k ≤ n) :
    slice (b.take n) i k = slice b i k := by
  unfold slice
  rw [List.drop_take, List.take_take, Nat.min_eq_left (by omega)]

theorem slice_drop {b : Bytes} {n i k : Nat} : slice (b.drop n) i k = slice b (n + i) k := by
  unfold slice
  rw [List.drop_drop]

/-- The header at an offset of the accumulator. -/
theorem hsBodyLen_at (acc : Bytes) (off : Nat) :
    hsBodyLen ((acc.drop off).take 4) = hsMsgLen acc off := by
  unfold hsBodyLen hsMsgLen
  rw [slice_take (by omega), slice_drop]

/-! ### The PSK flight -/

/-- What the PSK client has parsed. -/
structure PskParse where
  off : Nat
  gotEE : Bool
  tc : Transcript
  deriving DecidableEq

def PskFlight.parse (st : PskFlight) : PskParse := ⟨st.accOff, st.gotEE, st.tc⟩

/-- The bytes that were not parsed yet. -/
def PskFlight.pending (st : PskFlight) : Bytes := st.acc.drop st.accOff

def PskFlight.put (st : PskFlight) (s : PskParse) : PskFlight :=
  { st with accOff := s.off, gotEE := s.gotEE, tc := s.tc }

section Psk

variable {P : Platform} {sHs : Bytes}

variable (P sHs) in
def pskStep (s : PskParse) (msg : Bytes) : Except Err (PskParse × Bool) :=
  (pskFlightMsg P sHs ⟨[], s.off + msg.length, 0, s.gotEE, s.tc⟩ msg).map
    fun x => (x.1.parse, x.2)

variable (P sHs) in
/-- The reassembly of the PSK client. -/
def pskReassembly : Reassembly PskParse Err :=
  .framed 4 (by decide) hsBodyLen
    (fun s size => if s.off + size > pskPlainSz then some .decode else none) (pskStep P sHs)

/-- A message only moves what was parsed. -/
theorem pskFlightMsg_eq (st : PskFlight) (msg : Bytes) :
    pskFlightMsg P sHs { st with accOff := st.accOff + msg.length } msg =
      (pskStep P sHs st.parse msg).map fun x => (st.put x.1, x.2) := by
  unfold pskStep pskFlightMsg
  dsimp only [PskFlight.parse]
  split
  · simp only [except_map_bind]
    rfl
  · split
    · simp only [except_map_bind]
      rfl
    · rfl

theorem pskStep_off {s s' : PskParse} {msg : Bytes} {last : Bool}
    (h : pskStep P sHs s msg = .ok (s', last)) : s'.off = s.off + msg.length := by
  unfold pskStep pskFlightMsg at h
  dsimp only at h
  split at h
  · simp only [except_map_bind, except_bind_eq_ok] at h
    obtain ⟨_, -, _, -, tc, -, heq⟩ := h
    cases heq
    rfl
  · split at h
    · simp only [except_map_bind, except_bind_eq_ok] at h
      obtain ⟨_, -, _, -, _, -, _, -, tc, -, heq⟩ := h
      cases heq
      rfl
    · cases h

theorem pskPull_msg {s s' : PskParse} {p : Bytes} {n : Nat} {last : Bool} :
    (pskReassembly P sHs).pull s p = .msg n s' last ↔
      4 ≤ p.length ∧ n = 4 + hsBodyLen (p.take 4) ∧
        (if s.off + n > pskPlainSz then some Err.decode else none) = none ∧ n ≤ p.length ∧
          pskStep P sHs s (p.take n) = .ok (s', last) := by
  unfold pskReassembly
  exact Reassembly.framed_msg

/-- The front message of the accumulator. -/
theorem pskPull_eq {st : PskFlight} (hoff : st.accOff ≤ st.acc.length) :
    (pskReassembly P sHs).pull st.parse st.pending =
      if st.acc.length - st.accOff < 4 then .wait
      else
        let mLen := hsMsgLen st.acc st.accOff
        if st.accOff + 4 + mLen > pskPlainSz then .fail .decode
        else if st.accOff + 4 + mLen > st.acc.length then .wait
        else
          match pskStep P sHs st.parse (slice st.acc st.accOff (4 + mLen)) with
          | .error e => .fail e
          | .ok (s', last) => .msg (4 + mLen) s' last := by
  have hlen : st.pending.length = st.acc.length - st.accOff := List.length_drop
  have hhdr : hsBodyLen (st.pending.take 4) = hsMsgLen st.acc st.accOff := hsBodyLen_at ..
  unfold pskReassembly Reassembly.framed
  dsimp only
  unfold Reassembly.framedPull
  rw [hlen, hhdr]
  by_cases hshort : st.acc.length - st.accOff < 4
  · rw [if_pos hshort, if_pos hshort]
  · rw [if_neg hshort, if_neg hshort]
    dsimp only [PskFlight.parse]
    rw [← Nat.add_assoc]
    by_cases hlong : st.accOff + 4 + hsMsgLen st.acc st.accOff > pskPlainSz
    · rw [if_pos hlong, if_pos hlong]
    · rw [if_neg hlong, if_neg hlong]
      dsimp only
      by_cases hmore : st.accOff + 4 + hsMsgLen st.acc st.accOff > st.acc.length
      · rw [if_pos hmore, if_pos (by omega)]
      · have hslice : st.pending.take (4 + hsMsgLen st.acc st.accOff) =
            slice st.acc st.accOff (4 + hsMsgLen st.acc st.accOff) := rfl
        rw [if_neg hmore, if_neg (by omega), hslice]
        cases pskStep P sHs ⟨st.accOff, st.gotEE, st.tc⟩
            (slice st.acc st.accOff (4 + hsMsgLen st.acc st.accOff)) with
        | error e => rfl
        | ok y => rfl

/-- The loop over the accumulator is the drain of the reassembly. -/
theorem pskFlightMsgs_eq {fuel : Nat} {st : PskFlight} (hoff : st.accOff ≤ st.acc.length) :
    pskFlightMsgs P sHs fuel st =
      ((pskReassembly P sHs).drain fuel st.parse st.pending).map
        fun y => (st.put y.1, y.2.2) := by
  induction fuel generalizing st with
  | zero => rfl
  | succ fuel ih =>
      rw [pskFlightMsgs, Reassembly.drain, pskPull_eq hoff]
      by_cases hshort : st.acc.length - st.accOff < 4
      · rw [if_pos hshort, if_pos hshort]
        rfl
      · rw [if_neg hshort, if_neg hshort]
        dsimp only
        by_cases hlong : st.accOff + 4 + hsMsgLen st.acc st.accOff > pskPlainSz
        · rw [if_pos hlong, if_pos hlong]
          rfl
        · rw [if_neg hlong, if_neg hlong]
          by_cases hmore : st.accOff + 4 + hsMsgLen st.acc st.accOff > st.acc.length
          · rw [if_pos hmore, if_pos hmore]
            rfl
          · rw [if_neg hmore, if_neg hmore]
            have hsize : (slice st.acc st.accOff (4 + hsMsgLen st.acc st.accOff)).length =
                4 + hsMsgLen st.acc st.accOff := slice_length (by omega)
            have hmsg := @pskFlightMsg_eq P sHs st
              (slice st.acc st.accOff (4 + hsMsgLen st.acc st.accOff))
            rw [hsize, ← Nat.add_assoc] at hmsg
            rw [hmsg]
            cases hstep : pskStep P sHs st.parse
                (slice st.acc st.accOff (4 + hsMsgLen st.acc st.accOff)) with
            | error e => rfl
            | ok y =>
                obtain ⟨s', last⟩ := y
                have hoff' := pskStep_off hstep
                rw [hsize] at hoff'
                cases last with
                | true => rfl
                | false =>
                    have hnext := @ih (st.put s') (by
                      change s'.off ≤ st.acc.length
                      rw [hoff']
                      change st.accOff + _ ≤ _
                      omega)
                    have hpending : (st.put s').pending =
                        st.pending.drop (4 + hsMsgLen st.acc st.accOff) := by
                      change st.acc.drop s'.off = (st.acc.drop st.accOff).drop _
                      rw [hoff', List.drop_drop]
                      rfl
                    rw [hpending] at hnext
                    exact hnext

end Psk

/-! ### The certificate flight -/

/-- What the certificate client has parsed. -/
structure CertParse where
  off : Nat
  seen : FlightSeen
  tc : Transcript
  spki : Bytes
  deriving DecidableEq

def CertFlight.parse (st : CertFlight) : CertParse := ⟨st.off, st.seen, st.tc, st.spki⟩

/-- The bytes that were not parsed yet. -/
def CertFlight.pending (st : CertFlight) : Bytes := st.acc.drop st.off

def CertFlight.put (st : CertFlight) (s : CertParse) : CertFlight :=
  { st with off := s.off, seen := s.seen, tc := s.tc, spki := s.spki }

section Cert

variable {P : Platform} {X : X509Backend} {args : CertArgs} {sHs : Bytes}

variable (P X args sHs) in
def certStep (s : CertParse) (msg : Bytes) : Except Err (CertParse × Bool) :=
  (certFlightMsg P X args sHs ⟨[], s.off, 0, s.seen, s.tc, s.spki⟩ msg).map
    fun x => ({ x.1.parse with off := x.1.off + msg.length }, x.2)

variable (P X args sHs) in
/-- The reassembly of the certificate client. -/
def certReassembly : Reassembly CertParse Err :=
  .framed 4 (by decide) hsBodyLen (fun _ _ => none) (certStep P X args sHs)

variable (P X args sHs) in
/-- A message of the certificate flight after the checks on its order. -/
def certFlightBody (st : CertFlight) (seen : FlightSeen) (msg : Bytes) :
    Except Err (CertFlight × Bool) := do
  let mType := msg.getD 0 0
  let body := msg.drop 4
  let th ← certFlightSnapshot P st.tc mType
  let tc ← st.tc.update P msg
  let st := { st with seen := seen, tc := tc }
  if mType = hsCertificate then do
    let st ← certFlightCertificate P X args st body
    pure (st, false)
  else if mType = hsCertVerify then do
    certFlightVerify P X st th body
    pure (st, false)
  else if mType = hsFinished then do
    certFlightFinished P sHs st th body
    pure (st, true)
  else
    pure (st, false)

theorem certFlightMsg_body (st : CertFlight) (msg : Bytes) :
    certFlightMsg P X args sHs st msg =
      (flightOrder (msg.getD 0 0) st.seen >>= fun seen =>
        (if msg.getD 0 0 = hsEncryptedExt then checkEncExt (msg.drop 4) args.sniOffered
          else pure ()) >>= fun _ => certFlightBody P X args sHs st seen msg) := by
  unfold certFlightMsg
  dsimp only
  congr 1
  funext seen
  by_cases hee : msg.getD 0 0 = hsEncryptedExt
  · rw [if_pos hee, if_pos hee]
    rfl
  · rw [if_neg hee, if_neg hee]
    rfl

theorem certFlightBody_eq (st : CertFlight) (seen : FlightSeen) (msg : Bytes) :
    (certFlightBody P X args sHs st seen msg).map
        (fun x => ({ x.1 with off := x.1.off + msg.length }, x.2)) =
      ((certFlightBody P X args sHs ⟨[], st.off, 0, st.seen, st.tc, st.spki⟩ seen msg).map
        fun x => ({ x.1.parse with off := x.1.off + msg.length }, x.2)).map
          fun x => (st.put x.1, x.2) := by
  unfold certFlightBody
  simp only [except_map_bind]
  congr 1
  funext th
  congr 1
  funext tc
  split
  · unfold certFlightCertificate
    simp only [except_map_bind, bind_assoc]
    rfl
  · split
    · simp only [except_map_bind]
      rfl
    · split
      · simp only [except_map_bind]
        rfl
      · rfl

/-- A message only moves what was parsed. -/
theorem certFlightMsg_eq (st : CertFlight) (msg : Bytes) :
    (certFlightMsg P X args sHs st msg).map
        (fun x => ({ x.1 with off := x.1.off + msg.length }, x.2)) =
      (certStep P X args sHs st.parse msg).map fun x => (st.put x.1, x.2) := by
  unfold certStep
  rw [certFlightMsg_body, certFlightMsg_body]
  simp only [except_map_bind]
  congr 1
  funext seen
  congr 1
  funext _
  exact certFlightBody_eq st seen msg

theorem certFlightBody_off {st st' : CertFlight} {seen : FlightSeen} {msg : Bytes} {last : Bool}
    (h : certFlightBody P X args sHs st seen msg = .ok (st', last)) : st'.off = st.off := by
  unfold certFlightBody at h
  simp only [except_bind_eq_ok] at h
  obtain ⟨_, -, _, -, h⟩ := h
  split at h
  · unfold certFlightCertificate at h
    simp only [except_bind_eq_ok] at h
    obtain ⟨st₁, ⟨_, -, _, -, heq'⟩, heq⟩ := h
    cases heq'
    cases heq
    rfl
  · split at h
    · obtain ⟨_, -, heq⟩ := except_bind_eq_ok.1 h
      cases heq
      rfl
    · split at h
      · obtain ⟨_, -, heq⟩ := except_bind_eq_ok.1 h
        cases heq
        rfl
      · cases h
        rfl

theorem certStep_off {s s' : CertParse} {msg : Bytes} {last : Bool}
    (h : certStep P X args sHs s msg = .ok (s', last)) : s'.off = s.off + msg.length := by
  unfold certStep at h
  rw [certFlightMsg_body] at h
  simp only [except_map_bind, except_bind_eq_ok] at h
  obtain ⟨seen, -, _, -, h⟩ := h
  cases hbody : certFlightBody P X args sHs ⟨[], s.off, 0, s.seen, s.tc, s.spki⟩ seen msg with
  | error e =>
      rw [hbody] at h
      cases h
  | ok x =>
      rw [hbody] at h
      cases h
      change x.1.off + msg.length = _
      rw [certFlightBody_off hbody]

theorem certPull_msg {s s' : CertParse} {p : Bytes} {n : Nat} {last : Bool} :
    (certReassembly P X args sHs).pull s p = .msg n s' last ↔
      4 ≤ p.length ∧ n = 4 + hsBodyLen (p.take 4) ∧ n ≤ p.length ∧
        certStep P X args sHs s (p.take n) = .ok (s', last) := by
  unfold certReassembly
  rw [Reassembly.framed_msg]
  simp only [true_and]

/-- The front message of the accumulator. -/
theorem certPull_eq {st : CertFlight} (hoff : st.off ≤ st.acc.length) :
    (certReassembly P X args sHs).pull st.parse st.pending =
      if st.acc.length - st.off < 4 then .wait
      else
        let mLen := hsMsgLen st.acc st.off
        if st.off + 4 + mLen > st.acc.length then .wait
        else
          match certStep P X args sHs st.parse (slice st.acc st.off (4 + mLen)) with
          | .error e => .fail e
          | .ok (s', last) => .msg (4 + mLen) s' last := by
  have hlen : st.pending.length = st.acc.length - st.off := List.length_drop
  have hhdr : hsBodyLen (st.pending.take 4) = hsMsgLen st.acc st.off := hsBodyLen_at ..
  unfold certReassembly Reassembly.framed
  dsimp only
  unfold Reassembly.framedPull
  rw [hlen, hhdr]
  by_cases hshort : st.acc.length - st.off < 4
  · rw [if_pos hshort, if_pos hshort]
  · rw [if_neg hshort, if_neg hshort]
    dsimp only
    by_cases hmore : st.off + 4 + hsMsgLen st.acc st.off > st.acc.length
    · rw [if_pos hmore, if_pos (by omega)]
    · have hslice : st.pending.take (4 + hsMsgLen st.acc st.off) =
          slice st.acc st.off (4 + hsMsgLen st.acc st.off) := rfl
      rw [if_neg hmore, if_neg (by omega), hslice]
      cases certStep P X args sHs st.parse (slice st.acc st.off (4 + hsMsgLen st.acc st.off)) with
      | error e => rfl
      | ok y => rfl

/-- The loop over the accumulator is the drain of the reassembly. -/
theorem certFlightMsgs_eq {fuel : Nat} {st : CertFlight} (hoff : st.off ≤ st.acc.length) :
    certFlightMsgs P X args sHs fuel st =
      ((certReassembly P X args sHs).drain fuel st.parse st.pending).map
        fun y => (st.put y.1, y.2.2) := by
  induction fuel generalizing st with
  | zero => rfl
  | succ fuel ih =>
      rw [certFlightMsgs, Reassembly.drain, certPull_eq hoff]
      by_cases hshort : st.acc.length - st.off < 4
      · rw [if_pos hshort, if_pos hshort]
        rfl
      · rw [if_neg hshort, if_neg hshort]
        dsimp only
        by_cases hmore : st.off + 4 + hsMsgLen st.acc st.off > st.acc.length
        · rw [if_pos hmore, if_pos hmore]
          rfl
        · rw [if_neg hmore, if_neg hmore]
          have hsize : (slice st.acc st.off (4 + hsMsgLen st.acc st.off)).length =
              4 + hsMsgLen st.acc st.off := slice_length (by omega)
          have hmsg := @certFlightMsg_eq P X args sHs st
            (slice st.acc st.off (4 + hsMsgLen st.acc st.off))
          rw [hsize] at hmsg
          cases hone : certFlightMsg P X args sHs st
              (slice st.acc st.off (4 + hsMsgLen st.acc st.off)) with
          | error e =>
              rw [hone] at hmsg
              cases hstep : certStep P X args sHs st.parse
                  (slice st.acc st.off (4 + hsMsgLen st.acc st.off)) with
              | error e' =>
                  rw [hstep] at hmsg
                  cases hmsg
                  rfl
              | ok y =>
                  rw [hstep] at hmsg
                  cases hmsg
          | ok x =>
              obtain ⟨st₁, fin⟩ := x
              rw [hone] at hmsg
              cases hstep : certStep P X args sHs st.parse
                  (slice st.acc st.off (4 + hsMsgLen st.acc st.off)) with
              | error e' =>
                  rw [hstep] at hmsg
                  cases hmsg
              | ok y =>
                  obtain ⟨s', last⟩ := y
                  rw [hstep] at hmsg
                  simp only [Except.map, Except.ok.injEq, Prod.mk.injEq] at hmsg
                  obtain ⟨hst, rfl⟩ := hmsg
                  have hoff' := certStep_off hstep
                  rw [hsize] at hoff'
                  rw [← Nat.add_assoc] at hst
                  change (if fin = true then Except.ok
                      (({ st₁ with off := st₁.off + 4 + hsMsgLen st.acc st.off } : CertFlight),
                        true)
                    else certFlightMsgs P X args sHs fuel
                      { st₁ with off := st₁.off + 4 + hsMsgLen st.acc st.off }) = _
                  rw [hst]
                  cases fin with
                  | true => rfl
                  | false =>
                      have hnext := @ih (st.put s') (by
                        change s'.off ≤ st.acc.length
                        rw [hoff']
                        change st.off + _ ≤ _
                        omega)
                      have hpending : (st.put s').pending =
                          st.pending.drop (4 + hsMsgLen st.acc st.off) := by
                        change st.acc.drop s'.off = (st.acc.drop st.off).drop _
                        rw [hoff', List.drop_drop]
                        rfl
                      rw [hpending] at hnext
                      exact hnext

end Cert

end WolfNano
