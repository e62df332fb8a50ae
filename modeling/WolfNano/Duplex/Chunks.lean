/-
A stream that comes in pieces.  A read callback stores some of the bytes it is asked for;
a loop calls it until all of them are there.  Whatever the pieces are, the loop reads like
a tape, so a program cannot tell two callbacks apart that deliver one stream.
-/
import WolfNano.Duplex.Tape

namespace Duplex

variable {ν α σ τ : Type}

/-! ### Two transports that look the same -/

/-- Related states answer every request in the same way, and stay related. -/
structure Handler.Matches (h : Handler σ) (h' : Handler τ) (R : σ → τ → Prop) : Prop where
  send : ∀ s t buf, R s t →
    (h.send s buf).1 = (h'.send t buf).1 ∧ R (h.send s buf).2 (h'.send t buf).2
  recv : ∀ s t n, R s t →
    (h.recv s n).1 = (h'.recv t n).1 ∧ R (h.recv s n).2 (h'.recv t n).2

/-- Two runs come to an end with one result and one trace, in related states, or neither
comes to an end. -/
def SameRun (R : σ → τ → Prop) :
    Option (α × σ × List (Act ν)) → Option (α × τ × List (Act ν)) → Prop :=
  Option.Rel fun x y => x.1 = y.1 ∧ x.2.2 = y.2.2 ∧ R x.2.1 y.2.1

section SameRun

variable {R : σ → τ → Prop} {a : Act ν}
  {x : Option (α × σ × List (Act ν))} {y : Option (α × τ × List (Act ν))}

theorem SameRun.cons (h : SameRun R x y) :
    SameRun R (x.map fun z => (z.1, z.2.1, a :: z.2.2))
      (y.map fun z => (z.1, z.2.1, a :: z.2.2)) := by
  cases h with
  | none => exact .none
  | some h =>
      have ⟨hvalue, htrace, hstate⟩ := h
      exact .some ⟨hvalue, congrArg (a :: ·) htrace, hstate⟩

/-- Through a third transport. -/
theorem SameRun.join {ρ : Type} {S : ρ → τ → Prop} {z : Option (α × ρ × List (Act ν))}
    (h : SameRun R x y) (h' : SameRun S z y) :
    SameRun (fun s r => ∃ t, R s t ∧ S r t) x z := by
  cases h with
  | none =>
      cases h'
      exact .none
  | some h =>
      cases h' with
      | some h' =>
          have ⟨hvalue, htrace, hstate⟩ := h
          have ⟨hvalue', htrace', hstate'⟩ := h'
          exact .some ⟨hvalue.trans hvalue'.symm, htrace.trans htrace'.symm, _, hstate, hstate'⟩

end SameRun

/-- A program does not tell matching transports apart. -/
theorem Proc.exec_matches {h : Handler σ} {h' : Handler τ} {R : σ → τ → Prop}
    (hm : h.Matches h' R) {p : Proc ν α} {s : σ} {t : τ} (hst : R s t) :
    SameRun R (p.exec h s) (p.exec h' t) := by
  induction p generalizing s t with
  | done a => exact .some ⟨rfl, rfl, hst⟩
  | spin => exact .none
  | note e k ih => exact (ih hst).cons
  | send buf k ih =>
      obtain ⟨hanswer, hnext⟩ := hm.send s t buf hst
      have hrest := ih (h.send s buf).1 hnext
      rw [exec, exec, ← hanswer]
      exact hrest.cons
  | recv n k ih =>
      obtain ⟨hanswer, hnext⟩ := hm.recv s t n hst
      rw [exec, exec]
      generalize h.recv s n = got at hanswer hnext
      generalize h'.recv t n = got' at hanswer hnext
      obtain ⟨b, s'⟩ := got
      obtain ⟨b', t'⟩ := got'
      obtain rfl : b = b' := hanswer
      cases b with
      | none => exact (ih none hnext).cons
      | some b => exact (ih (some b.1) hnext).cons

/-- An outcome on one transport is the outcome on a matching one. -/
theorem Proc.eval_matches {h : Handler σ} {h' : Handler τ} {R : σ → τ → Prop}
    (hm : h.Matches h' R) {p : Proc ν α} {s : σ} {t t' : τ} {a : α} (hst : R s t)
    (heval : p.eval h' t = some (a, t')) : ∃ s', p.eval h s = some (a, s') ∧ R s' t' := by
  have hrun := exec_matches hm (p := p) hst
  have ⟨⟨a', t₁, tr⟩, hexec, heq⟩ := Option.map_eq_some_iff.1 heval
  cases heq
  rw [hexec] at hrun
  unfold eval
  generalize p.exec h s = run at hrun ⊢
  cases hrun with
  | @some y _ hsame =>
      have ⟨hvalue, _, hstate⟩ := hsame
      exact ⟨y.2.1, congrArg (fun v => some (v, y.2.1)) hvalue, hstate⟩

/-! ### A callback and its loop -/

/-- What a call of a read callback returns, and the bytes it has stored. -/
structure Reply where
  ret : Int
  bytes : Bytes

/-- The two callbacks of a transport, over the state behind them. -/
structure Transport (τ : Type) where
  read : τ → Nat → Reply × τ
  send : τ → Bytes → Int × τ

namespace Transport

/-- Read `n` bytes into `buf` from `off` on, `got` of which are there; whether all of them
came. -/
def fill (T : Transport τ) : Nat → Nat → Nat → Nat → Bytes → τ → Option (Bool × Bytes × τ)
  | 0, _, _, _, _, _ => none
  | fuel + 1, n, got, off, buf, x =>
      if got < n then
        let (reply, x) := T.read x (n - got)
        let buf := splice buf (off + got) reply.bytes
        if reply.ret ≤ 0 then
          some (false, buf, x)
        else
          T.fill fuel n (got + reply.ret.toNat) off buf x
      else
        some (true, buf, x)

/-- Reads of exactly `n` bytes, by the loop. -/
def handler (T : Transport τ) : Handler τ where
  send := T.send
  recv x n :=
    match T.fill (n + 1) n 0 0 (zeros n) x with
    | some (true, buf, x') => (if h : buf.length = n then some ⟨buf, h⟩ else none, x')
    | some (false, _, x') => (none, x')
    | none => (none, x)

/-- Related states deliver what is on the tape: a read stores between one byte and all it
was asked for, and stores nothing only when nothing is left. -/
structure Feeds (T : Transport τ) (answer : σ → Bytes → Int × σ) (R : τ → Tape σ → Prop) :
    Prop where
  send : ∀ x t buf, R x t →
    (T.send x buf).1 = (answer t.state buf).1 ∧
      R (T.send x buf).2 { t with state := (answer t.state buf).2 }
  read_pos : ∀ x t n, R x t → 0 < n → 0 < (T.read x n).1.ret →
    (T.read x n).1.ret ≤ n ∧
      (T.read x n).1.bytes = t.bytes.take (T.read x n).1.ret.toNat ∧
      (T.read x n).1.ret ≤ t.bytes.length ∧
      R (T.read x n).2 { t with bytes := t.bytes.drop (T.read x n).1.ret.toNat }
  read_end : ∀ x t n, R x t → 0 < n → (T.read x n).1.ret ≤ 0 →
    t.bytes = [] ∧ (T.read x n).1.bytes = [] ∧ R (T.read x n).2 t

/-- From this state the callbacks deliver the tape, in whatever pieces. -/
def Delivers (T : Transport τ) (answer : σ → Bytes → Int × σ) (x : τ) (t : Tape σ) : Prop :=
  ∃ R, T.Feeds answer R ∧ R x t

section Loop

variable {T : Transport τ} {answer : σ → Bytes → Int × σ} {R : τ → Tape σ → Prop}

theorem delivers_feeds : T.Feeds answer (T.Delivers answer) where
  send := by
    rintro x t buf ⟨R, hR, hx⟩
    have ⟨hanswer, hnext⟩ := hR.send x t buf hx
    exact ⟨hanswer, R, hR, hnext⟩
  read_pos := by
    rintro x t n ⟨R, hR, hx⟩ hn hpos
    have ⟨hle, hbytes, hthere, hnext⟩ := hR.read_pos x t n hx hn hpos
    exact ⟨hle, hbytes, hthere, R, hR, hnext⟩
  read_end := by
    rintro x t n ⟨R, hR, hx⟩ hn hend
    have ⟨hnil, hbytes, hnext⟩ := hR.read_end x t n hx hn hend
    exact ⟨hnil, hbytes, R, hR, hnext⟩

theorem splice_nil (buf : Bytes) (off : Nat) : splice buf off [] = buf := by
  rw [splice, List.append_nil]
  exact List.take_append_drop off buf

/-- Two stores, one right after the other. -/
theorem splice_splice {buf a b : Bytes} {off : Nat} (hoff : off ≤ buf.length) :
    splice (splice buf off a) (off + a.length) b = splice buf off (a ++ b) := by
  have hpre : (buf.take off ++ a).length = off + a.length := by
    rw [List.length_append, List.length_take_of_le hoff]
  have htake : (splice buf off a).take (off + a.length) = buf.take off ++ a := by
    rw [splice, ← hpre, List.take_left]
  have hdrop : (splice buf off a).drop (off + a.length + b.length) =
      buf.drop (off + a.length + b.length) := by
    rw [splice, ← hpre, ← List.drop_drop, List.drop_left, List.drop_drop]
  rw [splice, htake, hdrop, splice, List.length_append, List.append_assoc (buf.take off),
    Nat.add_assoc]

/-- The loop, in any state of it: it stores the bytes that are still asked for, as far as
there are any, and leaves the rest on the tape. -/
theorem fill_eq (hR : T.Feeds answer R) {fuel n got off : Nat} {buf : Bytes} {x : τ} {t : Tape σ}
    (hx : R x t) (hgot : got ≤ n) (hfuel : n - got < fuel) (hbuf : off + n ≤ buf.length) :
    ∃ x', T.fill fuel n got off buf x =
        some (decide (n - got ≤ t.bytes.length),
          splice buf (off + got) (t.bytes.take (n - got)), x') ∧
      R x' { t with bytes := t.bytes.drop (n - got) } := by
  induction fuel generalizing got buf x t with
  | zero => exact absurd hfuel (Nat.not_lt_zero _)
  | succ fuel ih =>
      by_cases hmore : got < n
      · have hasked : 0 < n - got := Nat.sub_pos_of_lt hmore
        rw [fill, if_pos hmore]
        have hend := hR.read_end x t (n - got) hx hasked
        have hpos := hR.read_pos x t (n - got) hx hasked
        generalize T.read x (n - got) = got' at hend hpos ⊢
        obtain ⟨⟨ret, piece⟩, x₁⟩ := got'
        dsimp only at hend hpos ⊢
        by_cases hret : ret ≤ 0
        · have ⟨hnil, hnone, hnext⟩ := hend hret
          rw [if_pos hret, hnone, hnil, List.take_nil, List.drop_nil, List.length_nil,
            decide_eq_false (Nat.not_le.2 hasked)]
          refine ⟨x₁, rfl, ?_⟩
          rw [← hnil]
          exact hnext
        · have ⟨hle, hpiece, hthere, hnext⟩ := hpos (Int.not_le.1 hret)
          rw [if_neg hret]
          obtain ⟨k, rfl⟩ := Int.eq_ofNat_of_zero_le (Int.le_of_lt (Int.not_le.1 hret))
          rw [Int.toNat_natCast] at hpiece hnext ⊢
          have hkpos : 0 < k := by omega
          have hkle : k ≤ n - got := by omega
          have hkthere : k ≤ t.bytes.length := by omega
          have hlen : piece.length = k := by
            rw [hpiece]
            exact List.length_take_of_le hkthere
          have hsize : (splice buf (off + got) piece).length = buf.length := by
            apply splice_length_of_le
            omega
          have ⟨x', hrest, hx'⟩ := @ih (got + k) (splice buf (off + got) piece) x₁ _ hnext
            (by omega) (by omega) (by rw [hsize]; exact hbuf)
          have hcount : n - (got + k) = n - got - k := by omega
          have hall : (n - (got + k) ≤ (t.bytes.drop k).length) ↔ n - got ≤ t.bytes.length := by
            rw [List.length_drop]
            omega
          have hstored : splice (splice buf (off + got) piece) (off + (got + k))
              ((t.bytes.drop k).take (n - (got + k))) =
                splice buf (off + got) (t.bytes.take (n - got)) := by
            rw [← Nat.add_assoc off, ← hlen, splice_splice (by omega), hlen, hpiece, hcount,
              ← List.take_add, Nat.add_sub_cancel' hkle]
          refine ⟨x', ?_, ?_⟩
          · rw [hrest, hstored, decide_eq_decide.2 hall]
          · rw [List.drop_drop, hcount, Nat.add_sub_cancel' hkle] at hx'
            exact hx'
      · have hall : n - got = 0 := by omega
        rw [fill, if_neg hmore, hall, List.take_zero, splice_nil, decide_eq_true (Nat.zero_le _)]
        exact ⟨x, rfl, hx⟩

/-- The loop reads like the tape. -/
theorem Feeds.matches (hR : T.Feeds answer R) : T.handler.Matches (Tape.handler answer) R where
  send x t buf hx := hR.send x t buf hx
  recv x t n hx := by
    have ⟨x', hfill, hx'⟩ := @fill_eq σ τ T answer R hR (n + 1) n 0 0 (zeros n) x t hx
      (Nat.zero_le n) (by omega) (by rw [zeros_length]; omega)
    rw [Nat.sub_zero] at hfill hx'
    by_cases hn : n ≤ t.bytes.length
    · have hlen : (t.bytes.take n).length = n := List.length_take_of_le hn
      have hbuf : splice (zeros n) (0 + 0) (t.bytes.take n) = t.bytes.take n := by
        rw [splice, hlen, List.drop_eq_nil_of_le (by rw [zeros_length]; omega), List.append_nil]
        rfl
      rw [decide_eq_true hn, hbuf] at hfill
      simp only [handler, hfill, hlen, Tape.handler, dif_pos hn, dite_true]
      exact ⟨trivial, hx'⟩
    · rw [decide_eq_false hn] at hfill
      rw [List.drop_eq_nil_of_le (by omega)] at hx'
      simp only [handler, hfill, Tape.handler, dif_neg hn]
      exact ⟨trivial, hx'⟩

/-- Two transports that deliver one tape run every program in the same way, and the same is
left of the tape. -/
theorem exec_delivers {ρ : Type} {T' : Transport ρ} {x : τ} {x' : ρ} {t : Tape σ}
    (h : T.Delivers answer x t) (h' : T'.Delivers answer x' t) (p : Proc ν α) :
    SameRun (fun y y' => ∃ t', T.Delivers answer y t' ∧ T'.Delivers answer y' t')
      (p.exec T.handler x) (p.exec T'.handler x') := by
  have hrun := Proc.exec_matches (@delivers_feeds σ τ T answer).matches (p := p) h
  have hrun' := Proc.exec_matches (@delivers_feeds σ ρ T' answer).matches (p := p) h'
  exact hrun.join hrun'

end Loop

/-! ### Pieces of any sizes -/

/-- The stream that is left and the number of calls made, of which the `i`-th gets
`size i` bytes if it can; everything that is sent is taken. -/
def pieces (size : Nat → Nat) : Transport (Bytes × Nat) where
  read x n :=
    let k := min (max 1 (size x.2)) (min n x.1.length)
    (⟨k, x.1.take k⟩, (x.1.drop k, x.2 + 1))
  send x buf := (buf.length, x)

theorem pieces_delivers (size : Nat → Nat) (stream : Bytes) (i : Nat) :
    (pieces size).Delivers (fun (u : Unit) buf => (buf.length, u)) (stream, i) ⟨stream, ()⟩ := by
  refine ⟨fun x t => x.1 = t.bytes, ?_, rfl⟩
  constructor
  · intro x t buf hx
    exact ⟨rfl, hx⟩
  · rintro ⟨rest, i⟩ ⟨stream, u⟩ n hx hn hpos
    obtain rfl : rest = stream := hx
    have hpiece : min (max 1 (size i)) (min n rest.length) ≤ min n rest.length :=
      Nat.min_le_right _ _
    refine ⟨?_, rfl, ?_, rfl⟩
    · exact Int.ofNat_le.2 (Nat.le_trans hpiece (Nat.min_le_left _ _))
    · exact Int.ofNat_le.2 (Nat.le_trans hpiece (Nat.min_le_right _ _))
  · rintro ⟨rest, i⟩ ⟨stream, u⟩ n hx hn hend
    obtain rfl : rest = stream := hx
    have hzero : min (max 1 (size i)) (min n rest.length) = 0 :=
      Nat.eq_zero_of_le_zero (Int.ofNat_le.1 hend)
    have hnil : rest = [] := by
      apply List.length_eq_zero_iff.1
      omega
    subst hnil
    refine ⟨rfl, List.take_nil, ?_⟩
    exact List.drop_nil

end Transport

end Duplex
