/-
The guards of the wire primitives in 32-bit arithmetic.  A request is refused when
the sum of position and size, reduced modulo 2^32, is beyond the end; so the
primitives are safe exactly as long as no such sum reaches 2^32.
-/
import Mathlib.Data.UInt
import WolfNano.Wire

namespace WolfNano

open Duplex

/-! ### A position and its guard -/

/-- What a reader and a writer have in common: a position in a buffer with an end. -/
structure BufPos where
  pos : Nat
  limit : Nat
  err : Bool
  deriving DecidableEq

/-- What is asked of it; `null` is a request with a NULL source. -/
inductive Request where
  | u8
  | u16
  | u24
  | bytes (n : UInt32)
  | null (n : UInt32)
  deriving DecidableEq

namespace Request

def size : Request → Nat
  | u8 => 1
  | u16 => 2
  | u24 => 3
  | bytes n => n.toNat
  | null n => n.toNat

theorem size_lt (q : Request) : q.size < 2 ^ 32 := by
  cases q with
  | u8 => decide
  | u16 => decide
  | u24 => decide
  | bytes n => exact n.toNat_lt
  | null n => exact n.toNat_lt

/-- The guard of the primitive. -/
def Passes (q : Request) (c : BufPos) : Prop :=
  c.err = false ∧
    match q with
    | u8 => c.pos < c.limit
    | null n => n = 0 ∧ add32 c.pos n.toNat ≤ c.limit
    | q => add32 c.pos q.size ≤ c.limit

instance (q : Request) (c : BufPos) : Decidable (q.Passes c) := by
  unfold Passes
  cases q with
  | u8 => exact instDecidableAnd
  | u16 => exact instDecidableAnd
  | u24 => exact instDecidableAnd
  | bytes n => exact instDecidableAnd
  | null n => exact instDecidableAnd

/-- Where it leaves the position; `wn_Read_U8` and `wn_Write_U8` only increment it. -/
def target (q : Request) (c : BufPos) : Nat :=
  if q = u8 then c.pos + 1 else add32 c.pos q.size

def step (q : Request) (c : BufPos) : BufPos :=
  if q.Passes c then { c with pos := q.target c } else { c with err := true }

/-- The request reads or writes the byte with this index. -/
def Touches (q : Request) (c : BufPos) (i : Nat) : Prop :=
  q.Passes c ∧
    match q with
    | u8 => i = c.pos
    | u16 => i = c.pos ∨ i = add32 c.pos 1
    | u24 => i = c.pos ∨ i = add32 c.pos 1 ∨ i = add32 c.pos 2
    | bytes n => c.pos ≤ i ∧ i < c.pos + n.toNat
    | null n => c.pos ≤ i ∧ i < c.pos + n.toNat

/-- The position stays in the buffer and does not go back, only bytes of the buffer are
touched, and a request that does not fit latches the error. -/
structure Safe (q : Request) (c : BufPos) : Prop where
  pos_le : (q.step c).pos ≤ c.limit
  pos_mono : c.pos ≤ (q.step c).pos
  inside : ∀ i, q.Touches c i → i < c.limit
  latches : c.limit < c.pos + q.size → (q.step c).err = true

/-- The sum the guard makes does not wrap, or none is made before the request is refused. -/
def NoWrap (q : Request) (c : BufPos) : Prop :=
  c.err = true ∨ q = u8 ∨ (∃ n, q = null n) ∨ c.pos + q.size < 2 ^ 32

section Step

variable {q : Request} {c : BufPos}

@[simp] theorem step_limit : (q.step c).limit = c.limit := by
  unfold step
  split <;> rfl

theorem safe_refused (hpos : c.pos ≤ c.limit) (h : ¬ q.Passes c) : q.Safe c := by
  have hstep : q.step c = { c with err := true } := if_neg h
  refine ⟨?_, ?_, fun i hi => absurd hi.1 h, fun _ => ?_⟩
  · rw [hstep]
    exact hpos
  · rw [hstep]
  · rw [hstep]

/-- A request that moves to the sum itself is safe when the sum is in the buffer. -/
theorem safe_passed (hpass : q.Passes c) (htarget : q.target c = c.pos + q.size)
    (hfits : c.pos + q.size ≤ c.limit) (hlimit : c.limit < 2 ^ 32) : q.Safe c := by
  have hstep : q.step c = { c with pos := c.pos + q.size } := by
    rw [step, if_pos hpass, htarget]
  refine ⟨?_, ?_, ?_, fun hbig => absurd hfits (Nat.not_le.2 hbig)⟩
  · rw [hstep]
    exact hfits
  · rw [hstep]
    exact Nat.le_add_right _ _
  · rintro i ⟨-, hi⟩
    cases q with
    | u8 =>
        change c.pos + 1 ≤ c.limit at hfits
        change i = c.pos at hi
        omega
    | u16 =>
        change c.pos + 2 ≤ c.limit at hfits
        change i = c.pos ∨ i = add32 c.pos 1 at hi
        rw [add32_eq (by omega)] at hi
        omega
    | u24 =>
        change c.pos + 3 ≤ c.limit at hfits
        change i = c.pos ∨ i = add32 c.pos 1 ∨ i = add32 c.pos 2 at hi
        rw [add32_eq (by omega), add32_eq (by omega)] at hi
        omega
    | bytes n => exact Nat.lt_of_lt_of_le hi.2 hfits
    | null n => exact Nat.lt_of_lt_of_le hi.2 hfits

/-- The sum wraps to a place before the position. -/
theorem add32_wrapped {p n limit : Nat} (hp : p ≤ limit) (hlimit : limit < 2 ^ 32)
    (hn : n < 2 ^ 32) (h : 2 ^ 32 ≤ p + n) : add32 p n < p := by
  rw [add32, Nat.mod_eq_sub_mod h, Nat.mod_eq_of_lt (by omega)]
  omega

/-- A wrapped sum passes the guard and takes the position back. -/
theorem not_safe_wrapped (hlimit : c.limit < 2 ^ 32) (hpos : c.pos ≤ c.limit)
    (h : ¬ q.NoWrap c) : ¬ q.Safe c := by
  intro hsafe
  rw [NoWrap, not_or, not_or, not_or] at h
  obtain ⟨herr, hu8, hnull, hbig⟩ := h
  rw [Bool.not_eq_true] at herr
  have hback := add32_wrapped hpos hlimit q.size_lt (Nat.not_lt.1 hbig)
  have hle : add32 c.pos q.size ≤ c.limit := Nat.le_trans (Nat.le_of_lt hback) hpos
  have hpass : q.Passes c := by
    cases q with
    | u8 => exact absurd rfl hu8
    | u16 => exact ⟨herr, hle⟩
    | u24 => exact ⟨herr, hle⟩
    | bytes n => exact ⟨herr, hle⟩
    | null n => exact absurd ⟨n, rfl⟩ hnull
  have hmono := hsafe.pos_mono
  rw [step, if_pos hpass, target, if_neg hu8] at hmono
  exact absurd hmono (Nat.not_le.2 hback)

/-- At a position in the buffer, a request is safe exactly when its sum does not wrap. -/
theorem safe_iff (hlimit : c.limit < 2 ^ 32) (hpos : c.pos ≤ c.limit) : q.Safe c ↔ q.NoWrap c := by
  constructor
  · intro hsafe
    by_contra hwrap
    exact not_safe_wrapped hlimit hpos hwrap hsafe
  · intro h
    by_cases hpass : q.Passes c
    · have hzero : c.pos < 2 ^ 32 := Nat.lt_of_le_of_lt hpos hlimit
      cases q with
      | u8 => exact safe_passed hpass rfl hpass.2 hlimit
      | null n =>
          obtain ⟨herr, rfl, hle⟩ := hpass
          have hpass : (null 0).Passes c := ⟨herr, rfl, hle⟩
          exact safe_passed hpass (add32_eq hzero) hpos hlimit
      | u16 | u24 | bytes n =>
          have hsum := ((h.resolve_left (by rw [hpass.1]; decide)).resolve_left nofun).resolve_left
            nofun
          have hle := hpass.2
          have hadd := add32_eq hsum
          exact safe_passed hpass hadd (hadd ▸ hle) hlimit
    · exact safe_refused hpos hpass

end Step

/-! ### Runs of requests -/

/-- The cursor after a run of requests. -/
def stepAll : List Request → BufPos → BufPos
  | [], c => c
  | q :: qs, c => stepAll qs (q.step c)

/-- A property of every request of a run, at the state it finds. -/
def AllAlong (P : Request → BufPos → Prop) : List Request → BufPos → Prop
  | [], _ => True
  | q :: qs, c => P q c ∧ AllAlong P qs (q.step c)

/-- In a run from a position in the buffer, all requests are safe exactly when no sum wraps. -/
theorem allAlong_safe_iff {qs : List Request} {c : BufPos} (hlimit : c.limit < 2 ^ 32)
    (hpos : c.pos ≤ c.limit) : AllAlong Safe qs c ↔ AllAlong NoWrap qs c := by
  induction qs generalizing c with
  | nil => exact Iff.rfl
  | cons q qs ih =>
      have hone := @safe_iff q c hlimit hpos
      have hnext : q.Safe c → (AllAlong Safe qs (q.step c) ↔ AllAlong NoWrap qs (q.step c)) := by
        intro hsafe
        apply ih
        · rw [step_limit]
          exact hlimit
        · rw [step_limit]
          exact hsafe.pos_le
      constructor
      · rintro ⟨hsafe, hrest⟩
        exact ⟨hone.1 hsafe, (hnext hsafe).1 hrest⟩
      · rintro ⟨hwrap, hrest⟩
        exact ⟨hone.2 hwrap, (hnext (hone.2 hwrap)).2 hrest⟩

end Request

/-! ### The primitives are such requests -/

def Reader.cursor (r : Reader) : BufPos := ⟨r.pos, r.buf.length, r.err⟩

def Writer.cursor (w : Writer) : BufPos := ⟨w.len, w.cap, w.err⟩

/-- A call of a read primitive. -/
inductive ReadCall where
  | u8
  | u16
  | u24
  | bytes (n : UInt32)
  deriving DecidableEq

namespace ReadCall

def run (r : Reader) : ReadCall → Reader
  | u8 => r.u8.2
  | u16 => r.u16.2
  | u24 => r.u24.2
  | bytes n => (r.bytes n.toNat).2

def request : ReadCall → Request
  | u8 => .u8
  | u16 => .u16
  | u24 => .u24
  | bytes n => .bytes n

theorem run_cursor (call : ReadCall) (r : Reader) :
    (call.run r).cursor = call.request.step r.cursor := by
  obtain ⟨buf, pos, err⟩ := r
  cases err with
  | true => cases call <;> rfl
  | false =>
      cases call with
      | u8 =>
          by_cases h : pos < buf.length
          · simp [run, request, Request.step, Request.Passes, Request.target, Reader.u8,
              Reader.cursor, h]
          · simp [run, request, Request.step, Request.Passes, Reader.u8, Reader.cursor,
              Reader.fail, h]
      | u16 =>
          by_cases h : add32 pos 2 ≤ buf.length
          · simp [run, request, Request.step, Request.Passes, Request.target, Request.size,
              Reader.u16, Reader.uint, Reader.cursor, h]
          · simp [run, request, Request.step, Request.Passes, Request.size, Reader.u16,
              Reader.uint, Reader.cursor, Reader.fail, h]
      | u24 =>
          by_cases h : add32 pos 3 ≤ buf.length
          · simp [run, request, Request.step, Request.Passes, Request.target, Request.size,
              Reader.u24, Reader.uint, Reader.cursor, h]
          · simp [run, request, Request.step, Request.Passes, Request.size, Reader.u24,
              Reader.uint, Reader.cursor, Reader.fail, h]
      | bytes n =>
          by_cases h : add32 pos n.toNat ≤ buf.length
          · simp [run, request, Request.step, Request.Passes, Request.target, Request.size,
              Reader.bytes, Reader.cursor, h]
          · simp [run, request, Request.step, Request.Passes, Request.size, Reader.bytes,
              Reader.cursor, Reader.fail, h]

end ReadCall

/-- A call of a write primitive; `none` is a NULL pointer. -/
inductive WriteCall where
  | u8 (v : UInt8)
  | u16 (v : UInt16)
  | u24 (v : UInt32)
  | bytes (p : Option Bytes) (n : UInt32)
  deriving DecidableEq

namespace WriteCall

def run (w : Writer) : WriteCall → Writer
  | u8 v => w.u8 v.toNat
  | u16 v => w.u16 v.toNat
  | u24 v => w.u24 v.toNat
  | bytes p n => w.bytes p n.toNat

/-- The source holds the bytes that are asked for. -/
def SourceOk : WriteCall → Prop
  | bytes (some p) n => p.length = n.toNat
  | _ => True

def request : WriteCall → Request
  | u8 _ => .u8
  | u16 _ => .u16
  | u24 _ => .u24
  | bytes (some _) n => .bytes n
  | bytes none n => .null n

theorem run_cursor (call : WriteCall) (w : Writer) (hcap : w.cap < 2 ^ 32)
    (hsource : call.SourceOk) : (call.run w).cursor = call.request.step w.cursor := by
  obtain ⟨buf, cap, len, err⟩ := w
  cases err with
  | true => cases call with
      | u8 v => rfl
      | u16 v => rfl
      | u24 v => rfl
      | bytes p n => cases p <;> rfl
  | false =>
      cases call with
      | u8 v =>
          by_cases h : len < cap
          · have hnext : add32 len 1 = len + 1 :=
              add32_eq (Nat.lt_of_le_of_lt (Nat.succ_le_of_lt h) hcap)
            simp [run, request, Request.step, Request.Passes, Request.target, Writer.u8,
              Writer.cursor, Writer.put, h, hnext]
          · simp [run, request, Request.step, Request.Passes, Writer.u8, Writer.cursor,
              Writer.fail, h]
      | u16 v =>
          by_cases h : add32 len 2 ≤ cap
          · simp [run, request, Request.step, Request.Passes, Request.target, Request.size,
              Writer.u16, Writer.cursor, Writer.put, h]
          · simp [run, request, Request.step, Request.Passes, Request.size, Writer.u16,
              Writer.cursor, Writer.fail, h]
      | u24 v =>
          by_cases h : add32 len 3 ≤ cap
          · simp [run, request, Request.step, Request.Passes, Request.target, Request.size,
              Writer.u24, Writer.cursor, Writer.put, h]
          · simp [run, request, Request.step, Request.Passes, Request.size, Writer.u24,
              Writer.cursor, Writer.fail, h]
      | bytes p n =>
          cases p with
          | none =>
              by_cases hn : n = 0
              · subst hn
                by_cases h : add32 len 0 ≤ cap
                · simp [run, request, Request.step, Request.Passes, Request.target, Request.size,
                    Writer.bytes, Writer.cursor, Writer.put, h]
                · simp [run, request, Request.step, Request.Passes, Writer.bytes, Writer.cursor,
                    Writer.fail, h]
              · have hzero : n.toNat ≠ 0 := fun h => hn (UInt32.toNat_inj.1 h)
                simp [run, request, Request.step, Request.Passes, Writer.bytes, Writer.cursor,
                  Writer.fail, hn, hzero]
          | some p =>
              have hlen : p.length = n.toNat := hsource
              by_cases h : add32 len n.toNat ≤ cap
              · simp [run, request, Request.step, Request.Passes, Request.target, Request.size,
                  Writer.bytes, Writer.cursor, Writer.put, h, hlen]
              · simp [run, request, Request.step, Request.Passes, Request.size, Writer.bytes,
                  Writer.cursor, Writer.fail, h]

end WriteCall

/-! ### Every run of calls -/

/-- The reader after a run of calls. -/
def Reader.runAll : List ReadCall → Reader → Reader
  | [], r => r
  | call :: calls, r => Reader.runAll calls (call.run r)

/-- The writer after a run of calls. -/
def Writer.runAll : List WriteCall → Writer → Writer
  | [], w => w
  | call :: calls, w => Writer.runAll calls (call.run w)

theorem Reader.runAll_cursor (calls : List ReadCall) (r : Reader) :
    (r.runAll calls).cursor = Request.stepAll (calls.map ReadCall.request) r.cursor := by
  induction calls generalizing r with
  | nil => rfl
  | cons call calls ih =>
      rw [runAll, ih, ReadCall.run_cursor]
      rfl

theorem Writer.runAll_cursor {calls : List WriteCall} {w : Writer} (hcap : w.cap < 2 ^ 32)
    (hsource : ∀ call ∈ calls, call.SourceOk) :
    (w.runAll calls).cursor = Request.stepAll (calls.map WriteCall.request) w.cursor := by
  induction calls generalizing w with
  | nil => rfl
  | cons call calls ih =>
      have hone := call.run_cursor w hcap (hsource call List.mem_cons_self)
      have hnext : (call.run w).cap < 2 ^ 32 := by
        have hlimit := congrArg BufPos.limit hone
        rw [Request.step_limit] at hlimit
        calc (call.run w).cap = w.cap := hlimit
            _ < 2 ^ 32 := hcap
      rw [runAll, ih hnext fun c hc => hsource c (List.mem_cons_of_mem _ hc), hone]
      rfl

/-- In every run of reads over a buffer of a 32-bit length, and every run of writes into one
of a 32-bit capacity, every request is safe exactly when at no request the position and the
size add up to 2^32 or more.  The requests are what the primitives do with their cursors. -/
theorem wire_safe_iff (buf : Bytes) (reads : List ReadCall) (cap : UInt32)
    (writes : List WriteCall) :
    (buf.length < 2 ^ 32 →
      (∀ pre, pre <+: reads → (Reader.runAll pre (.init buf)).cursor =
        Request.stepAll (pre.map ReadCall.request) ⟨0, buf.length, false⟩) ∧
      (Request.AllAlong Request.Safe (reads.map ReadCall.request) ⟨0, buf.length, false⟩ ↔
        Request.AllAlong Request.NoWrap (reads.map ReadCall.request) ⟨0, buf.length, false⟩)) ∧
      ((∀ call ∈ writes, call.SourceOk) →
        (∀ pre, pre <+: writes → (Writer.runAll pre (.init cap.toNat)).cursor =
          Request.stepAll (pre.map WriteCall.request) ⟨0, cap.toNat, false⟩) ∧
        (Request.AllAlong Request.Safe (writes.map WriteCall.request) ⟨0, cap.toNat, false⟩ ↔
          Request.AllAlong Request.NoWrap (writes.map WriteCall.request)
            ⟨0, cap.toNat, false⟩)) := by
  constructor
  · intro hlen
    exact ⟨fun pre _ => Reader.runAll_cursor pre _,
      Request.allAlong_safe_iff hlen (Nat.zero_le _)⟩
  · intro hsource
    refine ⟨fun pre hpre => ?_, Request.allAlong_safe_iff cap.toNat_lt (Nat.zero_le _)⟩
    exact Writer.runAll_cursor cap.toNat_lt fun call hcall => hsource call (hpre.subset hcall)

/-- Four bytes into a buffer of eight, a request for 2^32 - 2 bytes is granted, and takes the
reader back to the second. -/
theorem read_wraps :
    let r := (Reader.init (zeros 8)).runAll [.u8, .u24]
    ((r.bytes (2 ^ 32 - 2)).1 = some 4 ∧ (r.bytes (2 ^ 32 - 2)).2 = ⟨zeros 8, 2, false⟩) ∧
      ¬ (Request.bytes (2 ^ 32 - 2)).Safe r.cursor := by
  refine ⟨⟨rfl, rfl⟩, fun h => ?_⟩
  exact absurd h.pos_mono (by decide)

end WolfNano
