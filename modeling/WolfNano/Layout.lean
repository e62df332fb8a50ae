/-
Whole sequences of writer calls: fields one after the other, and length fields that are
filled in when their contents are there, one inside another.  What is written is read back,
unless a number or the length of some contents is too big for its field, or the bytes of the
sequence do not have a 32-bit count.
-/
import WolfNano.Writing

namespace WolfNano

open Duplex

/-- The width of a length field. -/
inductive LenWidth where
  | one
  | two
  | three
  deriving DecidableEq

namespace LenWidth

def octets : LenWidth → Nat
  | one => 1
  | two => 2
  | three => 3

/-- The read primitive of that width. -/
def read : LenWidth → Reader → Nat × Reader
  | one => Reader.u8
  | two => Reader.u16
  | three => Reader.u24

end LenWidth

/-- A sequence of writer calls; `null` is `wn_Write_Bytes` from a NULL pointer, and `block`
stands for `wn_Write_LenStart`, the calls of the contents and `wn_Write_LenEnd`. -/
inductive Layout where
  | done
  | u8 (v : UInt8) (rest : Layout)
  | u16 (v : UInt16) (rest : Layout)
  | u24 (v : UInt32) (rest : Layout)
  | bytes (p : Bytes) (hp : p.length < 2 ^ 32) (rest : Layout)
  | null (n : UInt32) (rest : Layout)
  | block (n : LenWidth) (contents rest : Layout)

namespace Layout

/-- The calls, made one after the other. -/
def run : Layout → Writer → Writer
  | done, w => w
  | u8 v rest, w => rest.run (w.u8 v.toNat)
  | u16 v rest, w => rest.run (w.u16 v.toNat)
  | u24 v rest, w => rest.run (w.u24 v.toNat)
  | bytes p _ rest, w => rest.run (w.bytes (some p) p.length)
  | null n rest, w => rest.run (w.bytes none n.toNat)
  | block n contents rest, w =>
      let s := w.lenStart n.octets
      rest.run ((contents.run s.1).lenEnd s.2 n.octets)

/-- The written values in order, a block's length before its contents. -/
def enc : Layout → Bytes
  | done => []
  | u8 v rest => [v] ++ rest.enc
  | u16 v rest => Duplex.u16 v.toNat ++ rest.enc
  | u24 v rest => Duplex.u24 v.toNat ++ rest.enc
  | bytes p _ rest => p ++ rest.enc
  | null _ rest => rest.enc
  | block n contents rest => be n.octets contents.enc.length ++ contents.enc ++ rest.enc

/-- A number is read and it is `v`. -/
def expect (got : Nat × Reader) (v : Nat) : Option Reader :=
  if got.2.err = false ∧ got.1 = v then some got.2 else none

/-- Reads the fields back in order, and a block's contents up to its length.  There is no
result when a value is not the one that was written. -/
def readBack : Layout → Reader → Option Reader
  | done, r => some r
  | u8 v rest, r => (expect r.u8 v.toNat).bind rest.readBack
  | u16 v rest, r => (expect r.u16 v.toNat).bind rest.readBack
  | u24 v rest, r => (expect r.u24 v.toNat).bind rest.readBack
  | bytes p _ rest, r =>
      if (r.bytes p.length).1 = some r.pos ∧ slice r.buf r.pos p.length = p then
        rest.readBack (r.bytes p.length).2
      else
        none
  | null _ rest, r => rest.readBack r
  | block n contents rest, r =>
      let got := n.read r
      (contents.readBack got.2).bind fun r' =>
        if got.2.err = false ∧ r'.pos = got.2.pos + got.1 then rest.readBack r' else none

/-- The writer reports an error, or it has written the sequence and the sequence is read
back. -/
def Exact (cap : Nat) (l : Layout) : Prop :=
  let w := l.run (.init cap)
  w.err = false → w.buf.take w.len = l.enc ∧
    ∃ r, l.readBack (.init (w.buf.take w.len)) = some r ∧ r.pos = w.len

/-- Some call is refused: where it ends, as a 32-bit number, is beyond the capacity, or it has
bytes to write and no source.  `p` is the number of bytes before it. -/
def Refused (cap : Nat) : Layout → Nat → Prop
  | done, _ => False
  | u8 _ rest, p => cap ≤ p % 2 ^ 32 ∨ rest.Refused cap (p + 1)
  | u16 _ rest, p => cap < (p + 2) % 2 ^ 32 ∨ rest.Refused cap (p + 2)
  | u24 _ rest, p => cap < (p + 3) % 2 ^ 32 ∨ rest.Refused cap (p + 3)
  | bytes b _ rest, p => cap < (p + b.length) % 2 ^ 32 ∨ rest.Refused cap (p + b.length)
  | null n rest, p => (n ≠ 0 ∨ cap < p % 2 ^ 32) ∨ rest.Refused cap p
  | block n contents rest, p =>
      (∃ i < n.octets, cap ≤ (p + i) % 2 ^ 32) ∨ contents.Refused cap (p + n.octets) ∨
        rest.Refused cap (p + n.octets + contents.enc.length)

/-- Every 24-bit number and every length has room in its field. -/
def InRange : Layout → Prop
  | done => True
  | u8 _ rest | u16 _ rest | bytes _ _ rest | null _ rest => rest.InRange
  | u24 v rest => v.toNat < 2 ^ 24 ∧ rest.InRange
  | block n contents rest =>
      contents.InRange ∧ contents.enc.length < 256 ^ n.octets ∧ rest.InRange

end Layout

/-! ### Where the calls get -/

namespace Writer

/-- `f` fails when `refused` holds of the capacity and the number of bytes before it, and
otherwise goes `n` bytes on. -/
structure Advances (f : Writer → Writer) (refused : Nat → Nat → Prop) (n : Nat) : Prop where
  stuck : ∀ w, w.err = true → f w = w
  fails : ∀ w p, w.len = p % 2 ^ 32 → refused w.cap p → (f w).err = true
  goes : ∀ w p, w.err = false → w.len = p % 2 ^ 32 → ¬ refused w.cap p →
    (f w).err = false ∧ (f w).len = (p + n) % 2 ^ 32 ∧ (f w).cap = w.cap

namespace Advances

variable {f g : Writer → Writer} {r s : Nat → Nat → Prop} {m n : Nat}

theorem comp (hf : Advances f r m) (hg : Advances g s n) :
    Advances (fun w => g (f w)) (fun cap p => r cap p ∨ s cap (p + m)) (m + n) where
  stuck w hw := by
    rw [hf.stuck w hw, hg.stuck w hw]
  fails w p hlen hr := by
    cases herr : (f w).err with
    | true =>
        rw [hg.stuck _ herr]
        exact herr
    | false =>
        have hw : w.err = false := by
          cases hw : w.err with
          | false => rfl
          | true =>
              rw [hf.stuck w hw, hw] at herr
              exact herr
        have hnot : ¬ r w.cap p := by
          intro hrefused
          rw [hf.fails w p hlen hrefused] at herr
          cases herr
        have ⟨_, hmid, hcap⟩ := hf.goes w p hw hlen hnot
        apply hg.fails _ (p + m) hmid
        rw [hcap]
        exact hr.resolve_left hnot
  goes w p hw hlen hr := by
    rw [not_or] at hr
    have ⟨herr, hmid, hcap⟩ := hf.goes w p hw hlen hr.1
    have hrest := hg.goes (f w) (p + m) herr hmid (by rw [hcap]; exact hr.2)
    rw [hcap, Nat.add_assoc] at hrest
    exact hrest

theorem nil : Advances id (fun _ _ => False) 0 where
  stuck _ _ := rfl
  fails _ _ _ h := h.elim
  goes _ _ hw hlen _ := ⟨hw, hlen, rfl⟩

/-- A call with a guard that stores `n` bytes. -/
theorem guarded {c : Writer → Bool} {v : Bytes} (hlen : v.length = n)
    (hf : ∀ w, f w = if (!w.err && c w) = true then w.put v else w.fail)
    (hc : ∀ w p, w.len = p % 2 ^ 32 → (r w.cap p ↔ c w = false)) : Advances f r n where
  stuck w hw := by
    rw [hf, hw]
    cases w
    cases hw
    rfl
  fails w p hp hr := by
    rw [hf, (hc w p hp).1 hr, Bool.and_false]
    rfl
  goes w p hw hp hr := by
    have hpass : c w = true := by
      rw [hc w p hp, Bool.not_eq_false] at hr
      exact hr
    rw [hf, hw, hpass]
    refine ⟨hw, ?_, rfl⟩
    change add32 w.len v.length = (p + n) % 2 ^ 32
    rw [add32, hp, hlen, Nat.mod_add_mod]

theorem iff (h : Advances f r n) (hrs : ∀ cap p, r cap p ↔ s cap p) : Advances f s n := by
  have heq : r = s := by
    funext cap p
    exact propext (hrs cap p)
  rw [← heq]
  exact h

theorem u8 (v : Nat) : Advances (fun w => w.u8 v) (fun cap p => cap ≤ p % 2 ^ 32) 1 := by
  apply guarded (v := [UInt8.ofNat v]) rfl (fun _ => rfl)
  intro w p hp
  rw [decide_eq_false_iff_not, hp, Nat.not_lt]

/-- The guard of the other calls. -/
theorem beyond_iff {w : Writer} {p : Nat} (hp : w.len = p % 2 ^ 32) (n : Nat) :
    w.cap < (p + n) % 2 ^ 32 ↔ decide (add32 w.len n ≤ w.cap) = false := by
  rw [decide_eq_false_iff_not, add32, hp, Nat.mod_add_mod, Nat.not_le]

theorem u16 (v : Nat) : Advances (fun w => w.u16 v) (fun cap p => cap < (p + 2) % 2 ^ 32) 2 := by
  apply guarded (v := Duplex.u16 v) rfl (fun _ => rfl)
  intro w p hp
  exact beyond_iff hp 2

theorem u24 (v : Nat) : Advances (fun w => w.u24 v) (fun cap p => cap < (p + 3) % 2 ^ 32) 3 := by
  apply guarded (v := Duplex.u24 v) rfl (fun _ => rfl)
  intro w p hp
  exact beyond_iff hp 3

theorem bytes (b : Bytes) : Advances (fun w => w.bytes (some b) b.length)
    (fun cap p => cap < (p + b.length) % 2 ^ 32) b.length := by
  refine guarded (c := fun w => decide (add32 w.len b.length ≤ w.cap)) (v := b) rfl ?_ ?_
  · intro w
    rw [Writer.bytes, Option.isSome_some, Bool.true_or, Bool.and_true, Option.getD_some,
      List.take_length]
  · intro w p hp
    exact beyond_iff hp b.length

theorem null (n : Nat) : Advances (fun w => w.bytes none n)
    (fun cap p => n ≠ 0 ∨ cap < p % 2 ^ 32) 0 := by
  by_cases hn : n = 0
  · subst hn
    refine guarded (c := fun w => decide (add32 w.len 0 ≤ w.cap)) (v := []) rfl ?_ ?_
    · intro w
      rw [Writer.bytes, beq_self_eq_true, Bool.or_true, Bool.and_true]
      rfl
    · intro w p hp
      rw [← beyond_iff hp 0]
      exact or_iff_right fun h => h rfl
  · have hf : ∀ w : Writer, w.bytes none n = w.fail := by
      intro w
      rw [Writer.bytes, beq_false_of_ne hn]
      simp
    constructor
    · intro w hw
      exact bytes_stuck hw none n
    · intro w p _ _
      rw [hf]
      rfl
    · intro w p _ _ hr
      exact absurd (.inl hn) hr

theorem lenStart (n : Nat) : Advances (fun w => (w.lenStart n).1)
    (fun cap p => ∃ i < n, cap ≤ (p + i) % 2 ^ 32) n := by
  induction n with
  | zero =>
      apply nil.iff
      intro cap p
      exact ⟨False.elim, fun ⟨_, hi, _⟩ => absurd hi (Nat.not_lt_zero _)⟩
  | succ n ih =>
      have hcomp := (u8 0).comp ih
      rw [Nat.add_comm 1 n] at hcomp
      apply hcomp.iff
      intro cap p
      constructor
      · rintro (hfirst | ⟨i, hi, hlater⟩)
        · exact ⟨0, Nat.succ_pos n, hfirst⟩
        · refine ⟨i + 1, Nat.succ_lt_succ hi, ?_⟩
          rw [Nat.add_comm i 1, ← Nat.add_assoc]
          exact hlater
      · rintro ⟨i, hi, h⟩
        cases i with
        | zero => exact .inl h
        | succ i =>
            rw [Nat.add_comm i 1, ← Nat.add_assoc] at h
            exact .inr ⟨i, Nat.lt_of_succ_lt_succ hi, h⟩

/-- Filling in a length field moves nothing. -/
theorem lenEnd (hf : Advances f r n) (off : Writer → Nat) (k : Nat) :
    Advances (fun w => (f w).lenEnd (off w) k) r n := by
  have hsame : ∀ (w : Writer) (o : Nat), (w.lenEnd o k).err = w.err ∧
      (w.lenEnd o k).len = w.len ∧ (w.lenEnd o k).cap = w.cap := by
    intro w o
    rw [Writer.lenEnd]
    split
    · exact ⟨rfl, rfl, rfl⟩
    · exact ⟨rfl, rfl, rfl⟩
  constructor
  · intro w hw
    rw [hf.stuck w hw, lenEnd_stuck hw]
  · intro w p hp hr
    rw [(hsame (f w) (off w)).1]
    exact hf.fails w p hp hr
  · intro w p hw hp hr
    rw [(hsame (f w) (off w)).1, (hsame (f w) (off w)).2.1, (hsame (f w) (off w)).2.2]
    exact hf.goes w p hw hp hr

end Advances

end Writer

namespace Layout

open Writer

/-- A sequence goes as far as the number of its bytes, unless a call is refused. -/
theorem run_advances (l : Layout) :
    Advances l.run (fun cap p => l.Refused cap p) l.enc.length := by
  induction l with
  | done => exact Advances.nil
  | u8 v rest ih => 
      rw [enc, List.length_append]
      exact (Advances.u8 v.toNat).comp ih
  | u16 v rest ih =>
      rw [enc, List.length_append]
      exact (Advances.u16 v.toNat).comp ih
  | u24 v rest ih =>
      rw [enc, List.length_append]
      exact (Advances.u24 v.toNat).comp ih
  | bytes p hp rest ih =>
      rw [enc, List.length_append]
      exact (Advances.bytes p).comp ih
  | null n rest ih =>
      have hcomp := (Advances.null n.toNat).comp ih
      rw [Nat.zero_add] at hcomp
      apply hcomp.iff
      intro cap p
      have hn : n.toNat ≠ 0 ↔ n ≠ 0 := not_congr (@UInt32.toNat_inj n 0)
      rw [hn]
      rfl
  | block n contents rest ihContents ihRest =>
      have hcomp := (((Advances.lenStart n.octets).comp ihContents).lenEnd
        (fun w => (w.lenStart n.octets).2) n.octets).comp ihRest
      rw [enc, List.length_append, List.length_append, be_length]
      apply hcomp.iff
      intro cap p
      rw [or_assoc, ← Nat.add_assoc p]
      rfl

/-! ### What the calls write -/

/-- Unless a call is refused, the sequence appends its bytes or fails for want of room. -/
theorem run_appends {cap p : Nat} {l : Layout} (h : ¬ l.Refused cap p) :
    Appends l.run l.enc := by
  induction l generalizing p with
  | done => exact Appends.nil
  | u8 v rest ih =>
      have hfirst := Appends.u8 v.toNat
      rw [UInt8.ofNat_toNat] at hfirst
      exact hfirst.comp (ih (not_or.1 h).2)
  | u16 v rest ih => exact (Appends.u16 v.toNat).comp (ih (not_or.1 h).2)
  | u24 v rest ih => exact (Appends.u24 v.toNat).comp (ih (not_or.1 h).2)
  | bytes b hb rest ih => exact (Appends.bytes b).comp (ih (not_or.1 h).2)
  | null n rest ih =>
      have ⟨hfirst, hrest⟩ := not_or.1 h
      have hn : n = 0 := not_not.1 (not_or.1 hfirst).1
      rw [hn]
      exact Appends.null.comp (ih hrest)
  | block n contents rest ihContents ihRest =>
      have ⟨_, hlater⟩ := not_or.1 h
      have ⟨hcontents, hrest⟩ := not_or.1 hlater
      exact ((ihContents hcontents).block n.octets).comp (ihRest hrest)

/-! ### Reading back -/

theorem expect_bind_eq_some {got : Nat × Reader} {v : Nat} {k : Reader → Option Reader}
    {r : Reader} : (expect got v).bind k = some r ↔
      got.2.err = false ∧ got.1 = v ∧ k got.2 = some r := by
  unfold expect
  split
  · next h => exact ⟨fun hk => ⟨h.1, h.2, hk⟩, fun hk => hk.2.2⟩
  · next h => exact ⟨nofun, fun hk => absurd ⟨hk.1, hk.2.1⟩ h⟩

open Reader in
theorem read_here {n : LenWidth} {pre field rest : Bytes} (hfield : field.length = n.octets)
    (hlen : (pre ++ field).length < 2 ^ 32) :
    n.read (here pre (field ++ rest)) = (ofBE field, here (pre ++ field) rest) := by
  cases n with
  | one =>
      obtain ⟨b, rfl⟩ := List.length_eq_one_iff.1 hfield
      have hone := here_u8 pre rest b
      rw [show b.toNat = ofBE [b] by simp [ofBE]] at hone
      exact hone
  | two =>
      have htwo := @here_uint pre field rest hlen
      rw [hfield] at htwo
      exact htwo
  | three =>
      have hthree := @here_uint pre field rest hlen
      rw [hfield] at hthree
      exact hthree

open Reader in
/-- What is written is read back exactly when every number has room in its field. -/
theorem readBack_here {l : Layout} {pre rest : Bytes} {r : Reader}
    (hlen : (pre ++ l.enc).length < 2 ^ 32) :
    l.readBack (here pre (l.enc ++ rest)) = some r ↔
      l.InRange ∧ r = here (pre ++ l.enc) rest := by
  induction l generalizing pre rest r with
  | done =>
      rw [enc, List.append_nil]
      exact ⟨fun h => ⟨trivial, (Option.some.inj h).symm⟩, fun h => congrArg some h.2.symm⟩
  | u8 v l ih =>
      rw [enc, ← List.append_assoc] at hlen
      rw [readBack, expect_bind_eq_some, enc, List.append_assoc, ← List.append_assoc pre,
        List.singleton_append, here_u8, ih hlen]
      exact ⟨fun h => h.2.2, fun h => ⟨rfl, rfl, h⟩⟩
  | u16 v l ih =>
      rw [enc, ← List.append_assoc] at hlen
      have hread := @here_u16 pre (l.enc ++ rest) v.toNat v.toNat_lt (by
        rw [List.length_append, List.length_append, u16_length] at hlen
        omega)
      rw [readBack, expect_bind_eq_some, enc, List.append_assoc, ← List.append_assoc pre, hread,
        ih hlen]
      exact ⟨fun h => h.2.2, fun h => ⟨rfl, rfl, h⟩⟩
  | u24 v l ih =>
      rw [enc, ← List.append_assoc] at hlen
      have hread := @read_here .three pre (Duplex.u24 v.toNat) (l.enc ++ rest) rfl (by
        rw [List.length_append] at hlen
        omega)
      have hvalue : ofBE (Duplex.u24 v.toNat) = v.toNat ↔ v.toNat < 2 ^ 24 := by
        rw [← be_three, ofBE_be]
        exact Nat.mod_eq_iff_lt (by decide)
      change (expect (LenWidth.three.read _) v.toNat).bind l.readBack = some r ↔ _
      rw [expect_bind_eq_some, enc, List.append_assoc, ← List.append_assoc pre, hread, ih hlen,
        hvalue]
      exact ⟨fun h => ⟨⟨h.2.1, h.2.2.1⟩, h.2.2.2⟩, fun h => ⟨rfl, h.1.1, h.1.2, h.2⟩⟩
  | bytes b hb l ih =>
      rw [enc, ← List.append_assoc] at hlen
      have hread := @here_bytes pre b (l.enc ++ rest) (by
        rw [List.length_append] at hlen
        omega)
      have hslice : slice (here pre (b ++ (l.enc ++ rest))).buf pre.length b.length = b :=
        slice_eq_of_eq_append pre (l.enc ++ rest) (List.append_assoc ..).symm rfl rfl
      rw [readBack, enc, List.append_assoc, hread, if_pos ⟨rfl, hslice⟩, ih hlen,
        List.append_assoc]
      rfl
  | null n l ih => exact ih hlen
  | block n contents l ihContents ihRest =>
      rw [enc, ← List.append_assoc, ← List.append_assoc] at hlen
      have hbody : (pre ++ be n.octets contents.enc.length ++ contents.enc).length < 2 ^ 32 := by
        rw [List.length_append] at hlen
        omega
      have hhead : (pre ++ be n.octets contents.enc.length).length < 2 ^ 32 := by
        rw [List.length_append] at hbody
        omega
      have hread := @read_here n pre (be n.octets contents.enc.length)
        (contents.enc ++ (l.enc ++ rest)) (be_length _ _) hhead
      have hvalue : ofBE (be n.octets contents.enc.length) = contents.enc.length ↔
          contents.enc.length < 256 ^ n.octets := by
        rw [ofBE_be]
        exact Nat.mod_eq_iff_lt (Nat.ne_of_gt (Nat.pow_pos (by decide)))
      rw [readBack, enc, List.append_assoc, List.append_assoc, hread]
      rw [Option.bind_eq_some_iff]
      have hpos : ∀ r' : Reader, r' = here (pre ++ be n.octets contents.enc.length ++ contents.enc)
            (l.enc ++ rest) →
          (r'.pos = (here (pre ++ be n.octets contents.enc.length)
              (contents.enc ++ (l.enc ++ rest))).pos + ofBE (be n.octets contents.enc.length) ↔
            contents.enc.length < 256 ^ n.octets) := by
        intro r' hr'
        rw [hr', ← hvalue]
        change (pre ++ be n.octets contents.enc.length ++ contents.enc).length =
          (pre ++ be n.octets contents.enc.length).length + _ ↔ _
        have hend := @List.length_append _ (pre ++ be n.octets contents.enc.length) contents.enc
        rw [hend, Nat.add_left_cancel_iff]
        exact eq_comm
      constructor
      · rintro ⟨r', hcontents, hrest⟩
        have ⟨hin, hr'⟩ := (ihContents hbody).1 hcontents
        rw [Option.ite_none_right_eq_some] at hrest
        have ⟨⟨_, hend⟩, hback⟩ := hrest
        rw [hr', ihRest hlen] at hback
        exact ⟨⟨hin, (hpos r' hr').1 hend, hback.1⟩, by rw [hback.2]; simp⟩
      · rintro ⟨⟨hin, hfits, hinRest⟩, hr⟩
        refine ⟨_, (ihContents hbody).2 ⟨hin, rfl⟩, ?_⟩
        rw [if_pos ⟨rfl, (hpos _ rfl).2 hfits⟩, ihRest hlen]
        exact ⟨hinRest, by rw [hr]; simp⟩

/-- A sequence without a refused call is exact when it has room and its numbers have. -/
theorem exact_iff_of_not_refused {cap : Nat} {l : Layout} (hcap : cap < 2 ^ 32)
    (h : ¬ l.Refused cap 0) : l.Exact cap ↔ l.enc.length ≤ cap ∧ l.InRange := by
  have ⟨herr, hlen, _⟩ := l.run_advances.goes (.init cap) 0 rfl rfl h
  rw [Nat.zero_add] at hlen
  have hwrites := run_appends h
  by_cases hroom : l.enc.length ≤ cap
  · have hsize : l.enc.length < 2 ^ 32 := Nat.lt_of_le_of_lt hroom hcap
    have hrun : l.run (.init cap) = wrote cap l.enc :=
      hwrites.fits cap [] (by simpa using hsize) (by simpa using hroom)
    have hbuf : (wrote cap l.enc).buf.take (wrote cap l.enc).len = l.enc := List.take_length
    have hback : ∀ r, l.readBack (.init l.enc) = some r ↔
        l.InRange ∧ r = Reader.here l.enc [] := by
      intro r
      have hread := @readBack_here l [] [] r hsize
      rw [List.append_nil] at hread
      exact hread
    rw [Exact, hrun, hbuf]
    constructor
    · intro hexact
      have ⟨_, r, hr, _⟩ := hexact rfl
      exact ⟨hroom, ((hback r).1 hr).1⟩
    · intro hin _
      exact ⟨rfl, _, (hback _).2 ⟨hin.2, rfl⟩, rfl⟩
  · have hbig : 2 ^ 32 ≤ l.enc.length := by
      by_contra hsmall
      have hfull := hwrites.full cap [] (by simpa using hsmall) (Nat.zero_le _)
        (by simpa using hroom)
      rw [← init_wrote, herr] at hfull
      cases hfull
    constructor
    · intro hexact
      have htake := (hexact herr).1
      have hle := List.length_take_le (l.run (.init cap)).len (l.run (.init cap)).buf
      rw [htake, hlen] at hle
      have hmod := Nat.mod_lt l.enc.length (show 0 < 2 ^ 32 by decide)
      omega
    · intro hfits
      exact absurd hfits.1 hroom

end Layout

/-- Once the error is set no call changes the writer.  A sequence is written exactly, or
reported, exactly when a call of it is refused, or it fits the capacity and every number and
length has room in its field. -/
theorem layout_exact_iff (w : Writer) (cap : UInt32) (l : Layout) :
    (w.err = true →
      (∀ v, w.u8 v = w) ∧ (∀ v, w.u16 v = w) ∧ (∀ v, w.u24 v = w) ∧ (∀ p n, w.bytes p n = w) ∧
        (∀ n, (w.lenStart n).1 = w) ∧ ∀ off n, w.lenEnd off n = w) ∧
      (l.Exact cap.toNat ↔
        l.Refused cap.toNat 0 ∨ l.enc.length ≤ cap.toNat ∧ l.InRange) := by
  constructor
  · intro hw
    exact ⟨w.u8_stuck hw, w.u16_stuck hw, w.u24_stuck hw, w.bytes_stuck hw, w.lenStart_stuck hw,
      w.lenEnd_stuck hw⟩
  · by_cases h : l.Refused cap.toNat 0
    · have herr := l.run_advances.fails (.init cap.toNat) 0 rfl h
      constructor
      · intro _
        exact .inl h
      · intro _ hok
        rw [herr] at hok
        cases hok
    · rw [Layout.exact_iff_of_not_refused cap.toNat_lt h]
      exact (or_iff_right h).symm

/-- Contents of 256 bytes under a length of one octet. -/
def overlong : Layout :=
  .block .one (.bytes (zeros 256) (by rw [zeros_length]; decide) .done) .done

theorem overlong_fits : ¬ overlong.Refused 300 0 := by
  rintro (⟨i, hi, h⟩ | (h | h) | h)
  · change i < 1 at hi
    omega
  · rw [zeros_length] at h
    exact absurd h (by decide)
  · exact h
  · exact h

theorem one_octet_run {p : Bytes} (h : p.length < 2 ^ 32) (hlen : p.length = 256) :
    (Layout.block .one (.bytes p h .done) .done).run (.init 300) =
      ⟨[0] ++ p, 300, 257, false⟩ := by
  have hwrites := ((Writer.Appends.bytes p).block 1).fits 300 [] (by simp [hlen])
    (by simp [hlen])
  apply hwrites.trans
  rw [List.nil_append, Writer.wrote, List.length_append, be_length, hlen]
  rfl

/-- Its length is written as zero, and no error is reported. -/
theorem overlong_unreported :
    overlong.run (.init 300) = ⟨[0] ++ zeros 256, 300, 257, false⟩ ∧ ¬ overlong.Exact 300 := by
  constructor
  · apply one_octet_run
    exact zeros_length 256
  · rw [Layout.exact_iff_of_not_refused (by decide) overlong_fits]
    rintro ⟨_, _, hlen, _⟩
    have hcontents : (zeros 256 ++ Layout.done.enc).length = 256 := by
      rw [List.length_append, zeros_length]
      rfl
    exact absurd hlen (by rw [Layout.enc, hcontents]; decide)

end WolfNano
