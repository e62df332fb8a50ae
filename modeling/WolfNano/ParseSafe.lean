/-
The parser stays inside its input: no read outside it, no 32-bit index that wraps, no loop
that runs out, and every slice it reports where it belongs.
-/
import WolfNano.CheckedX509
import WolfNano.ExtWalk

namespace WolfNano

open Duplex

/-! ### Runs that agree -/

/-- The checked run is the other one, without a fault, and what it returns has `Q`. -/
structure Agree {α : Type} (x' x : Asn α) (Q : α → Prop) : Prop where
  same : x' = x
  safe : x ≠ .error .fault
  post : ∀ a, x = .ok a → Q a

namespace Agree

section Rules

variable {α β : Type} {x' x y' y : Asn α} {f' f : α → Asn β} {Q : α → Prop} {R : β → Prop}

theorem mk_ok {a : α} (h : Q a) : Agree (.ok a) (.ok a) Q :=
  ⟨rfl, nofun, fun _ heq => Except.ok.inj heq ▸ h⟩

theorem of_pure {a : α} (h : Q a) : Agree (pure a) (pure a) Q := mk_ok h

theorem mk_error {e : X509Err} (he : e ≠ .fault) : Agree (.error e) (.error e) Q :=
  ⟨rfl, fun heq => he (Except.error.inj heq), nofun⟩

theorem mono {Q' : α → Prop} (h : Agree x' x Q) (hQ : ∀ a, Q a → Q' a) : Agree x' x Q' :=
  ⟨h.same, h.safe, fun a ha => hQ a (h.post a ha)⟩

/-- One reader after another, the second with what the first has established. -/
theorem bind (h : Agree x' x Q) (hf : ∀ a, Q a → Agree (f' a) (f a) R) :
    Agree (x' >>= f') (x >>= f) R := by
  obtain ⟨rfl, hsafe, hpost⟩ := h
  cases x' with
  | error e => exact mk_error fun he => hsafe (congrArg _ he)
  | ok a => exact hf a (hpost a rfl)

/-- The same condition on both sides. -/
theorem ite {c : Prop} [Decidable c] (hx : c → Agree x' x Q) (hy : ¬ c → Agree y' y Q) :
    Agree (if c then x' else y') (if c then x else y) Q := by
  by_cases hc : c
  · rw [if_pos hc, if_pos hc]
    exact hx hc
  · rw [if_neg hc, if_neg hc]
    exact hy hc

theorem decodeIf {c : Prop} [Decidable c] :
    Agree (WolfNano.decodeIf c) (WolfNano.decodeIf c) fun _ => ¬ c := by
  unfold WolfNano.decodeIf
  exact ite (fun _ => mk_error nofun) fun hc => mk_ok hc

/-- A checked sum that fits. -/
theorem add {a b : Nat} {g : Nat → Asn α} (h : a + b < 2 ^ 32) (hg : Agree (g (a + b)) x Q) :
    Agree (Checked.add32 a b >>= g) x Q := by
  unfold Checked.add32
  rw [if_pos h]
  exact hg

/-- A checked difference that is none below zero. -/
theorem sub {a b : Nat} {g : Nat → Asn α} (h : b ≤ a) (hg : Agree (g (a - b)) x Q) :
    Agree (Checked.sub32 a b >>= g) x Q := by
  unfold Checked.sub32
  rw [if_pos h]
  exact hg

/-- A reader that may fail without an error of the whole. -/
theorem attempt (h : Agree x' x Q) :
    Agree (WolfNano.attempt x') (WolfNano.attempt x) fun r => ∀ a, r = some a → Q a := by
  obtain ⟨rfl, hsafe, hpost⟩ := h
  cases x' with
  | ok a => exact mk_ok fun b hb => Option.some.inj hb ▸ hpost a rfl
  | error e =>
      cases e with
      | fault => exact absurd rfl hsafe
      | invalidArg | x509Decode | x509CritExt | badCert => exact mk_ok fun b hb => nomatch hb

theorem map {γ : Type} {g : α → γ} {P : γ → Prop} (h : Agree x' x Q) (hg : ∀ a, Q a → P (g a)) :
    Agree (g <$> x') (g <$> x) P := by
  obtain ⟨rfl, hsafe, hpost⟩ := h
  cases x' with
  | ok a => exact mk_ok (hg a (hpost a rfl))
  | error e => exact mk_error fun he => hsafe (congrArg _ he)

end Rules

section Reads

variable {der : Bytes} {i n : Nat}

/-- A byte inside the buffer is read on both sides, and is less than 256. -/
theorem byteAt (h : i < der.length) :
    Agree (WolfNano.byteAt der i) (WolfNano.byteAt der i) fun b => b < 256 := by
  have hread : WolfNano.byteAt der i = .ok der[i].toNat := by
    unfold WolfNano.byteAt
    rw [List.getElem?_eq_getElem h]
  rw [hread]
  exact mk_ok (UInt8.toNat_lt _)

/-- A slice inside the buffer is read on both sides. -/
theorem bytesAt (h : i + n ≤ der.length) :
    Agree (WolfNano.bytesAt der i n) (WolfNano.bytesAt der i n) fun b => b = slice der i n := by
  unfold WolfNano.bytesAt
  rw [if_pos h]
  exact mk_ok rfl

theorem oidEq {want : Bytes} (h : i + n ≤ der.length) :
    Agree (WolfNano.oidEq der i n want) (WolfNano.oidEq der i n want) fun _ => True := by
  unfold WolfNano.oidEq
  refine ite (fun _ => ?_) fun _ => of_pure trivial
  exact (bytesAt h).bind fun _ _ => of_pure trivial

theorem hasNul (h : i + n ≤ der.length) :
    Agree (WolfNano.hasNul der i n) (WolfNano.hasNul der i n) fun b =>
      b = true ↔ 0 ∈ slice der i n := by
  unfold WolfNano.hasNul
  refine (bytesAt h).bind fun p hp => ?_
  subst hp
  exact of_pure List.contains_iff_mem

theorem oidLookup {α : Type} {unknown : α} {table : List (Bool × Bytes × α)}
    (h : i + n ≤ der.length) :
    Agree (WolfNano.oidLookup der i n unknown table) (WolfNano.oidLookup der i n unknown table)
      fun _ => True := by
  induction table with
  | nil => exact of_pure trivial
  | cons row table ih =>
      unfold WolfNano.oidLookup
      refine ite (fun _ => ?_) fun _ => ih
      exact (oidEq h).bind fun same _ => ite (fun _ => of_pure trivial) fun _ => ih

end Reads

end Agree

/-! ### The TLV layer -/

/-- The contents of a header that was read, between its place and the bound. -/
structure HeaderIn (idx maxIdx : Nat) (r : Nat × Nat) : Prop where
  lt : idx < r.2
  le : r.2 + r.1 ≤ maxIdx

section Tlv

variable {der : Bytes} {idx maxIdx : Nat} (hder : der.length < 2 ^ 31) (hmax : maxIdx ≤ der.length)

include hder hmax

/-- By induction on the octets of the length, none of which is behind the bound. -/
theorem agree_lengthOctets {n length : Nat} (hidx : idx + n ≤ maxIdx) :
    Agree (Checked.lengthOctets der idx n length) (lengthOctets der idx n length) fun len =>
      len < (length + 1) * 256 ^ n := by
  induction n generalizing idx length with
  | zero => exact .mk_ok (by omega)
  | succ n ih =>
      unfold Checked.lengthOctets lengthOctets
      refine (Agree.byteAt (by omega)).bind fun b hb => ?_
      refine .add (by omega) ((ih (by omega)).mono fun len hlen => ?_)
      refine Nat.lt_of_lt_of_le hlen ?_
      rw [Nat.pow_succ', ← Nat.mul_assoc]
      exact Nat.mul_le_mul_right _ (by omega)

/-- The length reader stays before its bound and its sums before 2^32. -/
theorem agree_getLength (hidx : idx ≤ maxIdx) :
    Agree (Checked.asnGetLength der idx maxIdx) (asnGetLength der idx maxIdx)
      (HeaderIn idx maxIdx) := by
  unfold Checked.asnGetLength asnGetLength
  refine .add (by omega) (Agree.decodeIf.bind fun _ hroom => ?_)
  refine (Agree.byteAt (by omega)).bind fun b hb => ?_
  dsimp only
  refine .ite (fun hlong => ?_) fun hshort => ?_
  · refine .add (by omega) (Agree.decodeIf.bind fun _ hcount => ?_)
    refine (Agree.byteAt (by omega)).bind fun first _ => Agree.decodeIf.bind fun _ _ => ?_
    refine (agree_lengthOctets hder hmax (by omega)).bind fun length hlength => ?_
    refine Agree.decodeIf.bind fun _ _ => ?_
    have hlt : length < 2 ^ 24 := by
      refine Nat.lt_of_lt_of_le hlength ?_
      rw [Nat.zero_add, Nat.one_mul]
      exact Nat.pow_le_pow_right (by decide) (by omega : b - 0x80 ≤ 3)
    exact .add (by omega) (Agree.decodeIf.bind fun _ hend => .of_pure ⟨by dsimp only; omega, by
      dsimp only; omega⟩)
  · exact .add (by omega) (Agree.decodeIf.bind fun _ hend => .of_pure ⟨by dsimp only; omega, by
      dsimp only; omega⟩)

/-- A header and its contents lie before the bound. -/
theorem agree_getHeader (tag : Nat) (hidx : idx ≤ maxIdx) :
    Agree (Checked.asnGetHeader der tag idx maxIdx) (asnGetHeader der tag idx maxIdx)
      (HeaderIn idx maxIdx) := by
  unfold Checked.asnGetHeader asnGetHeader
  refine .add (by omega) (Agree.decodeIf.bind fun _ hroom => ?_)
  refine (Agree.byteAt (by omega)).bind fun t _ => Agree.decodeIf.bind fun _ _ => ?_
  refine (agree_getLength hder hmax (by omega)).mono fun r hr => ⟨?_, hr.le⟩
  have hlt := hr.lt
  omega

/-- A header whose contents end at the bound. -/
theorem agree_getHeaderExact {tag : Nat} (hidx : idx ≤ maxIdx) :
    Agree (Checked.asnGetHeaderExact der tag idx maxIdx) (asnGetHeaderExact der tag idx maxIdx)
      fun r => HeaderIn idx maxIdx r ∧ r.2 + r.1 = maxIdx := by
  unfold Checked.asnGetHeaderExact asnGetHeaderExact
  refine (agree_getHeader hder hmax _ hidx).bind fun r hr => ?_
  have hle := hr.le
  refine .add (by omega) (Agree.decodeIf.bind fun _ hfill => .of_pure ⟨hr, ?_⟩)
  exact not_not.1 hfill

/-- A slice between two places. -/
structure Slice.In (s : Slice) (lo hi : Nat) : Prop where
  lo : lo ≤ s.off
  hi : s.off + s.len ≤ hi

omit hder hmax in
theorem Slice.In.mono {s : Slice} {lo hi lo' hi' : Nat} (h : s.In lo hi) (hlo : lo' ≤ lo)
    (hhi : hi ≤ hi') : s.In lo' hi' :=
  ⟨Nat.le_trans hlo h.lo, Nat.le_trans h.hi hhi⟩

/-- A bit string: the slice behind its octet of unused bits. -/
theorem agree_getBitString (hidx : idx ≤ maxIdx) :
    Agree (Checked.asnGetBitString der idx maxIdx) (asnGetBitString der idx maxIdx)
      fun r => r.1.In idx maxIdx ∧ r.2 ≤ maxIdx := by
  unfold Checked.asnGetBitString asnGetBitString
  refine (agree_getHeader hder hmax _ hidx).bind fun r hr => ?_
  obtain ⟨len, i⟩ := r
  have hlt : idx < i := hr.lt
  have hle : i + len ≤ maxIdx := hr.le
  refine Agree.decodeIf.bind fun _ hpos => ?_
  refine (Agree.byteAt (by omega)).bind fun unused _ => Agree.decodeIf.bind fun _ _ => ?_
  refine .add (by omega) (.add (by omega) ?_)
  have hend : i + 1 + (len - 1) = i + len := by omega
  rw [hend]
  exact .of_pure ⟨⟨by dsimp only; omega, by dsimp only; omega⟩, hle⟩

end Tlv

/-! ### Algorithms, times and names -/

/-- A name that can be matched, between two places. -/
structure NameIn (der : Bytes) (lo hi : Nat) (s : Slice) : Prop where
  inside : s.In lo hi
  name : DnsName (s.bytes der)

section Names

variable {B : X509Build} {der : Bytes} {idx e : Nat} (hder : der.length < 2 ^ 31)
  (he : e ≤ der.length)

include hder he

/-- An algorithm identifier: it gives its kind or an error, and no read is outside. -/
theorem agree_parseAlgIdOids (hidx : idx ≤ e) :
    Checked.parseAlgIdOids B der idx e = parseAlgIdOids B der idx e ∧
      (parseAlgIdOids B der idx e).1 ≠ .error .fault := by
  unfold Checked.parseAlgIdOids parseAlgIdOids
  extract_lets oid' oid
  have hoid : Agree oid' oid fun r => r.2 ≤ e := by
    refine (agree_getHeader hder he _ hidx).bind fun r hr => ?_
    have hle := hr.le
    refine (Agree.oidLookup (by omega)).bind fun alg _ => ?_
    exact .add (by omega) (.of_pure hle)
  clear_value oid' oid
  obtain ⟨rfl, hsafe, hpost⟩ := hoid
  cases oid' with
  | error err => exact ⟨rfl, fun hfault => hsafe (congrArg _ (Except.error.inj hfault))⟩
  | ok r =>
      obtain ⟨alg, i⟩ := r
      have hi : i ≤ e := hpost _ rfl
      cases alg with
      | unknown => exact ⟨rfl, nofun⟩
      | ed25519 => exact ⟨rfl, Agree.decodeIf.safe⟩
      | rsa =>
          dsimp only
          have hparams := (agree_getHeader hder he asnNull hi).bind fun r _ =>
            (Agree.decodeIf (c := r.1 ≠ 0 ∨ r.2 ≠ e)).mono fun _ _ => trivial
          exact ⟨congrArg (·, _) hparams.same, hparams.safe⟩
      | ecdsa =>
          dsimp only
          have hparams : Agree
              (Checked.asnGetHeader der asnObjectId i e >>= fun r =>
                curveFromOid B der r.2 r.1 >>= fun curve =>
                  Checked.add32 r.2 r.1 >>= fun idx => pure (curve, idx))
              (asnGetHeader der asnObjectId i e >>= fun r =>
                curveFromOid B der r.2 r.1 >>= fun curve => pure (curve, r.2 + r.1))
              fun _ => True := by
            refine (agree_getHeader hder he _ hi).bind fun r hr => ?_
            have hle := hr.le
            refine (Agree.oidLookup (by omega)).bind fun curve _ => ?_
            exact .add (by omega) (.of_pure trivial)
          rw [hparams.same]
          have hsafe := hparams.safe
          cases hread : asnGetHeader der asnObjectId i e >>= fun r =>
              curveFromOid B der r.2 r.1 >>= fun curve => pure (curve, r.2 + r.1) with
          | error err =>
              rw [hread] at hsafe
              exact ⟨rfl, fun hfault => hsafe (congrArg _ (Except.error.inj hfault))⟩
          | ok r => exact ⟨rfl, Agree.decodeIf.safe⟩

/-- A time lies inside its sequence. -/
theorem agree_getTime (hidx : idx ≤ e) :
    Agree (Checked.getTime der idx e) (getTime der idx e) fun r =>
      r.1.In idx e ∧ idx ≤ r.2 ∧ r.2 ≤ e := by
  unfold Checked.getTime getTime
  refine Agree.decodeIf.bind fun _ hmore => ?_
  refine (Agree.byteAt (by omega)).bind fun tag _ => Agree.decodeIf.bind fun _ _ => ?_
  refine (agree_getHeader hder he _ hidx).bind fun r hr => ?_
  obtain ⟨len, next⟩ := r
  have hlt : idx < next := hr.lt
  have hle : next + len ≤ e := hr.le
  refine .sub (by omega) (.add (by omega) (.add (by omega) (.of_pure ⟨⟨?_, ?_⟩, ?_, hle⟩)))
  · exact Nat.le_refl _
  · have hmod := Nat.mod_le (next - idx + len) (2 ^ 16)
    dsimp only
    omega
  · dsimp only
    omega

/-- The value of a common name, which may be none. -/
theorem agree_cnValue (hidx : idx ≤ e) :
    Agree (Checked.cnValue der idx e) (cnValue der idx e) fun r =>
      ∀ s, r = some s → NameIn der idx e s := by
  have hnone : Agree (pure none) (pure none) fun r => ∀ s, r = some s → NameIn der idx e s :=
    .of_pure fun _ hs => nomatch hs
  unfold Checked.cnValue cnValue
  refine .ite (fun hmore => ?_) fun _ => hnone
  refine (Agree.byteAt (by omega)).bind fun tag _ => ?_
  refine .ite (fun _ => ?_) fun _ => hnone
  refine (agree_getHeader hder he _ hidx).attempt.bind fun r hr => ?_
  cases r with
  | none => exact hnone
  | some r =>
      obtain ⟨len, i⟩ := r
      have hlt : idx < i := (hr _ rfl).lt
      have hle : i + len ≤ e := (hr _ rfl).le
      refine .ite (fun hsize => ?_) fun _ => hnone
      refine (Agree.hasNul (by omega)).bind fun nul hnul => ?_
      refine .ite (fun _ => hnone) fun hclean => .of_pure fun s hs => ?_
      cases hs
      have hlen : (slice der i len).length = len := slice_length (by omega)
      refine ⟨⟨Nat.le_of_lt hlt, hle⟩, ?_, ?_, fun hmem => hclean (hnul.2 hmem)⟩
      · rw [Slice.bytes, hlen]
        exact hsize.1
      · rw [Slice.bytes, hlen]
        exact hsize.2

/-- By induction on the fuel, attribute by attribute. -/
theorem agree_findCnAttr {n lo : Nat} (hn : e < idx + n) (hidx : idx ≤ e) (hlo : lo ≤ idx) :
    Agree (Checked.findCnAttr der n idx e) (findCnAttr der n idx e) fun r =>
      ∀ s, r = some s → NameIn der lo e s := by
  have hnone : Agree (pure none) (pure none) fun r => ∀ s, r = some s → NameIn der lo e s :=
    .of_pure fun _ hs => nomatch hs
  induction n generalizing idx with
  | zero => omega
  | succ n ih =>
      unfold Checked.findCnAttr findCnAttr
      refine .ite (fun hmore => ?_) fun _ => hnone
      refine (agree_getHeader hder he _ hidx).attempt.bind fun r hr => ?_
      cases r with
      | none => exact hnone
      | some r =>
          obtain ⟨len, i⟩ := r
          have hlt : idx < i := (hr _ rfl).lt
          have hle : i + len ≤ e := (hr _ rfl).le
          refine .add (by omega) ?_
          refine (agree_getHeader hder (by omega) _ (by omega)).attempt.bind fun r hr => ?_
          cases r with
          | none => exact hnone
          | some r =>
              obtain ⟨oidLen, j⟩ := r
              have hoidLt : i < j := (hr _ rfl).lt
              have hoidLe : j + oidLen ≤ i + len := (hr _ rfl).le
              refine .add (by omega) ((Agree.oidEq (by omega)).bind fun same _ => ?_)
              extract_lets next' next
              have hnext : ∀ cn, (∀ s, cn = some s → NameIn der lo e s) →
                  Agree (next' cn) (next cn) fun r => ∀ s, r = some s → NameIn der lo e s := by
                intro cn hcn
                cases cn with
                | none => exact ih (by omega) (by omega) (by omega)
                | some name => exact .of_pure hcn
              refine .ite (fun _ => ?_) fun _ => hnone.bind hnext
              refine ((agree_cnValue hder (by omega) hoidLe).mono fun cn hcn s hs => ?_).bind hnext
              have hin := (hcn s hs).inside
              exact ⟨⟨by have := hin.lo; omega, by have := hin.hi; omega⟩, (hcn s hs).name⟩

/-- By induction on the fuel, over the sets of a name. -/
theorem agree_findCn {n lo : Nat} (hn : e < idx + n) (hidx : idx ≤ e) (hlo : lo ≤ idx) :
    Agree (Checked.findCn der n idx e) (findCn der n idx e) fun r =>
      ∀ s, r = some s → NameIn der lo e s := by
  have hnone : Agree (pure none) (pure none) fun r => ∀ s, r = some s → NameIn der lo e s :=
    .of_pure fun _ hs => nomatch hs
  induction n generalizing idx with
  | zero => omega
  | succ n ih =>
      unfold Checked.findCn findCn
      refine .ite (fun hmore => ?_) fun _ => hnone
      refine (agree_getHeader hder he _ hidx).attempt.bind fun r hr => ?_
      cases r with
      | none => exact hnone
      | some r =>
          obtain ⟨len, i⟩ := r
          have hlt : idx < i := (hr _ rfl).lt
          have hle : i + len ≤ e := (hr _ rfl).le
          dsimp only
          refine .add (by omega) ?_
          refine (agree_findCnAttr hder (by omega) (by omega) (by omega)
            (by omega : lo ≤ i)).bind fun cn hcn => ?_
          cases cn with
          | none => exact ih (by omega) hle (by omega)
          | some name =>
              refine .of_pure fun s hs => ?_
              have hin := (hcn s hs).inside
              exact ⟨⟨hin.lo, Nat.le_trans hin.hi hle⟩, (hcn s hs).name⟩

end Names

/-! ### Extensions -/

/-- The pool of names: not more than fit, each one between two places. -/
structure NamesIn (der : Bytes) (lo hi : Nat) (san : List Slice) : Prop where
  pool : san.length ≤ x509MaxSan
  each : ∀ s ∈ san, NameIn der lo hi s

section Extensions

variable {B : X509Build} {der : Bytes} {idx e lo : Nat} {x : X509Exts} {crit : Bool}
  (hder : der.length < 2 ^ 31) (he : e ≤ der.length)

include hder he

omit hder in
/-- A look at the next tag. -/
theorem agree_isTag {tag : Nat} {β : Type} {f' f : Bool → Asn β} {R : β → Prop}
    (hf : ∀ b, (b = true → idx < e) → Agree (f' b) (f b) R) :
    Agree (if idx < e then (fun t => t == tag) <$> byteAt der idx >>= f' else pure false >>= f')
      (if idx < e then (fun t => t == tag) <$> byteAt der idx >>= f else pure false >>= f) R := by
  refine .ite (fun hmore => ?_) fun _ => hf false fun h => nomatch h
  have hbyte := Agree.byteAt (Nat.lt_of_lt_of_le hmore he)
  exact (hbyte.map (P := fun b => b = true → idx < e) fun t _ _ => hmore).bind hf

/-- The basicConstraints reader keeps the names found so far. -/
theorem agree_extBasicConstraints (hidx : idx ≤ e) :
    Agree (Checked.extBasicConstraints B der idx e x crit) (extBasicConstraints B der idx e x crit)
      fun x' => x'.san = x.san := by
  unfold Checked.extBasicConstraints extBasicConstraints
  extract_lets src flags
  refine (agree_getHeader hder he _ hidx).bind fun r hr => ?_
  obtain ⟨seqLen, i⟩ := r
  have hle : i + seqLen ≤ e := hr.le
  refine .add (by omega) (Agree.decodeIf.bind fun _ hfill => ?_)
  -- the rest after the optional BOOLEAN, and the rest after the tag was looked at
  extract_lets last' ca' last ca
  have hlast : ∀ r : Bool × Nat, i ≤ r.2 ∧ r.2 ≤ i + seqLen →
      Agree (last' r) (last r) fun x' => x'.san = x.san := by
    rintro ⟨_, j⟩ ⟨hj, hjle⟩
    dsimp only at hj hjle
    unfold last' last
    dsimp only
    refine .ite (fun _ => ?_) fun _ => Agree.decodeIf.bind fun _ _ => .of_pure rfl
    refine (agree_getHeader hder (by omega) _ hjle).bind fun r hr => ?_
    have hle := hr.le
    exact .add (by omega) (Agree.decodeIf.bind fun _ _ => .of_pure rfl)
  have hca : ∀ bool, Agree (ca' bool) (ca bool) fun x' => x'.san = x.san := by
    intro bool
    unfold ca' ca
    refine .ite (fun _ => ?_) fun _ => hlast (false, i) ⟨Nat.le_refl i, Nat.le_add_right ..⟩
    refine (agree_getHeader hder (by omega) _ (by omega)).bind fun r hr => ?_
    obtain ⟨len, k⟩ := r
    have hlt : i < k := hr.lt
    have hkle : k + len ≤ i + seqLen := hr.le
    refine Agree.decodeIf.bind fun _ hone => ?_
    have hone := not_not.1 hone
    refine (Agree.byteAt (by omega)).bind fun v _ => Agree.decodeIf.bind fun _ _ => ?_
    exact .add (by omega) (hlast (true, k + len) ⟨by dsimp only; omega, hkle⟩)
  have hin : i + seqLen ≤ der.length := by omega
  exact agree_isTag hin fun bool _ => hca bool

/-- So does the keyUsage reader. -/
theorem agree_extKeyUsage (hidx : idx ≤ e) :
    Agree (Checked.extKeyUsage der idx e x crit) (extKeyUsage der idx e x crit)
      fun x' => x'.san = x.san := by
  unfold Checked.extKeyUsage extKeyUsage
  extract_lets src flags
  refine (agree_getHeaderExact hder he hidx).bind fun r hr => ?_
  obtain ⟨kuLen, i⟩ := r
  have hfill : i + kuLen = e := hr.2
  refine Agree.decodeIf.bind fun _ hpos => (Agree.byteAt (by omega)).bind fun unused _ => ?_
  refine Agree.decodeIf.bind fun _ _ => .ite (fun htwo => ?_) fun _ => ?_
  · refine .add (by omega) (.sub (by omega) ?_)
    refine (Agree.byteAt (by omega)).bind fun last _ => Agree.decodeIf.bind fun _ _ => ?_
    refine .add (by omega) ((Agree.byteAt (by omega)).bind fun low _ => ?_)
    refine .ite (fun hthree => ?_) fun _ => Agree.decodeIf.bind fun _ _ => .of_pure rfl
    refine .add (by omega) ((Agree.byteAt (by omega)).bind fun high _ => ?_)
    exact Agree.decodeIf.bind fun _ _ => .of_pure rfl
  · exact Agree.decodeIf.bind fun _ _ => .of_pure rfl

/-- By induction on the fuel, purpose by purpose. -/
theorem agree_ekuLoop {n usage : Nat} (hn : e < idx + n) (hidx : idx ≤ e) :
    Agree (Checked.ekuLoop der n idx e usage) (ekuLoop der n idx e usage) fun _ => True := by
  induction n generalizing idx usage with
  | zero => omega
  | succ n ih =>
      unfold Checked.ekuLoop ekuLoop
      refine .ite (fun hmore => ?_) fun _ => .of_pure trivial
      refine (agree_getHeader hder he _ hidx).bind fun r hr => ?_
      obtain ⟨len, i⟩ := r
      have hlt : idx < i := hr.lt
      have hle : i + len ≤ e := hr.le
      refine .add (by omega) ((Agree.oidEq (by omega)).bind fun server _ => ?_)
      refine .ite (fun _ => ih (by omega) hle) fun _ => ?_
      refine (Agree.oidEq (by omega)).bind fun any _ => ?_
      exact .ite (fun _ => ih (by omega) hle) fun _ => ih (by omega) hle

/-- The extKeyUsage reader keeps the names found so far. -/
theorem agree_extExtKeyUsage (hidx : idx ≤ e) :
    Agree (Checked.extExtKeyUsage der idx e x crit) (extExtKeyUsage der idx e x crit)
      fun x' => x'.san = x.san := by
  unfold Checked.extExtKeyUsage extExtKeyUsage
  extract_lets src flags
  refine (agree_getHeader hder he _ hidx).bind fun r hr => ?_
  obtain ⟨seqLen, i⟩ := r
  have hle : i + seqLen ≤ e := hr.le
  refine .add (by omega) (Agree.decodeIf.bind fun _ hfill => Agree.decodeIf.bind fun _ _ => ?_)
  have hfill := not_not.1 hfill
  exact (agree_ekuLoop hder he (by omega) (by omega)).bind fun usage _ => .of_pure rfl

/-- By induction on the fuel, name by name: every slice that goes to the pool lies inside
the list. -/
theorem agree_sanLoop {n : Nat} {san : List Slice} (hn : e < idx + n) (hidx : idx ≤ e)
    (hlo : lo ≤ idx) (hsan : NamesIn der lo e san) :
    Agree (Checked.sanLoop der n idx e san) (sanLoop der n idx e san) (NamesIn der lo e) := by
  induction n generalizing idx san with
  | zero => omega
  | succ n ih =>
      unfold Checked.sanLoop sanLoop
      refine .ite (fun hmore => ?_) fun _ => .of_pure hsan
      refine (Agree.byteAt (by omega)).bind fun tag _ => ?_
      refine (agree_getHeader hder he _ hidx).bind fun r hr => ?_
      obtain ⟨len, i⟩ := r
      have hlt : idx < i := hr.lt
      have hle : i + len ≤ e := hr.le
      refine .add (by omega) (.ite (fun _ => ?_) fun _ => ih (by omega) hle (by omega) hsan)
      refine Agree.decodeIf.bind fun _ hsize => (Agree.hasNul (by omega)).bind fun nul hnul => ?_
      refine Agree.decodeIf.bind fun _ hclean => ?_
      refine .ite (fun hroom => ?_) fun _ => ih (by omega) hle (by omega) hsan
      refine ih (by omega) hle (by omega) ⟨?_, fun s hs => ?_⟩
      · rw [List.length_append, List.length_singleton]
        exact hroom
      · rcases List.mem_append.1 hs with hold | hnew
        · exact hsan.each s hold
        · obtain rfl := List.mem_singleton.1 hnew
          have hlen : (slice der i len).length = len := slice_length (by omega)
          unfold x509MaxDnsName at hsize
          refine ⟨⟨by dsimp only; omega, hle⟩, ?_, ?_, fun hmem => hclean (hnul.2 hmem)⟩
          · rw [Slice.bytes, hlen]
            omega
          · rw [Slice.bytes, hlen]
            omega

/-- The subjectAltName reader adds slices of its own contents. -/
theorem agree_extAltName (hidx : idx ≤ e) (hlo : lo ≤ idx) (hsan : NamesIn der lo e x.san) :
    Agree (Checked.extAltName der idx e x crit) (extAltName der idx e x crit)
      fun x' => NamesIn der lo e x'.san := by
  unfold Checked.extAltName extAltName
  extract_lets src flags
  refine (agree_getHeader hder he _ hidx).bind fun r hr => ?_
  obtain ⟨seqLen, i⟩ := r
  have hlt : idx < i := hr.lt
  have hle : i + seqLen ≤ e := hr.le
  refine .add (by omega) (Agree.decodeIf.bind fun _ hfill => Agree.decodeIf.bind fun _ _ => ?_)
  have hfill := not_not.1 hfill
  exact (agree_sanLoop hder he (by omega) (by omega) (by omega) hsan).bind fun san hsan' =>
    .of_pure hsan'

/-- Whichever of the known extensions it is. -/
theorem agree_parseKnown {k : KnownExt} (hidx : idx ≤ e) (hlo : lo ≤ idx)
    (hsan : NamesIn der lo e x.san) :
    Agree (Checked.parseKnown B der k idx e x crit) (k.parse B der idx e x crit)
      fun x' => NamesIn der lo e x'.san := by
  have hkeep : ∀ x' : X509Exts, x'.san = x.san → NamesIn der lo e x'.san := by
    intro x' heq
    rw [heq]
    exact hsan
  cases k with
  | bc => exact (agree_extBasicConstraints hder he hidx).mono hkeep
  | ku => exact (agree_extKeyUsage hder he hidx).mono hkeep
  | eku => exact (agree_extExtKeyUsage hder he hidx).mono hkeep
  | san => exact .ite (fun _ => agree_extAltName hder he hidx hlo hsan) fun _ => .of_pure hsan

/-- One extension, known or not. -/
theorem agree_parseExtension {seen : List KnownExt} (hidx : idx ≤ e) (hlo : lo ≤ idx)
    (hsan : NamesIn der lo e x.san) :
    Agree (Checked.parseExtension B der idx e x seen) (parseExtension B der idx e x seen)
      fun r => NamesIn der lo e r.1.san := by
  unfold Checked.parseExtension parseExtension
  refine (agree_getHeader hder he _ hidx).bind fun r hr => ?_
  obtain ⟨oidLen, oidAt⟩ := r
  have hoidLt : idx < oidAt := hr.lt
  have hoidLe : oidAt + oidLen ≤ e := hr.le
  refine .add (by omega) ?_
  dsimp -zeta only
  extract_lets value' crit' i value crit
  have hvalue : ∀ r : Bool × Nat, idx ≤ r.2 ∧ r.2 ≤ e →
      Agree (value' r) (value r) fun r => NamesIn der lo e r.1.san := by
    rintro ⟨isCrit, j⟩ ⟨hj, hjle⟩
    dsimp only at hj hjle
    unfold value' value
    dsimp only
    refine (agree_getHeader hder he _ hjle).bind fun r hr => ?_
    obtain ⟨valLen, k⟩ := r
    have hlt : j < k := hr.lt
    have hle : k + valLen ≤ e := hr.le
    refine .add (by omega) (Agree.decodeIf.bind fun _ hfill => ?_)
    obtain rfl := not_not.1 hfill
    refine (Agree.oidLookup (by omega)).bind fun known _ => ?_
    cases known with
    | none => exact .ite (fun _ => .mk_error (by decide)) fun _ => .of_pure hsan
    | some known =>
        refine Agree.decodeIf.bind fun _ _ => ?_
        exact (agree_parseKnown hder he (by omega) (by omega) hsan).bind fun x' hx' => .of_pure hx'
  have hcrit : ∀ bool, Agree (crit' bool) (crit bool) fun r => NamesIn der lo e r.1.san := by
    intro bool
    unfold crit' crit
    refine .ite (fun _ => ?_) fun _ => hvalue (false, oidAt + oidLen) ⟨by dsimp only; omega, hoidLe⟩
    refine (agree_getHeader hder he _ (by omega)).bind fun r hr => ?_
    obtain ⟨len, k⟩ := r
    have hlt : oidAt + oidLen < k := hr.lt
    have hle : k + len ≤ e := hr.le
    refine Agree.decodeIf.bind fun _ hone => ?_
    have hone := not_not.1 hone
    refine (Agree.byteAt (by omega)).bind fun v _ => Agree.decodeIf.bind fun _ _ => ?_
    exact .add (by omega) (hvalue (true, k + len) ⟨by dsimp only; omega, hle⟩)
  exact agree_isTag he fun bool _ => hcrit bool

omit hder he in
/-- Names between two places are so for a wider range. -/
theorem NamesIn.mono {hi : Nat} {san : List Slice} (h : NamesIn der lo hi san) (hle : hi ≤ e) :
    NamesIn der lo e san := by
  refine ⟨h.pool, fun s hs => ?_⟩
  have hs := h.each s hs
  exact ⟨⟨hs.inside.lo, Nat.le_trans hs.inside.hi hle⟩, hs.name⟩

/-- The names read so far are before the index. -/
theorem agree_extLoop {n : Nat} {seen : List KnownExt} (hn : e < idx + n) (hidx : idx ≤ e)
    (hlo : lo ≤ idx) (hsan : NamesIn der lo idx x.san) :
    Agree (Checked.extLoop B der n idx e x seen) (extLoop B der n idx e x seen)
      fun x' => NamesIn der lo e x'.san := by
  induction n generalizing idx x seen with
  | zero => omega
  | succ n ih =>
      unfold Checked.extLoop extLoop
      refine .ite (fun hmore => ?_) fun _ => .of_pure (hsan.mono hidx)
      refine (agree_getHeader hder he _ hidx).bind fun r hr => ?_
      obtain ⟨len, i⟩ := r
      have hlt : idx < i := hr.lt
      have hle : i + len ≤ e := hr.le
      refine .add (by omega) ?_
      have hstart : NamesIn der lo (i + len) x.san := hsan.mono (by omega)
      have hone : i ≤ i + len := Nat.le_add_right ..
      refine (agree_parseExtension hder (by omega) hone (by omega) hstart).bind fun r hr => ?_
      exact ih (by omega) hle (by omega) hr

/-- By induction on the fuel, over the two unique identifiers. -/
theorem agree_skipUids {n version : Nat} (hn : e < idx + n) (hidx : idx ≤ e) (hlo : lo ≤ idx) :
    Agree (Checked.skipUids der version n idx e) (skipUids der version n idx e)
      fun i => lo ≤ i ∧ i ≤ e := by
  induction n generalizing idx with
  | zero => omega
  | succ n ih =>
      unfold Checked.skipUids skipUids
      refine .ite (fun hmore => ?_) fun _ => .of_pure ⟨hlo, hidx⟩
      refine (Agree.byteAt (by omega)).bind fun tag _ => ?_
      refine .ite (fun _ => .of_pure ⟨hlo, hidx⟩) fun _ => Agree.decodeIf.bind fun _ _ => ?_
      refine (agree_getHeader hder he _ hidx).bind fun r hr => ?_
      obtain ⟨len, i⟩ := r
      have hlt : idx < i := hr.lt
      have hle : i + len ≤ e := hr.le
      exact .add (by omega) (ih (by omega) hle (by omega))

/-- The extension block, if there is one. -/
theorem agree_parseExtensions {version : Nat} (hidx : idx ≤ e) :
    Agree (Checked.parseExtensions B der idx e version) (parseExtensions B der idx e version)
      fun x' => NamesIn der idx e x'.san := by
  have hzero : ∀ hi, NamesIn der idx hi X509Exts.zero.san := fun hi =>
    ⟨Nat.zero_le _, fun _ hs => (List.not_mem_nil hs).elim⟩
  unfold Checked.parseExtensions parseExtensions
  refine (agree_skipUids hder he (by omega) hidx (Nat.le_refl idx)).bind fun i hi => ?_
  obtain ⟨hlo, hile⟩ := hi
  refine .ite (fun hmore => Agree.decodeIf.bind fun _ _ => ?_) fun _ => .of_pure (hzero e)
  refine (agree_getHeader hder he _ hile).bind fun r hr => ?_
  obtain ⟨len, j⟩ := r
  have hlt : i < j := hr.lt
  have hle : j + len ≤ e := hr.le
  refine .add (by omega) (Agree.decodeIf.bind fun _ _ => ?_)
  have hin : j ≤ j + len := Nat.le_add_right ..
  refine (agree_getHeader hder (by omega) _ hin).bind fun r hr => ?_
  obtain ⟨len', k⟩ := r
  have hlt' : j < k := hr.lt
  have hle' : k + len' ≤ j + len := hr.le
  refine .add (by omega) (Agree.decodeIf.bind fun _ hfill => Agree.decodeIf.bind fun _ _ => ?_)
  have hfill := not_not.1 hfill
  refine (agree_extLoop hder (by omega) (by omega) (by omega) (by omega) (hzero k)).mono ?_
  exact fun x' hx' => hx'.mono hle

/-! ### The certificate -/

/-- The version, explicit or by default. -/
theorem agree_parseVersion (hidx : idx ≤ e) :
    Agree (Checked.parseVersion der idx e) (parseVersion der idx e)
      fun r => idx ≤ r.2 ∧ r.2 ≤ e := by
  unfold Checked.parseVersion parseVersion
  extract_lets body' body
  refine agree_isTag he fun bool hbool => ?_
  unfold body' body
  refine .ite (fun _ => ?_) fun _ => .of_pure ⟨Nat.le_refl _, hidx⟩
  refine (agree_getHeader hder he _ hidx).bind fun r hr => ?_
  obtain ⟨len, i⟩ := r
  have hlt : idx < i := hr.lt
  have hle : i + len ≤ e := hr.le
  refine .add (by omega) ?_
  have hin : i ≤ i + len := Nat.le_add_right ..
  refine (agree_getHeader hder (by omega) _ hin).bind fun r hr => ?_
  obtain ⟨len', j⟩ := r
  have hlt' : i < j := hr.lt
  have hle' : j + len' ≤ i + len := hr.le
  refine Agree.decodeIf.bind fun _ hone => ?_
  have hone := not_not.1 hone
  refine (Agree.byteAt (by omega)).bind fun v _ => .add (by omega) ?_
  exact Agree.decodeIf.bind fun _ _ => .of_pure ⟨by dsimp only; omega, hle⟩

/-- The parameters behind the signature algorithm. -/
theorem agree_sigAlgParams {sigAlg : X509Sig} (hidx : idx ≤ e) :
    Agree (Checked.sigAlgParams der sigAlg idx e) (sigAlgParams der sigAlg idx e)
      fun _ => True := by
  unfold Checked.sigAlgParams sigAlgParams
  refine .ite (fun _ => Agree.decodeIf.mono fun _ _ => trivial) fun _ => ?_
  refine .ite (fun _ => ?_) fun _ => .of_pure trivial
  refine .add (by omega) (Agree.decodeIf.bind fun _ hfill => ?_)
  have hfill := not_not.1 hfill
  refine (Agree.byteAt (by omega)).bind fun tag _ => .add (by omega) ?_
  refine (Agree.byteAt (by omega)).bind fun len _ => ?_
  exact Agree.decodeIf.mono fun _ _ => trivial

omit hder he in
/-- The length of a whole element. -/
theorem Agree.wholeLen {α : Type} {begin_ i len : Nat} {g : Nat → Asn α} {y : Asn α} {Q : α → Prop}
    (hle : begin_ ≤ i) (hfits : len + (i - begin_) < 2 ^ 32)
    (hg : Agree (g (len + (i - begin_))) y Q) :
    Agree (Checked.wholeLen begin_ i len >>= g) y Q := by
  unfold Checked.wholeLen Checked.sub32 Checked.add32
  rw [if_pos hle]
  show Agree ((if len + (i - begin_) < 2 ^ 32 then .ok (len + (i - begin_))
    else .error .fault) >>= g) y Q
  rw [if_pos hfits]
  exact hg

end Extensions

/-- Every slice of the record is where it belongs, and every name is one. -/
structure CertInside (der : Bytes) (c : X509Cert) : Prop where
  tbs : c.tbs.In 0 der.length
  sig : c.sig.In 0 der.length
  spki : c.spki.In c.tbs.off (c.tbs.off + c.tbs.len)
  pubKey : c.pubKey.In c.spki.off (c.spki.off + c.spki.len)
  notBefore : c.notBefore.In c.tbs.off (c.tbs.off + c.tbs.len)
  notAfter : c.notAfter.In c.tbs.off (c.tbs.off + c.tbs.len)
  subjectCN : ∀ s, c.subjectCN = some s → NameIn der c.tbs.off (c.tbs.off + c.tbs.len) s
  san : NamesIn der c.tbs.off (c.tbs.off + c.tbs.len) c.exts.san

/-- The whole certificate, reader by reader: the checked parser gives what the parser
gives, and every slice of the result lies inside the tbsCertificate. -/
theorem agree_x509Parse (B : X509Build) (der : Bytes) :
    Agree (Checked.x509Parse B der) (x509Parse B der) (CertInside der) := by
  unfold Checked.x509Parse x509Parse
  refine .ite (fun _ => .mk_error (by decide)) fun hargs => ?_
  have hder : der.length < 2 ^ 31 := by omega
  have hall : der.length ≤ der.length := Nat.le_refl _
  refine (agree_getHeader hder hall _ (Nat.zero_le _)).bind fun r hr => ?_
  obtain ⟨totLen, certBegin⟩ := r
  have htot : certBegin + totLen ≤ der.length := hr.le
  refine .add (by omega) (Agree.decodeIf.bind fun _ _ => ?_)
  refine (agree_getHeader hder hall _ (by omega)).bind fun r hr => ?_
  obtain ⟨certLen, tbsBody⟩ := r
  have htbsLt : certBegin < tbsBody := hr.lt
  have htbsLe : tbsBody + certLen ≤ der.length := hr.le
  refine .wholeLen (by omega) (by omega) (.add (by omega) ?_)
  refine (agree_parseVersion hder (by omega) (by omega)).bind fun r hr => ?_
  obtain ⟨version, serialAt⟩ := r
  obtain ⟨hserialAt, hserialLe⟩ := hr
  dsimp only at hserialAt hserialLe
  refine (agree_getHeader hder (by omega) _ hserialLe).bind fun r hr => ?_
  obtain ⟨serialLen, serialBody⟩ := r
  have hserialLt : serialAt < serialBody := hr.lt
  have hserialEnd := hr.le
  dsimp only at hserialEnd
  refine Agree.decodeIf.bind fun _ _ => .add (by omega) ?_
  refine (agree_getHeader hder (by omega) _ hserialEnd).bind fun r hr => ?_
  obtain ⟨innerLen, innerBody⟩ := r
  have hinnerLt : serialBody + serialLen < innerBody := hr.lt
  have hinnerEnd := hr.le
  dsimp only at hinnerEnd
  refine .wholeLen (by omega) (by omega) (.add (by omega) ?_)
  refine (agree_getHeader hder (by omega) _ hinnerEnd).bind fun r hr => ?_
  obtain ⟨issuerLen, issuerBody⟩ := r
  have hissuerLt : innerBody + innerLen < issuerBody := hr.lt
  have hissuerEnd := hr.le
  dsimp only at hissuerEnd
  refine .add (by omega) ?_
  refine (agree_getHeader hder (by omega) _ hissuerEnd).bind fun r hr => ?_
  obtain ⟨validityLen, validityBody⟩ := r
  have hvalidityLt : issuerBody + issuerLen < validityBody := hr.lt
  have hvalidityEnd := hr.le
  dsimp only at hvalidityEnd
  refine .add (by omega) ?_
  refine (agree_getTime hder (by omega) (Nat.le_add_right ..)).bind fun r hr => ?_
  obtain ⟨notBefore, notAfterAt⟩ := r
  obtain ⟨hnotBefore, hnotBeforeLe, hnotAfterAt⟩ := hr
  dsimp only at hnotBefore hnotBeforeLe hnotAfterAt
  refine (agree_getTime hder (by omega) hnotAfterAt).bind fun r hr => ?_
  obtain ⟨notAfter, timesEnd⟩ := r
  obtain ⟨hnotAfter, -, -⟩ := hr
  dsimp only at hnotAfter
  refine Agree.decodeIf.bind fun _ htimes => ?_
  obtain rfl := not_not.1 htimes
  refine (agree_getHeader hder (by omega) _ hvalidityEnd).bind fun r hr => ?_
  obtain ⟨subjectLen, subjectBody⟩ := r
  have hsubjectLt : validityBody + validityLen < subjectBody := hr.lt
  have hsubjectEnd := hr.le
  dsimp only at hsubjectEnd
  refine .add (by omega) ?_
  dsimp -zeta only
  extract_lets -underBinder rest' rest
  -- from the SubjectPublicKeyInfo on
  have hrest : ∀ cn, (∀ s, cn = some s →
      NameIn der certBegin (certBegin + (certLen + (tbsBody - certBegin))) s) →
      Agree (rest' cn) (rest cn) (CertInside der) := by
    intro cn hcn
    unfold rest' rest
    refine (agree_getHeader hder (by omega) _ hsubjectEnd).bind fun r hr => ?_
    obtain ⟨keyLen, keyBody⟩ := r
    have hkeyLt : subjectBody + subjectLen < keyBody := hr.lt
    have hkeyEnd := hr.le
    dsimp only at hkeyEnd
    refine .wholeLen (by omega) (by omega) (.add (by omega) ?_)
    refine (agree_getHeader hder (by omega) _ (Nat.le_add_right ..)).bind fun r hr => ?_
    obtain ⟨algLen, algBody⟩ := r
    have halgLt : keyBody < algBody := hr.lt
    have halgEnd := hr.le
    dsimp only at halgEnd
    refine .add (by omega) ?_
    obtain ⟨hoids, hoidsSafe⟩ :=
      agree_parseAlgIdOids (B := B) hder (by omega) (Nat.le_add_right algBody algLen)
    dsimp only
    rw [hoids]
    have hrc : Agree (parseAlgIdOids B der algBody (algBody + algLen)).1
        (parseAlgIdOids B der algBody (algBody + algLen)).1 fun _ => True :=
      ⟨rfl, hoidsSafe, fun _ _ => trivial⟩
    refine hrc.bind fun _ _ => ?_
    refine (agree_getBitString hder (by omega) halgEnd).bind fun r hr => ?_
    obtain ⟨pubKey, keyAt⟩ := r
    obtain ⟨hpubKey, -⟩ := hr
    dsimp only at hpubKey
    refine Agree.decodeIf.bind fun _ hfill => ?_
    obtain rfl := not_not.1 hfill
    refine (agree_parseExtensions hder (by omega) hkeyEnd).bind fun exts hexts => ?_
    refine (agree_getHeader hder hall _ (by omega)).bind fun r hr => ?_
    obtain ⟨outerLen, outerBody⟩ := r
    have houterLt := hr.lt
    have houterEnd := hr.le
    dsimp only at houterLt houterEnd
    refine .add (by omega) ?_
    refine (agree_getHeader hder houterEnd _ (Nat.le_add_right ..)).bind fun r hr => ?_
    obtain ⟨oidLen, oidBody⟩ := r
    have hoidLt := hr.lt
    have hoidEnd := hr.le
    dsimp only at hoidLt hoidEnd
    refine (Agree.oidLookup (by omega)).bind fun sigAlg _ => ?_
    refine .wholeLen (by omega) (by omega) (Agree.decodeIf.bind fun _ hsame => ?_)
    have hsame := not_not.1 hsame
    refine (Agree.bytesAt (by omega)).bind fun inner _ => ?_
    refine (Agree.bytesAt (by omega)).bind fun outer _ => Agree.decodeIf.bind fun _ _ => ?_
    refine .add (by omega) ((agree_sigAlgParams hder houterEnd hoidEnd).bind fun _ _ => ?_)
    refine (agree_getBitString hder hall houterEnd).bind fun r hr => ?_
    obtain ⟨sig, sigEnd⟩ := r
    obtain ⟨hsig, -⟩ := hr
    dsimp only at hsig
    refine Agree.decodeIf.bind fun _ _ => .of_pure ?_
    exact {
      tbs := ⟨Nat.zero_le _, by dsimp only; omega⟩
      sig := hsig.mono (Nat.zero_le _) (Nat.le_refl _)
      spki := ⟨by dsimp only; omega, by dsimp only; omega⟩
      pubKey := hpubKey.mono (by dsimp only; omega) (by dsimp only; omega)
      notBefore := hnotBefore.mono (by dsimp only; omega) (by dsimp only; omega)
      notAfter := hnotAfter.mono (by dsimp only; omega) (by dsimp only; omega)
      subjectCN := hcn
      san := ⟨hexts.pool, fun s hs => ⟨(hexts.each s hs).inside.mono (by dsimp only; omega)
        (Nat.le_refl _), (hexts.each s hs).name⟩⟩ }
  refine .ite (fun _ => ?_) fun _ => hrest none fun s hs => nomatch hs
  have hin : subjectBody + subjectLen ≤ der.length := by omega
  refine (agree_findCn hder hin (by omega) (by omega) (by omega : certBegin ≤ subjectBody)).bind ?_
  intro cn hcn
  refine hrest cn fun s hs => ?_
  have hname := hcn s hs
  exact ⟨⟨hname.inside.lo, Nat.le_trans hname.inside.hi hsubjectEnd⟩, hname.name⟩

/-- The record after `XMEMSET(cert, 0, sizeof(*cert))`. -/
def X509Cert.zero : X509Cert where
  der := []
  tbs := ⟨0, 0⟩
  sig := ⟨0, 0⟩
  pubKey := ⟨0, 0⟩
  spki := ⟨0, 0⟩
  notBefore := ⟨0, 0⟩
  notAfter := ⟨0, 0⟩
  subjectCN := none
  sigAlg := .unknown
  keyAlg := .unknown
  curve := .none
  exts := .zero

/-- `wn_X509_Parse` on the record of the caller: its code, and what it leaves there. -/
def x509ParseInto (B : X509Build) (der : Bytes) : Asn Unit × X509Cert :=
  match Checked.x509Parse B der with
  | .ok c => (.ok (), c)
  | .error e => (.error e, .zero)

/-- On every input the parser ends without a read outside it and without an index that wraps;
what it reports is inside, and a failure leaves nothing behind. -/
theorem parse_inside (B : X509Build) (der : Bytes) :
    Checked.x509Parse B der ≠ .error .fault ∧ Checked.x509Parse B der = x509Parse B der ∧
      (∀ c, x509ParseInto B der = (.ok (), c) → CertInside der c ∧ x509Parse B der = .ok c) ∧
      ∀ e cert, x509ParseInto B der = (.error e, cert) → cert = .zero := by
  have hagree := agree_x509Parse B der
  refine ⟨?_, hagree.same, ?_, ?_⟩
  · rw [hagree.same]
    exact hagree.safe
  · intro c hc
    unfold x509ParseInto at hc
    rw [hagree.same] at hc
    cases hparse : x509Parse B der with
    | error e =>
        rw [hparse] at hc
        cases hc
    | ok c' =>
        rw [hparse] at hc
        obtain rfl : c' = c := (Prod.mk.inj hc).2
        exact ⟨hagree.post c' hparse, rfl⟩
  · intro e cert hcert
    unfold x509ParseInto at hcert
    cases hparse : Checked.x509Parse B der with
    | error e' =>
        rw [hparse] at hcert
        exact (Prod.mk.inj hcert).2.symm
    | ok c =>
        rw [hparse] at hcert
        cases hcert

end WolfNano
