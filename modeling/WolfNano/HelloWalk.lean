/-
The vectors inside the extensions of a ClientHello: what each loop of the parser has read
when it ends without an error.
-/
import WolfNano.Reading

namespace WolfNano

open Duplex

/-- A vector with a length octet. -/
def vec8 (b : Bytes) : Bytes := UInt8.ofNat b.length :: b

/-- A vector with a 16-bit length. -/
def vec16 (b : Bytes) : Bytes := u16 b.length ++ b

@[simp] theorem vec8_length (b : Bytes) : (vec8 b).length = 1 + b.length := by
  rw [vec8, List.length_cons, Nat.add_comm]

@[simp] theorem vec16_length (b : Bytes) : (vec16 b).length = 2 + b.length := by
  rw [vec16, List.length_append, u16_length]

/-- A KeyShareEntry. -/
structure KeyShareEntry where
  group : Nat
  key : Bytes

def KeyShareEntry.encode (s : KeyShareEntry) : Bytes := u16 s.group ++ vec16 s.key

/-- A PskIdentity. -/
structure PskIdentity where
  identity : Bytes
  age : Bytes
  identity_ne : identity ≠ []
  age_length : age.length = 4

def PskIdentity.encode (i : PskIdentity) : Bytes := vec16 i.identity ++ i.age

namespace Reader

variable {msg : Bytes} {p : Nat}

/-- A number with its octets in place. -/
theorem u16_read (hmsg : msg.length < 2 ^ 31) (hp : p ≤ msg.length)
    (h : (upTo msg p).u16.2.err = false) :
    ∃ v < 2 ^ 16, At msg p (Duplex.u16 v) ∧ (upTo msg p).u16 = (v, upTo msg (p + 2)) := by
  obtain ⟨hroom, hread⟩ := u16_got hmsg hp h
  exact ⟨_, ofBE_lt_u16 (slice_length hroom), At.u16 hroom, hread⟩

theorem u24_read (hp : p + 3 < 2 ^ 32) (h : (upTo msg p).u24.2.err = false) :
    ∃ v < 2 ^ 24, At msg p (Duplex.u24 v) ∧ (upTo msg p).u24 = (v, upTo msg (p + 3)) := by
  obtain ⟨-, hroom, hread⟩ := uint_noErr h
  rw [upTo_pos, add32_eq hp] at hroom hread
  obtain ⟨hlt, hbytes⟩ := u24_ofBE (slice_length hroom)
  refine ⟨_, hlt, ?_, hread⟩
  rw [hbytes]
  exact At.of_slice hroom

theorem u8_read (h : (upTo msg p).u8.2.err = false) :
    ∃ v < 2 ^ 8, At msg p [UInt8.ofNat v] ∧ (upTo msg p).u8 = (v, upTo msg (p + 1)) := by
  obtain ⟨hroom, hread⟩ := u8_got h
  exact ⟨_, UInt8.toNat_lt _, At.u8 hroom, hread⟩

theorem bytes_read {n : Nat} (hmsg : msg.length < 2 ^ 31) (hp : p ≤ msg.length) (hn : n < 2 ^ 24)
    (h : ((upTo msg p).bytes n).2.err = false) :
    ∃ b : Bytes, b.length = n ∧ At msg p b ∧
      (upTo msg p).bytes n = (some p, upTo msg (p + b.length)) := by
  obtain ⟨hroom, hread⟩ := bytes_got hmsg hp hn h
  refine ⟨slice msg p n, slice_length hroom, At.of_slice hroom, ?_⟩
  rw [slice_length hroom]
  exact hread

end Reader

/-! ### The loops -/

/-- `out` with the key share at `off`. -/
def ClientHello.withShare (out : ClientHello) (group off len : Nat) : ClientHello :=
  { out with keyShare := some off, keyShareLen := len, group := group, haveKeyShare := true }

section Loops

variable {msg : Bytes} {r : Reader} {out : ClientHello}

theorem readShares_noErr {group n ksEnd : Nat}
    (h : (readShares group n ksEnd out r).2.err = false) : r.err = false := by
  induction n generalizing out r with
  | zero => exact h
  | succ n ih =>
      unfold readShares at h
      split at h
      · rename_i hcond
        exact hcond.2
      · exact h

theorem readGroups_noErr {group n ksEnd : Nat} {offered : Bool}
    (h : (readGroups group n ksEnd offered r).2.err = false) : r.err = false := by
  induction n generalizing offered r with
  | zero => exact h
  | succ n ih =>
      unfold readGroups at h
      split at h
      · rename_i hcond
        exact hcond.1
      · exact h

theorem readVersions_noErr {n j nver : Nat} {have13 : Bool}
    (h : (readVersions n j nver have13 r).2.err = false) : r.err = false := by
  induction n generalizing j have13 r with
  | zero => exact h
  | succ n ih =>
      unfold readVersions at h
      split at h
      · exact (Reader.uint_noErr (ih h)).1
      · exact h

theorem readPskModes_noErr {n j pmLen : Nat} {haveDhe : Bool}
    (h : (readPskModes n j pmLen haveDhe r).2.err = false) : r.err = false := by
  induction n generalizing j haveDhe r with
  | zero => exact h
  | succ n ih =>
      unfold readPskModes at h
      split at h
      · exact (Reader.u8_noErr (ih h)).1
      · exact h

theorem readCiphers_noErr {n i csLen cipher : Nat}
    (h : (readCiphers n i csLen cipher r).2.err = false) : r.err = false := by
  induction n generalizing i cipher r with
  | zero => exact h
  | succ n ih =>
      unfold readCiphers at h
      split at h
      · exact (Reader.uint_noErr (ih h)).1
      · exact h

theorem readIdentities_noErr {n idsEnd nId : Nat}
    (h : (readIdentities n idsEnd nId out r).2.2.err = false) : r.err = false := by
  induction n generalizing nId out r with
  | zero => exact h
  | succ n ih =>
      unfold readIdentities at h
      split at h
      · rename_i hcond
        exact hcond.2
      · exact h

theorem readBinders_noErr {n bndEnd nBnd : Nat}
    (h : (readBinders n bndEnd nBnd out r).2.2.err = false) : r.err = false := by
  induction n generalizing nBnd out r with
  | zero => exact h
  | succ n ih =>
      unfold readBinders at h
      split at h
      · rename_i hcond
        exact hcond.2
      · exact h

variable (hmsg : msg.length < 2 ^ 31)

include hmsg

/-- The entries read fill the message up to where the reader stops, at the declared end or
past it. -/
theorem readShares_upTo {group n p ksEnd : Nat} (hp : p ≤ msg.length) (hfuel : ksEnd < p + n)
    (h : (readShares group n ksEnd out (.upTo msg p)).2.err = false) :
    ∃ shares : List KeyShareEntry, At msg p (shares.flatMap KeyShareEntry.encode) ∧
      ksEnd ≤ p + (shares.flatMap KeyShareEntry.encode).length ∧
      (readShares group n ksEnd out (.upTo msg p)).2 =
        .upTo msg (p + (shares.flatMap KeyShareEntry.encode).length) ∧
      ((readShares group n ksEnd out (.upTo msg p)).1 = out ∨
        ∃ off len, off + len ≤ msg.length ∧
          (readShares group n ksEnd out (.upTo msg p)).1 = out.withShare group off len) := by
  induction n generalizing out p with
  | zero => exact ⟨[], At.nil hp, by simpa using Nat.le_of_lt hfuel, rfl, .inl rfl⟩
  | succ n ih =>
      unfold readShares at h ⊢
      by_cases hcond : (Reader.upTo msg p).pos < ksEnd ∧ (Reader.upTo msg p).err = false
      · rw [if_pos hcond] at h ⊢
        dsimp only at h ⊢
        have hbytes := readShares_noErr h
        have hlen := (Reader.bytes_noErr hbytes).1
        have hgroup := (Reader.uint_noErr hlen).1
        obtain ⟨g, -, hgAt, hgRead⟩ := Reader.u16_read hmsg hp hgroup
        rw [hgRead] at h hbytes hlen ⊢
        have hp₂ : p + 2 ≤ msg.length := hgAt.1
        obtain ⟨klen, hklen, hkAt, hkRead⟩ := Reader.u16_read hmsg hp₂ hlen
        dsimp only at h hbytes ⊢
        rw [hkRead] at h hbytes ⊢
        obtain ⟨key, hkey, hkeyAt, hkeyRead⟩ :=
          Reader.bytes_read (p := p + 2 + 2) hmsg hkAt.1 (Nat.lt_trans hklen (by decide)) hbytes
        dsimp only at h ⊢
        rw [hkeyRead] at h ⊢
        dsimp only at h ⊢
        obtain ⟨shares, hAt, hend, hread, hout⟩ := ih hkeyAt.1 (by omega) h
        have hentry : At msg p (KeyShareEntry.encode ⟨g, key⟩) := by
          rw [KeyShareEntry.encode, vec16, hkey]
          exact hgAt.append (hkAt.append hkeyAt)
        have hentryLen : (KeyShareEntry.encode ⟨g, key⟩).length = 2 + 2 + key.length := by
          simp [KeyShareEntry.encode]
          omega
        have hpos : p + (KeyShareEntry.encode ⟨g, key⟩).length = p + 2 + 2 + key.length := by
          omega
        refine ⟨⟨g, key⟩ :: shares, ?_, ?_, ?_, ?_⟩
        · rw [List.flatMap_cons]
          refine hentry.append ?_
          rw [hpos]
          exact hAt
        · rw [List.flatMap_cons, List.length_append, ← Nat.add_assoc, hpos]
          exact hend
        · rw [List.flatMap_cons, List.length_append, ← Nat.add_assoc, hpos]
          exact hread
        · by_cases hours : g = group
          · rw [if_pos ⟨hours, rfl⟩] at hout ⊢
            refine .inr ?_
            rcases hout with heq | ⟨off, len, hin, heq⟩
            · refine ⟨p + 2 + 2, klen, by rw [← hkey]; exact hkeyAt.1, ?_⟩
              rw [heq, hours]
              rfl
            · exact ⟨off, len, hin, heq⟩
          · rw [if_neg (fun hand => hours hand.1)] at hout ⊢
            exact hout
      · rw [if_neg hcond]
        refine ⟨[], At.nil hp, ?_, rfl, .inl rfl⟩
        simpa using hcond

theorem readGroups_upTo {group n p ksEnd : Nat} {offered : Bool} (hp : p ≤ msg.length)
    (hfuel : ksEnd < p + 2 + n)
    (h : (readGroups group n ksEnd offered (.upTo msg p)).2.err = false) :
    ∃ groups : List Nat, At msg p (groups.flatMap u16) ∧
      ksEnd < p + 2 * groups.length + 2 ∧ (p ≤ ksEnd → p + 2 * groups.length ≤ ksEnd) ∧
      (readGroups group n ksEnd offered (.upTo msg p)).2 =
        .upTo msg (p + 2 * groups.length) := by
  induction n generalizing offered p with
  | zero => exact ⟨[], At.nil hp, by simpa using hfuel, id, rfl⟩
  | succ n ih =>
      unfold readGroups at h ⊢
      by_cases hcond : (Reader.upTo msg p).err = false ∧ add32 (Reader.upTo msg p).pos 2 ≤ ksEnd
      · rw [if_pos hcond] at h ⊢
        dsimp only at h ⊢
        obtain ⟨g, -, hgAt, hgRead⟩ := Reader.u16_read hmsg hp (readGroups_noErr h)
        rw [hgRead] at h ⊢
        have hroom : p + 2 ≤ ksEnd := by
          have hle := hcond.2
          rwa [Reader.upTo_pos, add32_eq (by omega)] at hle
        obtain ⟨groups, hAt, hend, hin, hread⟩ := ih (p := p + 2) hgAt.1 (by omega) h
        have hlen : p + 2 * (g :: groups).length = p + 2 + 2 * groups.length := by
          rw [List.length_cons]
          omega
        refine ⟨g :: groups, ?_, ?_, ?_, ?_⟩
        · rw [List.flatMap_cons]
          exact hgAt.append hAt
        · rw [hlen]
          exact hend
        · rw [hlen]
          exact fun _ => hin hroom
        · rw [hlen]
          exact hread
      · rw [if_neg hcond]
        refine ⟨[], At.nil hp, ?_, id, rfl⟩
        simpa [add32_eq (show p + 2 < 2 ^ 32 by omega)] using hcond

theorem readVersions_upTo {n p j nver : Nat} {have13 : Bool} (hp : p ≤ msg.length)
    (hj : j ≤ nver) (hnver : nver < 2 ^ 8) (hfuel : nver < j + n)
    (h : (readVersions n j nver have13 (.upTo msg p)).2.err = false) :
    ∃ versions : List Nat, At msg p (versions.flatMap u16) ∧
      versions.length = (nver - j) / 2 ∧
      (readVersions n j nver have13 (.upTo msg p)).2 =
        .upTo msg (p + 2 * versions.length) := by
  induction n generalizing have13 p j with
  | zero => omega
  | succ n ih =>
      unfold readVersions at h ⊢
      by_cases hcond : j + 1 < nver
      · rw [if_pos hcond] at h ⊢
        dsimp only at h ⊢
        obtain ⟨v, -, hvAt, hvRead⟩ := Reader.u16_read hmsg hp (readVersions_noErr h)
        rw [hvRead, Nat.mod_eq_of_lt (by omega)] at h ⊢
        obtain ⟨versions, hAt, hlen, hread⟩ :=
          ih (p := p + 2) (j := j + 2) hvAt.1 (by omega) (by omega) h
        refine ⟨v :: versions, ?_, ?_, ?_⟩
        · rw [List.flatMap_cons]
          exact hvAt.append hAt
        · rw [List.length_cons, hlen]
          omega
        · rw [hread, List.length_cons]
          exact congrArg (Reader.upTo msg) (by omega)
      · rw [if_neg hcond]
        exact ⟨[], At.nil hp, by simp; omega, rfl⟩

omit hmsg in
theorem readPskModes_upTo {n p j pmLen : Nat} {haveDhe : Bool} (hp : p ≤ msg.length)
    (hj : j ≤ pmLen) (hpmLen : pmLen < 2 ^ 8) (hfuel : pmLen < j + n)
    (h : (readPskModes n j pmLen haveDhe (.upTo msg p)).2.err = false) :
    ∃ modes : Bytes, At msg p modes ∧ modes.length = pmLen - j ∧
      (readPskModes n j pmLen haveDhe (.upTo msg p)).2 = .upTo msg (p + modes.length) ∧
      ((readPskModes n j pmLen haveDhe (.upTo msg p)).1 = true →
        haveDhe = true ∨ 1 ∈ modes) := by
  induction n generalizing haveDhe p j with
  | zero => omega
  | succ n ih =>
      unfold readPskModes at h ⊢
      by_cases hcond : j < pmLen
      · rw [if_pos hcond] at h ⊢
        dsimp only at h ⊢
        obtain ⟨m, -, hmAt, hmRead⟩ := Reader.u8_read (readPskModes_noErr h)
        rw [hmRead, Nat.mod_eq_of_lt (by omega)] at h ⊢
        obtain ⟨modes, hAt, hlen, hread, hdhe⟩ :=
          ih (p := p + 1) (j := j + 1) hmAt.1 (by omega) (by omega) h
        refine ⟨UInt8.ofNat m :: modes, hmAt.append hAt, ?_, ?_, ?_⟩
        · rw [List.length_cons, hlen]
          omega
        · rw [hread, List.length_cons]
          exact congrArg (Reader.upTo msg) (by omega)
        · intro htrue
          rcases hdhe htrue with hold | hmem
          · rcases Bool.or_eq_true_iff.1 hold with hbefore | hone
            · exact .inl hbefore
            · have hm : m = 1 := eq_of_beq hone
              rw [hm]
              exact .inr (List.mem_cons_self ..)
          · exact .inr (List.mem_cons_of_mem _ hmem)
      · rw [if_neg hcond]
        exact ⟨[], At.nil hp, by simp; omega, rfl, fun htrue => .inl htrue⟩

/-- The ciphers are whole numbers when their length is even. -/
theorem readCiphers_upTo {n p i csLen cipher : Nat} (hp : p ≤ msg.length) (hi : i ≤ csLen)
    (hcsLen : csLen < 2 ^ 16) (heven : (csLen - i) % 2 = 0) (hfuel : csLen < i + n)
    (h : (readCiphers n i csLen cipher (.upTo msg p)).2.err = false) :
    ∃ ciphers : Bytes, At msg p ciphers ∧ ciphers.length = csLen - i ∧
      (readCiphers n i csLen cipher (.upTo msg p)).2 = .upTo msg (p + ciphers.length) := by
  induction n generalizing cipher p i with
  | zero => omega
  | succ n ih =>
      unfold readCiphers at h ⊢
      by_cases hcond : i < csLen
      · rw [if_pos hcond] at h ⊢
        dsimp only at h ⊢
        obtain ⟨c, -, hcAt, hcRead⟩ := Reader.u16_read hmsg hp (readCiphers_noErr h)
        rw [hcRead] at h ⊢
        by_cases hwrap : i + 2 < 2 ^ 16
        · rw [Nat.mod_eq_of_lt hwrap] at h ⊢
          obtain ⟨ciphers, hAt, hlen, hread⟩ :=
            ih (p := p + 2) (i := i + 2) hcAt.1 (by omega) (by omega) (by omega) h
          refine ⟨u16 c ++ ciphers, hcAt.append hAt, ?_, ?_⟩
          · rw [List.length_append, hlen, u16_length]
            omega
          · rw [hread, List.length_append, u16_length]
            exact congrArg (Reader.upTo msg) (by omega)
        · omega
      · rw [if_neg hcond]
        exact ⟨[], At.nil hp, by simp; omega, rfl⟩

/-- The first identity at `p` is the one kept. -/
def ClientHello.withIdentity (out : ClientHello) (nId p : Nat) : List PskIdentity → ClientHello
  | [] => out
  | i :: _ =>
      if nId = 0 then
        { out with pskIdentity := some (p + 2), pskIdentityLen := i.identity.length }
      else out

omit hmsg in
theorem ClientHello.withIdentity_succ (nId p : Nat) (ids : List PskIdentity) :
    out.withIdentity (nId + 1) p ids = out := by
  cases ids with
  | nil => rfl
  | cons i ids => rw [withIdentity, if_neg (Nat.succ_ne_zero nId)]

omit hmsg in
theorem PskIdentity.encode_length (i : PskIdentity) :
    i.encode.length = 2 + i.identity.length + 4 := by
  rw [encode, List.length_append, vec16_length, i.age_length]

theorem readIdentities_upTo {n p idsEnd nId : Nat} (hp : p ≤ msg.length)
    (hfuel : idsEnd < p + n) (hcount : nId + (idsEnd - p) < 2 ^ 16)
    (h : (readIdentities n idsEnd nId out (.upTo msg p)).2.2.err = false) :
    ∃ ids : List PskIdentity, At msg p (ids.flatMap PskIdentity.encode) ∧
      readIdentities n idsEnd nId out (.upTo msg p) =
        (nId + ids.length, out.withIdentity nId p ids,
          .upTo msg (p + (ids.flatMap PskIdentity.encode).length)) := by
  induction n generalizing out p nId with
  | zero => exact ⟨[], At.nil hp, rfl⟩
  | succ n ih =>
      unfold readIdentities at h ⊢
      by_cases hcond : (Reader.upTo msg p).pos < idsEnd ∧ (Reader.upTo msg p).err = false
      · rw [if_pos hcond] at h ⊢
        dsimp only at h ⊢
        have hsome := readIdentities_noErr h
        obtain ⟨hne, hkeep⟩ := Reader.failWhen_noErr hsome
        rw [hkeep] at h hsome ⊢
        have hid := (Reader.bytes_noErr hsome).1
        have hlen := (Reader.bytes_noErr hid).1
        obtain ⟨idLen, hidLen, hlenAt, hlenRead⟩ := Reader.u16_read hmsg hp hlen
        rw [hlenRead] at h hsome hid hne ⊢
        obtain ⟨identity, hidentity, hidAt, hidRead⟩ :=
          Reader.bytes_read (p := p + 2) hmsg hlenAt.1 (Nat.lt_trans hidLen (by decide)) hid
        dsimp only at h hsome hne ⊢
        rw [hidRead] at h hsome ⊢
        obtain ⟨age, hage, hageAt, hageRead⟩ :=
          Reader.bytes_read (p := p + 2 + identity.length) hmsg hidAt.1 (by decide) hsome
        dsimp only at h ⊢
        rw [hageRead] at h ⊢
        have hpos : p < idsEnd := hcond.1
        rw [Nat.mod_eq_of_lt (show nId + 1 < 2 ^ 16 by omega)] at h ⊢
        obtain ⟨ids, hAt, hread⟩ :=
          ih (p := p + 2 + identity.length + age.length) hageAt.1 (by omega) (by omega) h
        have hidentityNe : identity ≠ [] := by
          intro hnil
          rw [hnil] at hidentity
          rw [← hidentity] at hne
          cases hne
        let i : PskIdentity := ⟨identity, age, hidentityNe, hage⟩
        have hentry : At msg p i.encode := by
          rw [PskIdentity.encode, vec16, hidentity]
          exact (hlenAt.append hidAt).append (by
            rw [List.length_append, u16_length, ← Nat.add_assoc]
            exact hageAt)
        have hentryLen : p + i.encode.length = p + 2 + identity.length + age.length := by
          rw [i.encode_length, hage]
          show p + (2 + identity.length + 4) = _
          omega
        refine ⟨i :: ids, ?_, ?_⟩
        · rw [List.flatMap_cons]
          refine hentry.append ?_
          rw [hentryLen]
          exact hAt
        · rw [hread, List.flatMap_cons, List.length_append, ← Nat.add_assoc, hentryLen,
            List.length_cons]
          rw [ClientHello.withIdentity_succ]
          subst hidentity
          exact Prod.ext (by omega) rfl
      · rw [if_neg hcond]
        exact ⟨[], At.nil hp, rfl⟩

/-- The first binder at `p` is the one kept. -/
def ClientHello.withBinder (out : ClientHello) (nBnd p : Nat) : List Bytes → ClientHello
  | [] => out
  | b :: _ => if nBnd = 0 then { out with binder := some (p + 1), binderLen := b.length } else out

omit hmsg in
theorem ClientHello.withBinder_succ (nBnd p : Nat) (binders : List Bytes) :
    out.withBinder (nBnd + 1) p binders = out := by
  cases binders with
  | nil => rfl
  | cons b binders => rw [withBinder, if_neg (Nat.succ_ne_zero nBnd)]

theorem readBinders_upTo {n p bndEnd nBnd : Nat} (hp : p ≤ msg.length)
    (hfuel : bndEnd < p + n) (hcount : nBnd + (bndEnd - p) < 2 ^ 16)
    (h : (readBinders n bndEnd nBnd out (.upTo msg p)).2.2.err = false) :
    ∃ binders : List Bytes, At msg p (binders.flatMap vec8) ∧
      readBinders n bndEnd nBnd out (.upTo msg p) =
        (nBnd + binders.length, out.withBinder nBnd p binders,
          .upTo msg (p + (binders.flatMap vec8).length)) := by
  induction n generalizing out p nBnd with
  | zero => exact ⟨[], At.nil hp, rfl⟩
  | succ n ih =>
      unfold readBinders at h ⊢
      by_cases hcond : (Reader.upTo msg p).pos < bndEnd ∧ (Reader.upTo msg p).err = false
      · rw [if_pos hcond] at h ⊢
        dsimp only at h ⊢
        have hbytes := readBinders_noErr h
        have hlen := (Reader.bytes_noErr hbytes).1
        obtain ⟨blen, hblen, hlenAt, hlenRead⟩ := Reader.u8_read hlen
        rw [hlenRead] at h hbytes ⊢
        obtain ⟨binder, hbinder, hbAt, hbRead⟩ :=
          Reader.bytes_read (p := p + 1) hmsg hlenAt.1 (Nat.lt_trans hblen (by decide)) hbytes
        dsimp only at h ⊢
        rw [hbRead] at h ⊢
        have hpos : p < bndEnd := hcond.1
        rw [Nat.mod_eq_of_lt (show nBnd + 1 < 2 ^ 16 by omega)] at h ⊢
        obtain ⟨binders, hAt, hread⟩ :=
          ih (p := p + 1 + binder.length) hbAt.1 (by omega) (by omega) h
        have hentry : At msg p (vec8 binder) := by
          rw [vec8, hbinder]
          exact hlenAt.append hbAt
        have hentryLen : p + (vec8 binder).length = p + 1 + binder.length := by
          rw [vec8_length, Nat.add_assoc]
        refine ⟨binder :: binders, ?_, ?_⟩
        · rw [List.flatMap_cons]
          refine hentry.append ?_
          rw [hentryLen]
          exact hAt
        · rw [hread, List.flatMap_cons, List.length_append, ← Nat.add_assoc, hentryLen,
            List.length_cons]
          rw [ClientHello.withBinder_succ]
          subst hbinder
          exact Prod.ext (by omega) rfl
      · rw [if_neg hcond]
        exact ⟨[], At.nil hp, rfl⟩

end Loops

end WolfNano
