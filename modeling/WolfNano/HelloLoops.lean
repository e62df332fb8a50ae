/-
The loops of `wn_ClientHello_Parse` and `wn_ClientHello_HasSigAlg`, with the counters in
the widths of the source: each loop ends, and no counter wraps before it does.
-/
import WolfNano.HelloWalk
import WolfNano.Duplex.DerForm
import WolfNano.Duplex.Loop
import WolfNano.Sample

namespace WolfNano

open Duplex

/-! ### The loops by their rounds -/

/-- `i` and `found` of `wn_ClientHello_HasSigAlg`. -/
structure SigAlgLoop where
  i : UInt16
  found : Bool

def sigAlgRound (list : Bytes) (len : UInt16) (scheme : Nat) : Loop SigAlgLoop := fun s =>
  -- the sum is one of `int`s
  if s.i.toNat + 1 < len.toNat then
    some ⟨s.i + 2, s.found || ofBE (slice list s.i.toNat 2) == scheme⟩
  else
    none

/-- `i`, the suite kept and the reader. -/
structure CipherLoop where
  i : UInt16
  cipher : Nat
  r : Reader

/-- The cipher suites; `ret` is what the checks before the loop left. -/
def cipherRound (ret : Ret) (csLen : UInt16) : Loop CipherLoop := fun s =>
  if ret.isOk ∧ s.i < csLen then
    let (cs, r) := s.r.u16
    some ⟨s.i + 2, if cs = cipherAes128GcmSha256 then cs else s.cipher, r⟩
  else
    none

/-- `j` and `dup`. -/
structure DupLoop where
  j : UInt8
  dup : Bool

/-- The search for the type `et` among those seen. -/
def dupRound (seenExt : List Nat) (nSeen : UInt8) (et : Nat) : Loop DupLoop := fun s =>
  if s.j < nSeen then
    some ⟨s.j + 1, s.dup || seenExt.getD s.j.toNat 0 == et⟩
  else
    none

/-- The message read so far and the reader. -/
structure ShareLoop where
  out : ClientHello
  r : Reader

def shareRound (group ksEnd : Nat) : Loop ShareLoop := fun s =>
  if s.r.pos < ksEnd ∧ s.r.err = false then
    let (g, r) := s.r.u16
    let (klen, r) := r.u16
    let (p, r) := r.bytes klen
    let out :=
      if g = group ∧ p.isSome then
        { s.out with keyShare := p, keyShareLen := klen, group := g, haveKeyShare := true }
      else
        s.out
    some ⟨out, r⟩
  else
    none

/-- Whether our group was offered, and the reader. -/
structure GroupLoop where
  offered : Bool
  r : Reader

def groupRound (group ksEnd : Nat) : Loop GroupLoop := fun s =>
  if s.r.err = false ∧ add32 s.r.pos 2 ≤ ksEnd then
    let (g, r) := s.r.u16
    some ⟨s.offered || g == group, r⟩
  else
    none

/-- `j`, whether the value looked for was there, and the reader. -/
structure ListLoop where
  j : UInt8
  found : Bool
  r : Reader

def versionRound (nver : UInt8) : Loop ListLoop := fun s =>
  if s.j.toNat + 1 < nver.toNat then
    let (sv, r) := s.r.u16
    some ⟨s.j + 2, s.found || sv == 0x0304, r⟩
  else
    none

def pskModeRound (pmLen : UInt8) : Loop ListLoop := fun s =>
  if s.j < pmLen then
    let (m, r) := s.r.u8
    some ⟨s.j + 1, s.found || m == 1, r⟩
  else
    none

/-- `nId` or `nBnd`, the message read so far and the reader. -/
structure PskLoop where
  count : UInt16
  out : ClientHello
  r : Reader

def identityRound (idsEnd : Nat) : Loop PskLoop := fun s =>
  if s.r.pos < idsEnd ∧ s.r.err = false then
    let (idLen, r) := s.r.u16
    let (p, r) := r.bytes idLen
    let (_, r) := r.bytes 4
    let r := r.failWhen (idLen == 0)
    let out :=
      if s.count = 0 then { s.out with pskIdentity := p, pskIdentityLen := idLen } else s.out
    some ⟨s.count + 1, out, r⟩
  else
    none

def binderRound (bndEnd : Nat) : Loop PskLoop := fun s =>
  if s.r.pos < bndEnd ∧ s.r.err = false then
    let (blen, r) := s.r.u8
    let (p, r) := r.bytes blen
    let out := if s.count = 0 then { s.out with binder := p, binderLen := blen } else s.out
    some ⟨s.count + 1, out, r⟩
  else
    none

/-- The loop over the extensions; it stops with an error. -/
def extRound (group extEnd : Nat) : Loop (Except Err ClientHelloExts)
  | .error _ => none
  | .ok st =>
      if st.r.pos < extEnd ∧ st.r.err = false then some (clientHelloExt group st extEnd)
      else none

/-! ### The functions of the parser are these loops -/

section Runs

theorem add_one16 {i : UInt16} : (i + 1).toNat = (i.toNat + 1) % 2 ^ 16 := UInt16.toNat_add i 1

theorem add_two16 {i : UInt16} : (i + 2).toNat = (i.toNat + 2) % 2 ^ 16 := UInt16.toNat_add i 2

theorem add_one8 {j : UInt8} : (j + 1).toNat = (j.toNat + 1) % 2 ^ 8 := UInt8.toNat_add j 1

theorem add_two8 {j : UInt8} : (j + 2).toNat = (j.toNat + 2) % 2 ^ 8 := UInt8.toNat_add j 2

/-- A guarded round. -/
theorem round_some {σ : Type} {c : Prop} [Decidable c] {a b : σ}
    (h : (if c then some a else none) = some b) : c ∧ a = b := by
  obtain ⟨hc, heq⟩ := Option.ite_none_right_eq_some.1 h
  exact ⟨hc, Option.some.inj heq⟩

theorem round_none {σ : Type} {c : Prop} [Decidable c] {a : σ}
    (h : (if c then some a else none) = none) : ¬ c := by
  by_contra hc
  rw [if_pos hc] at h
  cases h

variable {fuel : Nat}

/-- `wn_ClientHello_HasSigAlg` runs the rounds of its loop: the model's recursion, on
numbers, is the loop of the source on its 16-bit counter. -/
theorem hasSigAlgLoop_run {list : Bytes} {len : UInt16} {scheme : Nat} {s : SigAlgLoop} :
    (s.found || hasSigAlgLoop fuel list len.toNat s.i.toNat scheme) =
      ((sigAlgRound list len scheme).run fuel s).found := by
  refine Loop.run_out (F := fun n s => s.found || hasSigAlgLoop n list len.toNat s.i.toNat scheme)
    (g := SigAlgLoop.found) (fun s => Bool.or_false _) (fun n s h => ?_) fun n s s' h => ?_
  · rw [hasSigAlgLoop, if_neg (round_none h), Bool.or_false]
  · obtain ⟨hmore, rfl⟩ := round_some h
    dsimp only
    rw [hasSigAlgLoop, if_pos hmore, add_two16, Bool.or_assoc]

/-- The loop over the cipher suites. -/
theorem readCiphers_run {csLen : UInt16} {s : CipherLoop} :
    readCiphers fuel s.i.toNat csLen.toNat s.cipher s.r =
      (((cipherRound (.ok ()) csLen).run fuel s).cipher,
        ((cipherRound (.ok ()) csLen).run fuel s).r) := by
  refine Loop.run_out (F := fun n s => readCiphers n s.i.toNat csLen.toNat s.cipher s.r)
    (g := fun s : CipherLoop => (s.cipher, s.r)) (fun s => rfl) (fun n s h => ?_)
    fun n s s' h => ?_
  · exact if_neg fun hmore => round_none h ⟨rfl, hmore⟩
  · obtain ⟨⟨-, hmore⟩, rfl⟩ := round_some h
    dsimp only
    rw [readCiphers, add_two16]
    exact if_pos hmore

/-- The loop over the key shares, which has no counter. -/
theorem readShares_run {group ksEnd : Nat} {s : ShareLoop} :
    readShares group fuel ksEnd s.out s.r =
      (((shareRound group ksEnd).run fuel s).out, ((shareRound group ksEnd).run fuel s).r) := by
  refine Loop.run_out (F := fun n s => readShares group n ksEnd s.out s.r)
    (g := fun s : ShareLoop => (s.out, s.r)) (fun s => rfl) (fun n s h => ?_)
    fun n s s' h => ?_
  · exact if_neg (round_none h)
  · obtain ⟨hmore, rfl⟩ := round_some h
    exact if_pos hmore

/-- The loop over the groups. -/
theorem readGroups_run {group ksEnd : Nat} {s : GroupLoop} :
    readGroups group fuel ksEnd s.offered s.r =
      (((groupRound group ksEnd).run fuel s).offered,
        ((groupRound group ksEnd).run fuel s).r) := by
  refine Loop.run_out (F := fun n s => readGroups group n ksEnd s.offered s.r)
    (g := fun s : GroupLoop => (s.offered, s.r)) (fun s => rfl) (fun n s h => ?_)
    fun n s s' h => ?_
  · exact if_neg (round_none h)
  · obtain ⟨hmore, rfl⟩ := round_some h
    exact if_pos hmore

/-- The loop over the versions, on an 8-bit counter. -/
theorem readVersions_run {nver : UInt8} {s : ListLoop} :
    readVersions fuel s.j.toNat nver.toNat s.found s.r =
      (((versionRound nver).run fuel s).found, ((versionRound nver).run fuel s).r) := by
  refine Loop.run_out (F := fun n s => readVersions n s.j.toNat nver.toNat s.found s.r)
    (g := fun s : ListLoop => (s.found, s.r)) (fun s => rfl) (fun n s h => ?_)
    fun n s s' h => ?_
  · exact if_neg (round_none h)
  · obtain ⟨hmore, rfl⟩ := round_some h
    dsimp only
    rw [readVersions, add_two8]
    exact if_pos hmore

/-- The loop over the key exchange modes. -/
theorem readPskModes_run {pmLen : UInt8} {s : ListLoop} :
    readPskModes fuel s.j.toNat pmLen.toNat s.found s.r =
      (((pskModeRound pmLen).run fuel s).found, ((pskModeRound pmLen).run fuel s).r) := by
  refine Loop.run_out (F := fun n s => readPskModes n s.j.toNat pmLen.toNat s.found s.r)
    (g := fun s : ListLoop => (s.found, s.r)) (fun s => rfl) (fun n s h => ?_)
    fun n s s' h => ?_
  · exact if_neg (round_none h)
  · obtain ⟨hmore, rfl⟩ := round_some h
    dsimp only
    rw [readPskModes, add_one8]
    exact if_pos hmore

theorem count_zero {i : UInt16} : i = 0 ↔ i.toNat = 0 := UInt16.toNat_inj.symm

/-- The loop over the identities counts them in 16 bits. -/
theorem readIdentities_run {idsEnd : Nat} {s : PskLoop} :
    readIdentities fuel idsEnd s.count.toNat s.out s.r =
      (((identityRound idsEnd).run fuel s).count.toNat, ((identityRound idsEnd).run fuel s).out,
        ((identityRound idsEnd).run fuel s).r) := by
  refine Loop.run_out (F := fun n s => readIdentities n idsEnd s.count.toNat s.out s.r)
    (g := fun s : PskLoop => (s.count.toNat, s.out, s.r)) (fun s => rfl) (fun n s h => ?_)
    fun n s s' h => ?_
  · exact if_neg (round_none h)
  · obtain ⟨hmore, rfl⟩ := round_some h
    dsimp only
    rw [readIdentities, add_one16]
    simp only [count_zero]
    exact if_pos hmore

/-- The loop over the binders counts them in 16 bits. -/
theorem readBinders_run {bndEnd : Nat} {s : PskLoop} :
    readBinders fuel bndEnd s.count.toNat s.out s.r =
      (((binderRound bndEnd).run fuel s).count.toNat, ((binderRound bndEnd).run fuel s).out,
        ((binderRound bndEnd).run fuel s).r) := by
  refine Loop.run_out (F := fun n s => readBinders n bndEnd s.count.toNat s.out s.r)
    (g := fun s : PskLoop => (s.count.toNat, s.out, s.r)) (fun s => rfl) (fun n s h => ?_)
    fun n s s' h => ?_
  · exact if_neg (round_none h)
  · obtain ⟨hmore, rfl⟩ := round_some h
    dsimp only
    rw [readBinders, add_one16]
    simp only [count_zero]
    exact if_pos hmore

/-- The loop over the extensions is its own round, with an error as a state that stays. -/
theorem clientHelloExts_run {group extEnd : Nat} {st : ClientHelloExts} :
    clientHelloExts group fuel st extEnd = (extRound group extEnd).run fuel (.ok st) := by
  induction fuel generalizing st with
  | zero => rfl
  | succ fuel ih =>
      rw [clientHelloExts]
      by_cases hmore : st.r.pos < extEnd ∧ st.r.err = false
      · have hround : extRound group extEnd (.ok st) = some (clientHelloExt group st extEnd) :=
          if_pos hmore
        rw [if_pos hmore, Loop.run_some hround]
        cases clientHelloExt group st extEnd with
        | error e => exact (Loop.run_none rfl fuel).symm
        | ok st' => exact ih
      · have hround : extRound group extEnd (.ok st) = none := if_neg hmore
        rw [if_neg hmore, Loop.run_none hround]

end Runs

/-! ### The reader moves on -/

/-- A reader of `msg` that is not past its end. -/
def Reader.Inside (msg : Bytes) (r : Reader) : Prop := r.buf = msg ∧ r.pos ≤ msg.length

/-- From `r` the reader went on by `k` bytes at least, or it has an error. -/
structure Reader.Moves (msg : Bytes) (k : Nat) (r r' : Reader) : Prop where
  inside : r'.Inside msg
  le : r.pos ≤ r'.pos
  gain : r'.err = false → r.err = false ∧ r.pos + k ≤ r'.pos

namespace Reader

variable {msg : Bytes} {r r' r'' : Reader} {j k n : Nat}

theorem Moves.refl (hr : r.Inside msg) : Moves msg 0 r r :=
  ⟨hr, Nat.le_refl _, fun h => ⟨h, Nat.le_refl _⟩⟩

/-- One reader call after another: the distances add up. -/
theorem Moves.trans (h : Moves msg j r r') (h' : Moves msg k r' r'') : Moves msg (j + k) r r'' := by
  refine ⟨h'.inside, Nat.le_trans h.le h'.le, fun herr => ?_⟩
  obtain ⟨hmid, hk⟩ := h'.gain herr
  obtain ⟨hfirst, hj⟩ := h.gain hmid
  exact ⟨hfirst, by omega⟩

/-- A reader that has moved far has moved less far. -/
theorem Moves.weaken (h : Moves msg j r r') (hk : k ≤ j) : Moves msg k r r' :=
  ⟨h.inside, h.le, fun herr => ⟨(h.gain herr).1, by have := (h.gain herr).2; omega⟩⟩

/-- What comes after a part that moved. -/
theorem Moves.after (h : Moves msg j r r') (h' : r'.Inside msg → Moves msg k r' r'') :
    Moves msg 0 r r'' :=
  (h.trans (h' h.inside)).weaken (Nat.zero_le _)

theorem fail_moves (hr : r.Inside msg) : Moves msg k r r.fail :=
  ⟨hr, Nat.le_refl _, fun h => nomatch h⟩

theorem failWhen_moves {c : Bool} (hr : r.Inside msg) : Moves msg 0 r (r.failWhen c) := by
  cases c with
  | true => exact fail_moves hr
  | false => exact Moves.refl hr

theorem endsAt_moves {e : Nat} (hr : r.Inside msg) : Moves msg 0 r (r.endsAt e) := by
  unfold endsAt
  split
  · exact fail_moves hr
  · exact Moves.refl hr

theorem u8_moves (hr : r.Inside msg) : Moves msg 1 r r.u8.2 := by
  unfold u8
  split
  · rename_i hroom
    simp only [Bool.and_eq_true, Bool.not_eq_true', decide_eq_true_eq, hr.1] at hroom
    exact ⟨⟨hr.1, hroom.2⟩, Nat.le_succ _, fun _ => ⟨hroom.1, Nat.le_refl _⟩⟩
  · exact fail_moves hr

variable (hmsg : msg.length < 2 ^ 31)

include hmsg

/-- What all fixed reads share: the position moves by `n` inside the message, or the error
is set. -/
theorem skip_moves (hr : r.Inside msg) (hn : n < 2 ^ 24) :
    Moves msg n r (if (!r.err && decide (add32 r.pos n ≤ r.buf.length)) = true then
      { r with pos := add32 r.pos n } else r.fail) := by
  have hpos := hr.2
  rw [add32_eq (by omega)]
  split
  · rename_i hroom
    simp only [Bool.and_eq_true, Bool.not_eq_true', decide_eq_true_eq, hr.1] at hroom
    exact ⟨⟨hr.1, hroom.2⟩, Nat.le_add_right _ _, fun _ => ⟨hroom.1, Nat.le_refl _⟩⟩
  · exact fail_moves hr

theorem uint_moves (hr : r.Inside msg) (hn : n < 2 ^ 24) : Moves msg n r (r.uint n).2 := by
  unfold uint
  rw [apply_ite Prod.snd]
  exact skip_moves hmsg hr hn

theorem bytes_moves (hr : r.Inside msg) (hn : n < 2 ^ 24) : Moves msg n r (r.bytes n).2 := by
  unfold bytes
  rw [apply_ite Prod.snd]
  exact skip_moves hmsg hr hn

theorem u16_moves (hr : r.Inside msg) : Moves msg 2 r r.u16.2 := uint_moves hmsg hr (by decide)

omit hmsg in
theorem u16_value : r.u16.1 < 2 ^ 16 := by
  unfold u16 uint
  split
  · calc ofBE (slice r.buf r.pos 2) < 256 ^ (slice r.buf r.pos 2).length := ofBE_lt _
      _ ≤ 256 ^ 2 := Nat.pow_le_pow_right (by decide) (List.length_take_le 2 _)
  · exact Nat.two_pow_pos 16

omit hmsg in
theorem u8_value : r.u8.1 < 2 ^ 8 := by
  unfold u8
  split
  · exact UInt8.toNat_lt _
  · exact Nat.two_pow_pos 8

/-- A key_share entry takes four bytes at least. -/
theorem share_moves (hr : r.Inside msg) :
    Moves msg 4 r (r.u16.2.u16.2.bytes r.u16.2.u16.1).2 := by
  have hgroup := u16_moves hmsg hr
  have hlen := hgroup.trans (u16_moves hmsg hgroup.inside)
  have hkey := hlen.trans (bytes_moves hmsg hlen.inside (n := r.u16.2.u16.1)
    (Nat.lt_trans u16_value (by decide)))
  exact hkey.weaken (Nat.le_add_right _ _)

/-- An identity takes six bytes at least. -/
theorem identity_moves (hr : r.Inside msg) {c : Bool} :
    Moves msg 6 r (((r.u16.2.bytes r.u16.1).2.bytes 4).2.failWhen c) := by
  have hlen := u16_moves hmsg hr
  have hname := hlen.trans (bytes_moves hmsg hlen.inside (n := r.u16.1)
    (Nat.lt_trans u16_value (by decide)))
  have hage := hname.trans (bytes_moves hmsg hname.inside (n := 4) (by decide))
  exact (hage.trans (failWhen_moves hage.inside)).weaken (by omega)

/-- A binder takes a byte at least. -/
theorem binder_moves (hr : r.Inside msg) : Moves msg 1 r (r.u8.2.bytes r.u8.1).2 := by
  have hlen := u8_moves hr
  have hname := hlen.trans (bytes_moves hmsg hlen.inside (n := r.u8.1)
    (Nat.lt_trans u8_value (by decide)))
  exact hname.weaken (Nat.le_add_right _ _)

end Reader

/-! ### Loops that stop at a place or at an error -/

/-- A loop that goes round only without an error and before `lim`, and moves its reader. -/
def ReaderLoop {σ : Type} (msg : Bytes) (rd : σ → Reader) (lim : Nat) (next : Loop σ) : Prop :=
  ∀ s s', (rd s).Inside msg → next s = some s' →
    (rd s).err = false ∧ (rd s).pos < lim ∧ (rd s).Moves msg 1 (rd s')

/-- The bytes up to `lim`, none after an error. -/
def Reader.left (lim : Nat) (r : Reader) : Nat := if r.err then 0 else lim - r.pos

theorem Reader.left_le {lim : Nat} {r : Reader} : r.left lim ≤ lim - r.pos := by
  unfold left
  split
  · exact Nat.zero_le _
  · exact Nat.le_refl _

section ReaderLoop

variable {σ : Type} {msg : Bytes} {rd : σ → Reader} {lim : Nat} {next : Loop σ} {s s' : σ}

/-- What carries the termination: a round that goes on leaves less before the limit. -/
theorem ReaderLoop.left_lt (h : ReaderLoop msg rd lim next) (hs : (rd s).Inside msg)
    (hnext : next s = some s') : (rd s').left lim < (rd s).left lim := by
  obtain ⟨herr, hlim, hmoves⟩ := h s s' hs hnext
  have hbefore : (rd s).left lim = lim - (rd s).pos := by
    rw [Reader.left, herr]
    rfl
  rw [hbefore, Reader.left]
  split
  · omega
  · rename_i hno
    have hpos := (hmoves.gain (Bool.eq_false_iff.2 hno)).2
    omega

/-- A round moves the reader on inside the message. -/
theorem ReaderLoop.moves (h : ReaderLoop msg rd lim next) {r : Reader}
    (hs : r.Moves msg 0 (rd s)) (hnext : next s = some s') : r.Moves msg 0 (rd s') := by
  obtain ⟨-, -, hmoves⟩ := h s s' hs.inside hnext
  exact (hs.trans hmoves).weaken (Nat.zero_le _)

/-- By the measure, the loop ends, after at most as many rounds as there are bytes before
the limit. -/
theorem ReaderLoop.ends (h : ReaderLoop msg rd lim next) (hs : (rd s).Inside msg) :
    ∃ n t, next.Ends s n t ∧ n ≤ lim - (rd s).pos := by
  obtain ⟨n, t, hends, hn, -⟩ := Loop.ends_of_measure (I := fun t => (rd t).Inside msg)
    (fun u u' hu hnext => (h u u' hu hnext).2.2.inside) (fun u => (rd u).left lim)
    (fun u u' hu hnext => h.left_lt hu hnext) hs
  exact ⟨n, t, hends, Nat.le_trans hn Reader.left_le⟩

/-- By induction on the rounds, the whole loop moves the reader on inside the message. -/
theorem ReaderLoop.run_moves (h : ReaderLoop msg rd lim next) {n : Nat} (hs : (rd s).Inside msg) :
    (rd s).Moves msg 0 (rd (next.run n s)) :=
  Loop.run_invariant (I := fun t => (rd s).Moves msg 0 (rd t))
    (fun _ _ hu hnext => h.moves hu hnext) (Reader.Moves.refl hs)

end ReaderLoop

section Rounds

variable {msg : Bytes} {group lim : Nat}

theorem identityRound_count {s s' : PskLoop} (h : identityRound lim s = some s') :
    s'.count = s.count + 1 := by
  obtain ⟨-, rfl⟩ := round_some h
  rfl

theorem binderRound_count {s s' : PskLoop} (h : binderRound lim s = some s') :
    s'.count = s.count + 1 := by
  obtain ⟨-, rfl⟩ := round_some h
  rfl

/-- Over at most 65535 bytes, of which each round takes one, the count is that of the
rounds. -/
theorem pskLoop_counts {next : Loop PskLoop} (hreader : ReaderLoop msg PskLoop.r lim next)
    (hcount : ∀ s s', next s = some s' → s'.count = s.count + 1) {s t : PskLoop} {n : Nat}
    (hs : s.r.Inside msg) (hzero : s.count = 0) (hlim : lim ≤ s.r.pos + 65535)
    (h : next.Reaches s n t) :
    t.count.toNat = n ∧ ∀ t', next t = some t' → t'.count.toNat = t.count.toNat + 1 := by
  let I : PskLoop → Prop := fun u => u.r.Inside msg ∧ u.count.toNat + u.r.left lim ≤ 65535
  have hone : ∀ u u', I u → next u = some u' → u'.count.toNat = u.count.toNat + 1 := by
    rintro u u' ⟨hu, hroom⟩ hnext
    have hless := hreader.left_lt hu hnext
    rw [hcount u u' hnext, add_one16, Nat.mod_eq_of_lt (by omega)]
  have hround : ∀ u u', I u → next u = some u' → I u' := by
    rintro u u' hI hnext
    have hless := hreader.left_lt hI.1 hnext
    have hroom := hI.2
    refine ⟨(hreader u u' hI.1 hnext).2.2.inside, ?_⟩
    rw [hone u u' hI hnext]
    omega
  have hleft : s.r.left lim ≤ lim - s.r.pos := Reader.left_le
  have hstart : I s := by
    refine ⟨hs, ?_⟩
    rw [hzero]
    change 0 + _ ≤ _
    omega
  have hreached := Loop.Reaches.invariant hround h hstart
  refine ⟨?_, fun t' hnext => hone t t' hreached hnext⟩
  rw [Loop.Reaches.counts hround (c := fun u => u.count.toNat) hone h hstart, hzero]
  exact Nat.zero_add n

variable (hmsg : msg.length < 2 ^ 31)

include hmsg

/-- A key share is at least its group and its length. -/
theorem shareRound_reader : ReaderLoop msg ShareLoop.r lim (shareRound group lim) := by
  intro s s' hs hnext
  obtain ⟨⟨hpos, herr⟩, rfl⟩ := round_some hnext
  exact ⟨herr, hpos, (Reader.share_moves hmsg hs).weaken (by decide)⟩

/-- A group is two bytes. -/
theorem groupRound_reader : ReaderLoop msg GroupLoop.r lim (groupRound group lim) := by
  intro s s' hs hnext
  obtain ⟨⟨herr, hroom⟩, rfl⟩ := round_some hnext
  have hin := hs.2
  rw [add32_eq (by omega)] at hroom
  exact ⟨herr, by omega, (Reader.u16_moves hmsg hs).weaken (by decide)⟩

/-- An identity is at least its length and its age. -/
theorem identityRound_reader : ReaderLoop msg PskLoop.r lim (identityRound lim) := by
  intro s s' hs hnext
  obtain ⟨⟨hpos, herr⟩, rfl⟩ := round_some hnext
  exact ⟨herr, hpos, (Reader.identity_moves hmsg hs).weaken (by decide)⟩

/-- A binder is at least its length. -/
theorem binderRound_reader : ReaderLoop msg PskLoop.r lim (binderRound lim) := by
  intro s s' hs hnext
  obtain ⟨⟨hpos, herr⟩, rfl⟩ := round_some hnext
  exact ⟨herr, hpos, Reader.binder_moves hmsg hs⟩

end Rounds

/-! ### One extension -/

section Extension

variable {msg : Bytes} (hmsg : msg.length < 2 ^ 31) {fuel : Nat} {r : Reader}

include hmsg

theorem readCiphers_moves {i csLen cipher : Nat} (hr : r.Inside msg) :
    r.Moves msg 0 (readCiphers fuel i csLen cipher r).2 := by
  induction fuel generalizing i cipher r with
  | zero => exact .refl hr
  | succ fuel ih =>
      unfold readCiphers
      split
      · have hone := Reader.u16_moves hmsg hr
        exact (hone.trans (ih hone.inside)).weaken (Nat.zero_le _)
      · exact .refl hr

theorem readVersions_moves {j nver : Nat} {found : Bool} (hr : r.Inside msg) :
    r.Moves msg 0 (readVersions fuel j nver found r).2 := by
  induction fuel generalizing j found r with
  | zero => exact .refl hr
  | succ fuel ih =>
      unfold readVersions
      split
      · have hone := Reader.u16_moves hmsg hr
        exact (hone.trans (ih hone.inside)).weaken (Nat.zero_le _)
      · exact .refl hr

omit hmsg in
theorem readPskModes_moves {j pmLen : Nat} {found : Bool} (hr : r.Inside msg) :
    r.Moves msg 0 (readPskModes fuel j pmLen found r).2 := by
  induction fuel generalizing j found r with
  | zero => exact .refl hr
  | succ fuel ih =>
      unfold readPskModes
      split
      · have hone := Reader.u8_moves hr
        exact (hone.trans (ih hone.inside)).weaken (Nat.zero_le _)
      · exact .refl hr

theorem readShares_moves {group ksEnd : Nat} {out : ClientHello} (hr : r.Inside msg) :
    r.Moves msg 0 (readShares group fuel ksEnd out r).2 := by
  rw [@readShares_run fuel group ksEnd ⟨out, r⟩]
  exact ReaderLoop.run_moves (s := ⟨out, r⟩) (shareRound_reader hmsg) hr

theorem readGroups_moves {group ksEnd : Nat} {offered : Bool} (hr : r.Inside msg) :
    r.Moves msg 0 (readGroups group fuel ksEnd offered r).2 := by
  rw [@readGroups_run fuel group ksEnd ⟨offered, r⟩]
  exact ReaderLoop.run_moves (s := ⟨offered, r⟩) (groupRound_reader hmsg) hr

theorem readIdentities_moves {idsEnd : Nat} {out : ClientHello} (hr : r.Inside msg) :
    r.Moves msg 0 (readIdentities fuel idsEnd 0 out r).2.2 := by
  rw [show (0 : Nat) = (0 : UInt16).toNat from rfl, @readIdentities_run fuel idsEnd ⟨0, out, r⟩]
  exact ReaderLoop.run_moves (s := ⟨0, out, r⟩) (identityRound_reader hmsg) hr

theorem readBinders_moves {bndEnd : Nat} {out : ClientHello} (hr : r.Inside msg) :
    r.Moves msg 0 (readBinders fuel bndEnd 0 out r).2.2 := by
  rw [show (0 : Nat) = (0 : UInt16).toNat from rfl, @readBinders_run fuel bndEnd ⟨0, out, r⟩]
  exact ReaderLoop.run_moves (s := ⟨0, out, r⟩) (binderRound_reader hmsg) hr

/-- The pre_shared_key reader: both vectors, one after the other. -/
theorem readPreShared_moves {out : ClientHello} {eEnd : Nat} (hr : r.Inside msg) :
    r.Moves msg 0 (readPreShared out r eEnd).2 := by
  unfold readPreShared
  dsimp only
  refine .after (j := 0) ?_ fun h => Reader.failWhen_moves h
  refine .after (j := 0) ?_ fun h => readBinders_moves hmsg h
  refine .after (j := 0) ?_ fun h => Reader.failWhen_moves h
  refine .after (j := 0) ?_ fun h => Reader.u16_moves hmsg h
  refine .after (j := 0) ?_ fun h => Reader.endsAt_moves h
  refine .after (j := 0) ?_ fun h => readIdentities_moves hmsg h
  exact .after (Reader.u16_moves hmsg hr) fun h => Reader.failWhen_moves h

/-- The body of an extension takes the reader on. -/
theorem clientHelloExtBody_moves {group et el eEnd : Nat} (st : ClientHelloExts)
    (hst : st.r.Inside msg) (hel : el < 2 ^ 16) :
    st.r.Moves msg 0 (clientHelloExtBody group st et el eEnd).r := by
  unfold clientHelloExtBody
  split
  · refine .after (j := 0) ?_ fun h => readShares_moves hmsg h
    exact .after (Reader.u16_moves hmsg hst) fun h => Reader.failWhen_moves h
  split
  · refine .after (Reader.u16_moves hmsg hst) fun h => Reader.bytes_moves hmsg h ?_
    exact Nat.lt_trans Reader.u16_value (by decide)
  split
  · exact .after (Reader.u16_moves hmsg hst) fun h => readGroups_moves hmsg h
  split
  · exact .after (Reader.u8_moves hst) fun h => readVersions_moves hmsg h
  split
  · exact .after (Reader.u8_moves hst) fun h => readPskModes_moves h
  split
  · dsimp only
    exact readPreShared_moves hmsg hst
  · exact (Reader.bytes_moves hmsg hst (Nat.lt_trans hel (by decide))).weaken (Nat.zero_le _)

omit hmsg in
/-- The body of an extension adds nothing to the list of types seen. -/
theorem clientHelloExtBody_seen {group et el eEnd : Nat} {st : ClientHelloExts} :
    (clientHelloExtBody group st et el eEnd).seenExt = st.seenExt := by
  unfold clientHelloExtBody
  dsimp only
  repeat' split
  all_goals rfl

/-- A round that goes on has read four bytes at least and stored a new type below 40. -/
theorem clientHelloExt_ok {group extEnd : Nat} {st st' : ClientHelloExts} (hst : st.r.Inside msg)
    (h : clientHelloExt group st extEnd = .ok st') :
    st.r.Moves msg 4 st'.r ∧ st'.r.err = false ∧ st.seenExt.length < 40 ∧
      ∃ et, et ∉ st.seenExt ∧ st'.seenExt = st.seenExt ++ [et] := by
  unfold clientHelloExt at h
  dsimp only at h
  split at h
  · cases h
  rename_i hcond
  obtain ⟨-, hcond⟩ := not_or.1 hcond
  obtain ⟨-, hcond⟩ := not_or.1 hcond
  obtain ⟨-, hcond⟩ := not_or.1 hcond
  obtain ⟨hnew, hcount⟩ := not_or.1 hcond
  split at h
  · cases h
  rename_i hend
  cases h
  have htype := Reader.u16_moves hmsg hst
  have hlen := htype.trans (Reader.u16_moves hmsg htype.inside)
  have hseen : (clientHelloExtBody group { st with r := st.r.u16.2.u16.2 } st.r.u16.1
      st.r.u16.2.u16.1 (add32 st.r.u16.2.u16.2.pos st.r.u16.2.u16.1)).seenExt = st.seenExt :=
    clientHelloExtBody_seen
  refine ⟨hlen.trans (k := 0) ?_, Bool.eq_false_iff.2 (not_or.1 hend).1, Nat.not_le.1 hcount, _,
    hnew, congrArg (· ++ [st.r.u16.1]) hseen⟩
  exact clientHelloExtBody_moves hmsg { st with r := st.r.u16.2.u16.2 } hlen.inside
    Reader.u16_value

end Extension

/-! ### The counters -/

section Counters

/-- A round that goes on moves the counter by 2 below the length, so it does not wrap. -/
theorem sigAlgRound_some {list : Bytes} {len : UInt16} {scheme : Nat} {s s' : SigAlgLoop}
    (h : sigAlgRound list len scheme s = some s') :
    s.i.toNat + 1 < len.toNat ∧ s'.i.toNat = s.i.toNat + 2 := by
  obtain ⟨hmore, rfl⟩ := round_some h
  have hlen := len.toNat_lt
  refine ⟨hmore, ?_⟩
  dsimp only
  rw [add_two16, Nat.mod_eq_of_lt (by omega)]

/-- At an even length `i` stays even, so that it stops at the length. -/
theorem cipherRound_some {ret : Ret} {csLen : UInt16} {s s' : CipherLoop}
    (hret : ret.isOk → csLen.toNat % 2 = 0) (hs : s.i.toNat % 2 = 0)
    (h : cipherRound ret csLen s = some s') :
    s.i.toNat < csLen.toNat ∧ s'.i.toNat = s.i.toNat + 2 := by
  obtain ⟨⟨hok, hmore⟩, rfl⟩ := round_some h
  have hlt : s.i.toNat < csLen.toNat := hmore
  have heven := hret hok
  have hlen := csLen.toNat_lt
  refine ⟨hlt, ?_⟩
  dsimp only
  rw [add_two16, Nat.mod_eq_of_lt (by omega)]

/-- A round that goes on moves the index by 1 below the count. -/
theorem dupRound_some {seenExt : List Nat} {nSeen : UInt8} {et : Nat} {s s' : DupLoop}
    (h : dupRound seenExt nSeen et s = some s') :
    s.j.toNat < nSeen.toNat ∧ s'.j.toNat = s.j.toNat + 1 ∧
      s'.dup = (s.dup || seenExt.getD s.j.toNat 0 == et) := by
  obtain ⟨hmore, rfl⟩ := round_some h
  have hlt : s.j.toNat < nSeen.toNat := hmore
  have hlen := nSeen.toNat_lt
  refine ⟨hlt, ?_, rfl⟩
  dsimp only
  rw [add_one8, Nat.mod_eq_of_lt (by omega)]

/-- A round that goes on moves the 8-bit counter by 2 below the length. -/
theorem versionRound_some {nver : UInt8} {s s' : ListLoop} (h : versionRound nver s = some s') :
    s.j.toNat + 1 < nver.toNat ∧ s'.j.toNat = s.j.toNat + 2 := by
  obtain ⟨hmore, rfl⟩ := round_some h
  have hlen := nver.toNat_lt
  refine ⟨hmore, ?_⟩
  dsimp only
  rw [add_two8, Nat.mod_eq_of_lt (by omega)]

/-- A round that goes on moves the 8-bit counter by 1 below the length. -/
theorem pskModeRound_some {pmLen : UInt8} {s s' : ListLoop} (h : pskModeRound pmLen s = some s') :
    s.j.toNat < pmLen.toNat ∧ s'.j.toNat = s.j.toNat + 1 := by
  obtain ⟨hmore, rfl⟩ := round_some h
  have hlt : s.j.toNat < pmLen.toNat := hmore
  have hlen := pmLen.toNat_lt
  refine ⟨hlt, ?_⟩
  dsimp only
  rw [add_one8, Nat.mod_eq_of_lt (by omega)]

/-- The search finds a type exactly when it is among those seen. -/
theorem dupRound_ends {seenExt : List Nat} {nSeen : UInt8} (et : Nat)
    (hcount : nSeen.toNat = seenExt.length) :
    ∃ n t, (dupRound seenExt nSeen et).Ends ⟨0, false⟩ n t ∧ n ≤ seenExt.length ∧
      (t.dup = true ↔ et ∈ seenExt) := by
  let I : DupLoop → Prop := fun s =>
    s.j.toNat ≤ seenExt.length ∧ (s.dup = true ↔ et ∈ seenExt.take s.j.toNat)
  have hround : ∀ s s', I s → dupRound seenExt nSeen et s = some s' → I s' := by
    rintro s s' ⟨-, hdup⟩ h
    obtain ⟨hlt, hj, hdup'⟩ := dupRound_some h
    rw [hcount] at hlt
    refine ⟨by omega, ?_⟩
    rw [hj, hdup', List.take_add_one, List.getElem?_eq_getElem hlt, List.mem_append, ← hdup,
      List.getD_eq_getElem?_getD, List.getElem?_eq_getElem hlt, Bool.or_eq_true, beq_iff_eq,
      Option.toList_some, List.mem_singleton]
    exact or_congr_right eq_comm
  have hraises : ∀ s s', I s → dupRound seenExt nSeen et s = some s' →
      s.j.toNat < nSeen.toNat ∧ s.j.toNat < s'.j.toNat := by
    intro s s' _ h
    obtain ⟨hlt, hj, -⟩ := dupRound_some h
    exact ⟨hlt, by omega⟩
  have hstart : I ⟨0, false⟩ := ⟨Nat.zero_le _, by simp⟩
  obtain ⟨n, t, hends, hn, hbelow, hdup⟩ := Loop.ends_of_counter hround hraises hstart
  refine ⟨n, t, hends, by omega, ?_⟩
  have hlast : ¬ t.j.toNat < nSeen.toNat := round_none hends.2
  rw [hdup, List.take_of_length_le (by omega)]

end Counters

/-! ### All loops -/

/-- The length of the cipher suites, and the reader in front of them. -/
def suitesAt (msg : Bytes) : Nat × Reader :=
  let r := (Reader.init msg).u8.2.u24.2.u16.2
  let (sidLen, r) := (r.bytes 32).2.u8
  (r.bytes sidLen).2.u16

/-- The length of the extensions, and the reader in front of them. -/
def extsAt (msg : Bytes) : Nat × Reader :=
  let (csLen, r) := suitesAt msg
  (readCiphers (csLen + 1) 0 csLen 0 r).2.u8.2.u8.2.u16

/-- The parser comes to its outer loop from there. -/
theorem clientHelloParse_exts {B : Build} {msg : Bytes} {ch : ClientHello}
    (h : clientHelloParse B msg = .ok ch) :
    (suitesAt msg).1 % 2 = 0 ∧ ∃ out st,
      clientHelloExts B.group.id msg.length { r := (extsAt msg).2, out := out }
        (add32 (extsAt msg).2.pos (extsAt msg).1) = .ok st ∧ st.out = ch := by
  unfold clientHelloParse at h
  simp only [except_bind_eq_ok, except_pure_eq_ok, failIf_eq_ok] at h
  obtain ⟨_, -, _, -, _, hbounds, _, -, _, -, st, hexts, _, -, hch⟩ := h
  refine ⟨?_, _, st, hexts, hch⟩
  exact not_not.1 (not_or.1 (not_or.1 hbounds).2).2

/-- Every loop over a ClientHello ends, without a counter that wraps, and what the parser
goes on with is what the loop ended with. -/
structure HelloLoops (B : Build) (msg : Bytes) : Prop where
  /-- A parse comes to its outer loop from `extsAt`, and returns what the loop ended with. -/
  parse : ∀ ch, clientHelloParse B msg = .ok ch → (suitesAt msg).1 % 2 = 0 ∧ ∃ out st,
    clientHelloExts B.group.id msg.length { r := (extsAt msg).2, out := out }
      (add32 (extsAt msg).2.pos (extsAt msg).1) = .ok st ∧ st.out = ch
  /-- The loops of a parse start inside the message. -/
  starts : (suitesAt msg).2.Inside msg ∧ (extsAt msg).2.Inside msg
  sigAlgs : ∀ (list : Bytes) (len : UInt16) (scheme : Nat),
    (∃ n t, (sigAlgRound list len scheme).Ends ⟨0, false⟩ n t ∧
      t.found = hasSigAlgLoop (len.toNat + 1) list len.toNat 0 scheme) ∧
    (sigAlgRound list len scheme).Raises ⟨0, false⟩ (fun s => s.i.toNat) 2
  /-- With an odd length an earlier check has failed. -/
  ciphers : ∀ (ret : Ret) (csLen : UInt16) (r : Reader), (ret.isOk → csLen.toNat % 2 = 0) →
    (∃ n t, (cipherRound ret csLen).Ends ⟨0, 0, r⟩ n t ∧
      (ret.isOk → readCiphers (csLen.toNat + 1) 0 csLen.toNat 0 r = (t.cipher, t.r))) ∧
    (cipherRound ret csLen).Raises ⟨0, 0, r⟩ (fun s => s.i.toNat) 2
  shares : ∀ (group : Nat) (ksVec : UInt16) (out : ClientHello) (r : Reader), r.Inside msg →
    ∃ n t, (shareRound group (add32 r.pos ksVec.toNat)).Ends ⟨out, r⟩ n t ∧
      readShares group (ksVec.toNat + 1) (add32 r.pos ksVec.toNat) out r = (t.out, t.r)
  groups : ∀ (group : Nat) (glen : UInt16) (offered : Bool) (r : Reader), r.Inside msg →
    ∃ n t, (groupRound group (add32 r.pos glen.toNat)).Ends ⟨offered, r⟩ n t ∧
      readGroups group (glen.toNat + 1) (add32 r.pos glen.toNat) offered r = (t.offered, t.r)
  versions : ∀ (nver : UInt8) (found : Bool) (r : Reader),
    (∃ n t, (versionRound nver).Ends ⟨0, found, r⟩ n t ∧
      readVersions (nver.toNat + 1) 0 nver.toNat found r = (t.found, t.r)) ∧
    (versionRound nver).Raises ⟨0, found, r⟩ (fun s => s.j.toNat) 2
  pskModes : ∀ (pmLen : UInt8) (found : Bool) (r : Reader),
    (∃ n t, (pskModeRound pmLen).Ends ⟨0, found, r⟩ n t ∧
      readPskModes (pmLen.toNat + 1) 0 pmLen.toNat found r = (t.found, t.r)) ∧
    (pskModeRound pmLen).Raises ⟨0, found, r⟩ (fun s => s.j.toNat) 1
  /-- `nId` is the number of rounds. -/
  identities : ∀ (idsLen : UInt16) (out : ClientHello) (r : Reader), r.Inside msg →
    (∃ n t, (identityRound (add32 r.pos idsLen.toNat)).Ends ⟨0, out, r⟩ n t ∧
      t.count.toNat = n ∧ readIdentities (idsLen.toNat + 1) (add32 r.pos idsLen.toNat) 0 out r =
        (t.count.toNat, t.out, t.r)) ∧
    (identityRound (add32 r.pos idsLen.toNat)).Raises ⟨0, out, r⟩ (fun s => s.count.toNat) 1
  /-- `nBnd` is the number of rounds. -/
  binders : ∀ (bndsLen : UInt16) (out : ClientHello) (r : Reader), r.Inside msg →
    (∃ n t, (binderRound (add32 r.pos bndsLen.toNat)).Ends ⟨0, out, r⟩ n t ∧
      t.count.toNat = n ∧ readBinders (bndsLen.toNat + 1) (add32 r.pos bndsLen.toNat) 0 out r =
        (t.count.toNat, t.out, t.r)) ∧
    (binderRound (add32 r.pos bndsLen.toNat)).Raises ⟨0, out, r⟩ (fun s => s.count.toNat) 1
  /-- So the comparison of the two is that of the real counts. -/
  counts : ∀ (idsLen bndsLen : UInt16) (out out' : ClientHello) (r r' : Reader) (n n' : Nat)
    (t t' : PskLoop), r.Inside msg → r'.Inside msg →
      (identityRound (add32 r.pos idsLen.toNat)).Ends ⟨0, out, r⟩ n t →
      (binderRound (add32 r'.pos bndsLen.toNat)).Ends ⟨0, out', r'⟩ n' t' →
        (t.count = t'.count ↔ n = n')
  /-- `seenExt` is read below 40. -/
  dups : ∀ (seenExt : List Nat) (nSeen : UInt8) (et : Nat), nSeen.toNat = seenExt.length →
    seenExt.length ≤ 40 →
    (∃ n t, (dupRound seenExt nSeen et).Ends ⟨0, false⟩ n t ∧ (t.dup = true ↔ et ∈ seenExt)) ∧
    (dupRound seenExt nSeen et).Raises ⟨0, false⟩ (fun s => s.j.toNat) 1 ∧
    ∀ n t t', (dupRound seenExt nSeen et).Reaches ⟨0, false⟩ n t →
      dupRound seenExt nSeen et t = some t' → t.j.toNat < 40
  exts : ∀ (out : ClientHello) (r : Reader) (extEnd : Nat), r.Inside msg → extEnd ≤ msg.length →
    ∃ n, (extRound B.group.id extEnd).Ends (.ok { r := r, out := out }) n
      (clientHelloExts B.group.id msg.length { r := r, out := out } extEnd)
  /-- A round moves the reader or ends the parse, and `seenExt` is written below 40. -/
  rounds : ∀ (out : ClientHello) (r : Reader) (extEnd n : Nat) (st : ClientHelloExts)
    (res : Except Err ClientHelloExts), r.Inside msg →
      (extRound B.group.id extEnd).Reaches (.ok { r := r, out := out }) n (.ok st) →
      extRound B.group.id extEnd (.ok st) = some res →
        st.r.Inside msg ∧ st.seenExt.length ≤ 40 ∧
          ((∃ e, res = .error e) ∨ ∃ st', res = .ok st' ∧ st.r.pos < st'.r.pos ∧
            st.seenExt.length < 40 ∧ st'.seenExt.length = st.seenExt.length + 1)

section HelloLoops

variable {B : Build} {msg : Bytes}

/-- The search over the signature schemes ends, with the model's answer, and its counter
does not wrap. -/
theorem sigAlgs_loop (list : Bytes) (len : UInt16) (scheme : Nat) :
    (∃ n t, (sigAlgRound list len scheme).Ends ⟨0, false⟩ n t ∧
      t.found = hasSigAlgLoop (len.toNat + 1) list len.toNat 0 scheme) ∧
    (sigAlgRound list len scheme).Raises ⟨0, false⟩ (fun s => s.i.toNat) 2 := by
  refine ⟨?_, fun _ _ _ _ h => (sigAlgRound_some h).2⟩
  have hraises : ∀ s s', True → sigAlgRound list len scheme s = some s' →
      s.i.toNat < len.toNat ∧ s.i.toNat < s'.i.toNat := by
    intro s s' _ h
    obtain ⟨hmore, hi⟩ := sigAlgRound_some h
    exact ⟨by omega, by omega⟩
  obtain ⟨n, t, hends, hn, -⟩ := Loop.ends_of_counter (s := ⟨0, false⟩) (fun _ _ _ _ => trivial)
    hraises trivial
  refine ⟨n, t, hends, ?_⟩
  rw [← hends.run_eq (Nat.le_succ_of_le hn), ← hasSigAlgLoop_run]
  exact Bool.false_or _

/-- The loop over the cipher suites ends, and its counter does not wrap because the length
was checked to be even. -/
theorem ciphers_loop (ret : Ret) (csLen : UInt16) (r : Reader)
    (hret : ret.isOk → csLen.toNat % 2 = 0) :
    (∃ n t, (cipherRound ret csLen).Ends ⟨0, 0, r⟩ n t ∧
      (ret.isOk → readCiphers (csLen.toNat + 1) 0 csLen.toNat 0 r = (t.cipher, t.r))) ∧
    (cipherRound ret csLen).Raises ⟨0, 0, r⟩ (fun s => s.i.toNat) 2 := by
  let I : CipherLoop → Prop := fun s => s.i.toNat % 2 = 0
  have hround : ∀ s s', I s → cipherRound ret csLen s = some s' → I s' := by
    intro s s' hs h
    obtain ⟨-, hi⟩ := cipherRound_some hret hs h
    have heven : s.i.toNat % 2 = 0 := hs
    change s'.i.toNat % 2 = 0
    omega
  have hraises : ∀ s s', I s → cipherRound ret csLen s = some s' →
      s.i.toNat < csLen.toNat ∧ s.i.toNat < s'.i.toNat := by
    intro s s' hs h
    obtain ⟨hmore, hi⟩ := cipherRound_some hret hs h
    exact ⟨hmore, by omega⟩
  have hstart : I ⟨0, 0, r⟩ := rfl
  constructor
  · obtain ⟨n, t, hends, hn, -⟩ := Loop.ends_of_counter hround hraises hstart
    refine ⟨n, t, hends, fun hok => ?_⟩
    obtain rfl : ret = .ok () := by
      cases ret with
      | ok u => rfl
      | error e => cases hok
    rw [← hends.run_eq (Nat.le_succ_of_le hn)]
    exact readCiphers_run (s := ⟨0, 0, r⟩)
  · intro n t t' h hnext
    exact (cipherRound_some hret (Loop.Reaches.invariant (I := I) hround h hstart) hnext).2

/-- The loop over the versions ends, and its 8-bit counter does not wrap. -/
theorem versions_loop (nver : UInt8) (found : Bool) (r : Reader) :
    (∃ n t, (versionRound nver).Ends ⟨0, found, r⟩ n t ∧
      readVersions (nver.toNat + 1) 0 nver.toNat found r = (t.found, t.r)) ∧
    (versionRound nver).Raises ⟨0, found, r⟩ (fun s => s.j.toNat) 2 := by
  refine ⟨?_, fun _ _ _ _ h => (versionRound_some h).2⟩
  have hraises : ∀ s s', True → versionRound nver s = some s' →
      s.j.toNat < nver.toNat ∧ s.j.toNat < s'.j.toNat := by
    intro s s' _ h
    obtain ⟨hmore, hj⟩ := versionRound_some h
    exact ⟨by omega, by omega⟩
  obtain ⟨n, t, hends, hn, -⟩ := Loop.ends_of_counter (s := ⟨0, found, r⟩)
    (fun _ _ _ _ => trivial) hraises trivial
  refine ⟨n, t, hends, ?_⟩
  rw [← hends.run_eq (Nat.le_succ_of_le hn)]
  exact readVersions_run (s := ⟨0, found, r⟩)

/-- The loop over the key exchange modes ends, and its 8-bit counter does not wrap. -/
theorem pskModes_loop (pmLen : UInt8) (found : Bool) (r : Reader) :
    (∃ n t, (pskModeRound pmLen).Ends ⟨0, found, r⟩ n t ∧
      readPskModes (pmLen.toNat + 1) 0 pmLen.toNat found r = (t.found, t.r)) ∧
    (pskModeRound pmLen).Raises ⟨0, found, r⟩ (fun s => s.j.toNat) 1 := by
  refine ⟨?_, fun _ _ _ _ h => (pskModeRound_some h).2⟩
  have hraises : ∀ s s', True → pskModeRound pmLen s = some s' →
      s.j.toNat < pmLen.toNat ∧ s.j.toNat < s'.j.toNat := by
    intro s s' _ h
    obtain ⟨hmore, hj⟩ := pskModeRound_some h
    exact ⟨hmore, by omega⟩
  obtain ⟨n, t, hends, hn, -⟩ := Loop.ends_of_counter (s := ⟨0, found, r⟩)
    (fun _ _ _ _ => trivial) hraises trivial
  refine ⟨n, t, hends, ?_⟩
  rw [← hends.run_eq (Nat.le_succ_of_le hn)]
  exact readPskModes_run (s := ⟨0, found, r⟩)

/-- The search for a repeated type ends inside the array, whose count fits 8 bits as it is
at most 40. -/
theorem dups_loop (seenExt : List Nat) (nSeen : UInt8) (et : Nat)
    (hcount : nSeen.toNat = seenExt.length) (hforty : seenExt.length ≤ 40) :
    (∃ n t, (dupRound seenExt nSeen et).Ends ⟨0, false⟩ n t ∧ (t.dup = true ↔ et ∈ seenExt)) ∧
    (dupRound seenExt nSeen et).Raises ⟨0, false⟩ (fun s => s.j.toNat) 1 ∧
    ∀ n t t', (dupRound seenExt nSeen et).Reaches ⟨0, false⟩ n t →
      dupRound seenExt nSeen et t = some t' → t.j.toNat < 40 := by
  obtain ⟨n, t, hends, -, hdup⟩ := dupRound_ends et hcount
  refine ⟨⟨n, t, hends, hdup⟩, fun _ _ _ _ h => (dupRound_some h).2.1, fun _ _ _ _ h => ?_⟩
  have hlt := (dupRound_some h).1
  omega

variable (hmsg : msg.length < 2 ^ 31)

include hmsg

/-- The end of a vector of 16-bit length, without a wrap. -/
theorem vector_end {r : Reader} (hr : r.Inside msg) (len : UInt16) :
    add32 r.pos len.toNat = r.pos + len.toNat := by
  have hpos := hr.2
  have hlen := len.toNat_lt
  exact add32_eq (by omega)

theorem starts_inside : (suitesAt msg).2.Inside msg ∧ (extsAt msg).2.Inside msg := by
  have hstart : (Reader.init msg).Inside msg := ⟨rfl, Nat.zero_le _⟩
  have hsuites : (Reader.init msg).Moves msg 0 (suitesAt msg).2 := by
    refine .after (j := 0) ?_ fun h => Reader.u16_moves hmsg h
    refine .after (j := 0) ?_ fun h => Reader.bytes_moves hmsg h
      (Nat.lt_trans Reader.u8_value (by decide))
    refine .after (j := 0) ?_ fun h => Reader.u8_moves h
    refine .after (j := 0) ?_ fun h => Reader.bytes_moves hmsg h (by decide)
    refine .after (j := 0) ?_ fun h => Reader.u16_moves hmsg h
    exact .after (Reader.u8_moves hstart) fun h => Reader.uint_moves hmsg h (by decide)
  have hexts : (Reader.init msg).Moves msg 0 (extsAt msg).2 := by
    refine .after (j := 0) ?_ fun h => Reader.u16_moves hmsg h
    refine .after (j := 0) ?_ fun h => Reader.u8_moves h
    refine .after (j := 0) ?_ fun h => Reader.u8_moves h
    exact .after hsuites fun h => readCiphers_moves hmsg h
  exact ⟨hsuites.inside, hexts.inside⟩

/-- The loop over the shares ends, as each takes at least four bytes. -/
theorem shares_loop (group : Nat) (ksVec : UInt16) (out : ClientHello) (r : Reader)
    (hr : r.Inside msg) :
    ∃ n t, (shareRound group (add32 r.pos ksVec.toNat)).Ends ⟨out, r⟩ n t ∧
      readShares group (ksVec.toNat + 1) (add32 r.pos ksVec.toNat) out r = (t.out, t.r) := by
  rw [vector_end hmsg hr]
  obtain ⟨n, t, hends, hn⟩ := ReaderLoop.ends (s := ⟨out, r⟩) (shareRound_reader hmsg) hr
  rw [Nat.add_sub_cancel_left] at hn
  refine ⟨n, t, hends, ?_⟩
  rw [← hends.run_eq (Nat.le_succ_of_le hn)]
  exact readShares_run (s := ⟨out, r⟩)

/-- The loop over the groups ends. -/
theorem groups_loop (group : Nat) (glen : UInt16) (offered : Bool) (r : Reader)
    (hr : r.Inside msg) :
    ∃ n t, (groupRound group (add32 r.pos glen.toNat)).Ends ⟨offered, r⟩ n t ∧
      readGroups group (glen.toNat + 1) (add32 r.pos glen.toNat) offered r = (t.offered, t.r) := by
  rw [vector_end hmsg hr]
  obtain ⟨n, t, hends, hn⟩ := ReaderLoop.ends (s := ⟨offered, r⟩) (groupRound_reader hmsg) hr
  rw [Nat.add_sub_cancel_left] at hn
  refine ⟨n, t, hends, ?_⟩
  rw [← hends.run_eq (Nat.le_succ_of_le hn)]
  exact readGroups_run (s := ⟨offered, r⟩)

/-- Either loop of pre_shared_key ends within as many rounds as its vector has bytes, and
its counter is the number of rounds. -/
theorem psk_loop {next : Nat → Loop PskLoop}
    (hreader : ∀ lim, ReaderLoop msg PskLoop.r lim (next lim))
    (hcount : ∀ lim s s', next lim s = some s' → s'.count = s.count + 1) (len : UInt16)
    (out : ClientHello) (r : Reader) (hr : r.Inside msg) :
    (∃ n t, (next (add32 r.pos len.toNat)).Ends ⟨0, out, r⟩ n t ∧ n ≤ len.toNat) ∧
      (∀ n t, (next (add32 r.pos len.toNat)).Reaches ⟨0, out, r⟩ n t → t.count.toNat = n) ∧
      (next (add32 r.pos len.toNat)).Raises ⟨0, out, r⟩ (fun s => s.count.toNat) 1 := by
  rw [vector_end hmsg hr]
  have hlen := len.toNat_lt
  have hcounts : ∀ n t, (next (r.pos + len.toNat)).Reaches ⟨0, out, r⟩ n t →
      t.count.toNat = n ∧
        ∀ t', next (r.pos + len.toNat) t = some t' → t'.count.toNat = t.count.toNat + 1 :=
    fun n t h => pskLoop_counts (s := ⟨0, out, r⟩) (hreader _) (hcount _) hr rfl
      (by dsimp only; omega) h
  obtain ⟨n, t, hends, hn⟩ := ReaderLoop.ends (s := ⟨0, out, r⟩) (hreader (r.pos + len.toNat)) hr
  rw [Nat.add_sub_cancel_left] at hn
  exact ⟨⟨n, t, hends, hn⟩, fun n t h => (hcounts n t h).1, fun n t t' h => (hcounts n t h).2 t'⟩

/-- The loop over the identities ends, and its 16-bit count is the number of rounds,
without a wrap. -/
theorem identities_loop (idsLen : UInt16) (out : ClientHello) (r : Reader) (hr : r.Inside msg) :
    (∃ n t, (identityRound (add32 r.pos idsLen.toNat)).Ends ⟨0, out, r⟩ n t ∧
      t.count.toNat = n ∧ readIdentities (idsLen.toNat + 1) (add32 r.pos idsLen.toNat) 0 out r =
        (t.count.toNat, t.out, t.r)) ∧
    (identityRound (add32 r.pos idsLen.toNat)).Raises ⟨0, out, r⟩ (fun s => s.count.toNat) 1 := by
  obtain ⟨⟨n, t, hends, hn⟩, hcounts, hraises⟩ := psk_loop hmsg
    (fun lim => identityRound_reader hmsg) (fun lim s s' => identityRound_count) idsLen out r hr
  refine ⟨⟨n, t, hends, hcounts n t hends.1, ?_⟩, hraises⟩
  rw [← hends.run_eq (Nat.le_succ_of_le hn)]
  exact readIdentities_run (s := ⟨0, out, r⟩)

/-- The loop over the binders ends, and its 16-bit count is the number of rounds, without
a wrap. -/
theorem binders_loop (bndsLen : UInt16) (out : ClientHello) (r : Reader) (hr : r.Inside msg) :
    (∃ n t, (binderRound (add32 r.pos bndsLen.toNat)).Ends ⟨0, out, r⟩ n t ∧
      t.count.toNat = n ∧ readBinders (bndsLen.toNat + 1) (add32 r.pos bndsLen.toNat) 0 out r =
        (t.count.toNat, t.out, t.r)) ∧
    (binderRound (add32 r.pos bndsLen.toNat)).Raises ⟨0, out, r⟩ (fun s => s.count.toNat) 1 := by
  obtain ⟨⟨n, t, hends, hn⟩, hcounts, hraises⟩ := psk_loop hmsg
    (fun lim => binderRound_reader hmsg) (fun lim s s' => binderRound_count) bndsLen out r hr
  refine ⟨⟨n, t, hends, hcounts n t hends.1, ?_⟩, hraises⟩
  rw [← hends.run_eq (Nat.le_succ_of_le hn)]
  exact readBinders_run (s := ⟨0, out, r⟩)

/-- Both counts are numbers of entries, so comparing them compares these. -/
theorem counts_real (idsLen bndsLen : UInt16) (out out' : ClientHello) (r r' : Reader)
    (n n' : Nat) (t t' : PskLoop) (hr : r.Inside msg) (hr' : r'.Inside msg)
    (h : (identityRound (add32 r.pos idsLen.toNat)).Ends ⟨0, out, r⟩ n t)
    (h' : (binderRound (add32 r'.pos bndsLen.toNat)).Ends ⟨0, out', r'⟩ n' t') :
    t.count = t'.count ↔ n = n' := by
  obtain ⟨-, hids, -⟩ := psk_loop hmsg (fun lim => identityRound_reader hmsg)
    (fun lim s s' => identityRound_count) idsLen out r hr
  obtain ⟨-, hbnds, -⟩ := psk_loop hmsg (fun lim => binderRound_reader hmsg)
    (fun lim s s' => binderRound_count) bndsLen out' r' hr'
  rw [← UInt16.toNat_inj, hids n t h.1, hbnds n' t' h'.1]

/-- What the extension loop keeps. -/
def ExtsInv (msg : Bytes) (res : Except Err ClientHelloExts) : Prop :=
  ∀ st, res = .ok st → st.r.Inside msg ∧ st.seenExt.length ≤ 40

/-- One extension keeps the invariant: the reader stays inside, and at most 40 types are
remembered. -/
theorem extRound_inv {group extEnd : Nat} {res res' : Except Err ClientHelloExts}
    (h : ExtsInv msg res) (hnext : extRound group extEnd res = some res') : ExtsInv msg res' := by
  rintro st' rfl
  cases res with
  | error e => cases hnext
  | ok st =>
      obtain ⟨-, hone⟩ := round_some hnext
      obtain ⟨hmoves, -, hcount, et, -, hseen⟩ := clientHelloExt_ok hmsg (h st rfl).1 hone
      refine ⟨hmoves.inside, ?_⟩
      rw [hseen, List.length_append, List.length_singleton]
      exact hcount

/-- The bytes before `extEnd`, none after an error. -/
def extsLeft (extEnd : Nat) : Except Err ClientHelloExts → Nat
  | .error _ => 0
  | .ok st => extEnd - st.r.pos

/-- One extension is at least four bytes, so less is left. -/
theorem extRound_left {group extEnd : Nat} {res res' : Except Err ClientHelloExts}
    (h : ExtsInv msg res) (hnext : extRound group extEnd res = some res') :
    extsLeft extEnd res' < extsLeft extEnd res := by
  cases res with
  | error e => cases hnext
  | ok st =>
      obtain ⟨⟨hpos, -⟩, hone⟩ := round_some hnext
      cases res' with
      | error e => exact Nat.sub_pos_of_lt hpos
      | ok st' =>
          obtain ⟨hmoves, herr, -⟩ := clientHelloExt_ok hmsg (h st rfl).1 hone
          have hgain := (hmoves.gain herr).2
          simp only [extsLeft]
          omega

/-- By the two, the loop over the extensions ends. -/
theorem exts_loop (group : Nat) (out : ClientHello) (r : Reader) (extEnd : Nat)
    (hr : r.Inside msg) (hend : extEnd ≤ msg.length) :
    ∃ n, (extRound group extEnd).Ends (.ok { r := r, out := out }) n
      (clientHelloExts group msg.length { r := r, out := out } extEnd) := by
  have hstart : ExtsInv msg (.ok { r := r, out := out }) := by
    rintro st heq
    cases heq
    exact ⟨hr, Nat.zero_le _⟩
  obtain ⟨n, t, hends, hn, -⟩ := Loop.ends_of_measure (I := ExtsInv msg)
    (fun _ _ h hnext => extRound_inv hmsg h hnext) (extsLeft extEnd)
    (fun _ _ h hnext => extRound_left hmsg h hnext) hstart
  refine ⟨n, ?_⟩
  have hbudget : n ≤ msg.length := Nat.le_trans hn (Nat.le_trans (Nat.sub_le _ _) hend)
  rw [clientHelloExts_run, hends.run_eq hbudget]
  exact hends

/-- What holds before every round of it. -/
theorem exts_rounds (group : Nat) (out : ClientHello) (r : Reader) (extEnd n : Nat)
    (st : ClientHelloExts) (res : Except Err ClientHelloExts) (hr : r.Inside msg)
    (h : (extRound group extEnd).Reaches (.ok { r := r, out := out }) n (.ok st))
    (hnext : extRound group extEnd (.ok st) = some res) :
    st.r.Inside msg ∧ st.seenExt.length ≤ 40 ∧
      ((∃ e, res = .error e) ∨ ∃ st', res = .ok st' ∧ st.r.pos < st'.r.pos ∧
        st.seenExt.length < 40 ∧ st'.seenExt.length = st.seenExt.length + 1) := by
  have hstart : ExtsInv msg (.ok { r := r, out := out }) := by
    rintro st heq
    cases heq
    exact ⟨hr, Nat.zero_le _⟩
  obtain ⟨hinside, hforty⟩ := Loop.Reaches.invariant (I := ExtsInv msg)
    (fun _ _ h hnext => extRound_inv hmsg h hnext) h hstart st rfl
  refine ⟨hinside, hforty, ?_⟩
  cases res with
  | error e => exact .inl ⟨e, rfl⟩
  | ok st' =>
      obtain ⟨-, hone⟩ := round_some hnext
      obtain ⟨hmoves, herr, hcount, et, -, hseen⟩ := clientHelloExt_ok hmsg hinside hone
      have hgain := (hmoves.gain herr).2
      refine .inr ⟨st', rfl, by omega, hcount, ?_⟩
      rw [hseen, List.length_append, List.length_singleton]

variable (B) in
theorem hello_loops : HelloLoops B msg where
  parse := fun _ h => clientHelloParse_exts h
  starts := starts_inside hmsg
  sigAlgs := sigAlgs_loop
  ciphers := ciphers_loop
  shares := shares_loop hmsg
  groups := groups_loop hmsg
  versions := versions_loop
  pskModes := pskModes_loop
  identities := identities_loop hmsg
  binders := binders_loop hmsg
  counts := counts_real hmsg
  dups := dups_loop
  exts := exts_loop hmsg B.group.id
  rounds := exts_rounds hmsg B.group.id

end HelloLoops

theorem hello_loops_sample :
    (slice Sample.pskHello 5 201).length < 2 ^ 31 ∧
      HelloLoops Sample.platform.build (slice Sample.pskHello 5 201) := by
  have hlen : (slice Sample.pskHello 5 201).length < 2 ^ 31 :=
    Nat.lt_of_le_of_lt (List.length_take_le _ _) (by decide)
  exact ⟨hlen, hello_loops Sample.platform.build hlen⟩

end WolfNano
