/-
The format of a ServerHello: its extensions, and the loop of `wn_ServerHello_Parse` on
them.  A round takes one extension of a kind that has not been there; the reported fields
are the values of the extensions.
-/
import WolfNano.HelloRead

namespace WolfNano

open Duplex

/-! ### The extensions of a ServerHello -/

inductive ServerExtKind where
  | keyShare
  | supportedVersions
  | preShared
  deriving DecidableEq

def ServerExtKind.code : ServerExtKind → Nat
  | keyShare => extKeyShare
  | supportedVersions => extSupportedVer
  | preShared => extPreShared

inductive ServerExt where
  | keyShare (group : UInt16) (key : Bytes)
  | supportedVersions (version : UInt16)
  | preShared (index : UInt16)
  deriving DecidableEq

namespace ServerExt

def kind : ServerExt → ServerExtKind
  | keyShare _ _ => .keyShare
  | supportedVersions _ => .supportedVersions
  | preShared _ => .preShared

def body : ServerExt → Bytes
  | keyShare group key => u16 group.toNat ++ vec16 key
  | supportedVersions version => u16 version.toNat
  | preShared index => u16 index.toNat

def encode (e : ServerExt) : Bytes := u16 e.kind.code ++ vec16 e.body

theorem encode_length (e : ServerExt) : e.encode.length = 4 + e.body.length := by
  rw [encode, List.length_append, vec16_length, u16_length]
  omega

theorem keyShare_body_length (group : UInt16) (key : Bytes) :
    (keyShare group key).body.length = 4 + key.length := by
  rw [body, List.length_append, vec16_length, u16_length]
  omega

/-- The parsed fields are the values of the extension. -/
def Shows (msg : Bytes) (out : ServerHello) : ServerExt → Prop
  | keyShare group key =>
      out.group = group.toNat ∧ out.keyShareLen = key.length ∧
        ∃ off, out.keyShare = some off ∧ At msg off key
  | supportedVersions version => out.version = version.toNat
  | preShared index => out.pskSelected = index.toNat

end ServerExt

/-- The fields of an extension that is absent. -/
def ServerExtKind.Lacks (out : ServerHello) : ServerExtKind → Prop
  | keyShare => out.group = 0 ∧ out.keyShareLen = 0 ∧ out.keyShare = none
  | supportedVersions => out.version = 0
  | preShared => out.pskSelected = -1

namespace ServerHelloExts

def seen (st : ServerHelloExts) : ServerExtKind → Bool
  | .keyShare => st.seenKs
  | .supportedVersions => st.seenVer
  | .preShared => st.seenPsk

/-- The locals after a round that took the extension at `p`. -/
def took (st : ServerHelloExts) (msg : Bytes) (p : Nat) : ServerExt → ServerHelloExts
  | .keyShare group key =>
      { st with
        r := .upTo msg (p + 8 + key.length)
        seenKs := true
        out := { st.out with
          group := group.toNat, keyShare := some (p + 8), keyShareLen := key.length } }
  | .supportedVersions version =>
      { st with
        r := .upTo msg (p + 6)
        seenVer := true
        out := { st.out with version := version.toNat } }
  | .preShared index =>
      { st with
        r := .upTo msg (p + 6)
        seenPsk := true
        out := { st.out with pskSelected := index.toNat } }

/-- The locals after the rounds that took these extensions. -/
def tookAll (msg : Bytes) : Nat → List ServerExt → ServerHelloExts → ServerHelloExts
  | _, [], st => st
  | p, e :: exts, st => tookAll msg (p + e.encode.length) exts (st.took msg p e)

section Took

variable {msg : Bytes} {p : Nat} {st : ServerHelloExts} {e : ServerExt}

theorem took_r : (st.took msg p e).r = .upTo msg (p + e.encode.length) := by
  rw [e.encode_length]
  cases e with
  | keyShare group key =>
      rw [ServerExt.keyShare_body_length, ← Nat.add_assoc 4, ← Nat.add_assoc]
      rfl
  | supportedVersions version => rfl
  | preShared index => rfl

theorem took_seen (k : ServerExtKind) :
    (st.took msg p e).seen k = true ↔ k = e.kind ∨ st.seen k = true := by
  cases e <;> cases k <;> simp [took, seen, ServerExt.kind]

/-- A round shows the extension it took. -/
theorem took_shows (hat : At msg p e.encode) : e.Shows msg (st.took msg p e).out := by
  cases e with
  | keyShare group key =>
      have hkey : At msg (p + 2 + 2 + 2 + 2) key := hat.right.right.right.right
      exact ⟨rfl, rfl, _, rfl, hkey⟩
  | supportedVersions version => rfl
  | preShared index => rfl

/-- It leaves the fields of the other kinds as they are. -/
theorem took_keeps {e' : ServerExt} (hne : e'.kind ≠ e.kind) (h : e'.Shows msg st.out) :
    e'.Shows msg (st.took msg p e).out := by
  cases e <;> cases e'
  all_goals first
    | exact absurd rfl hne
    | exact h

theorem took_lacks {k : ServerExtKind} (hne : k ≠ e.kind) (h : k.Lacks st.out) :
    k.Lacks (st.took msg p e).out := by
  cases e <;> cases k
  all_goals first
    | exact absurd rfl hne
    | exact h

/-- The fields that no extension has. -/
theorem took_rest : (st.took msg p e).out.random = st.out.random ∧
    (st.took msg p e).out.sessionId = st.out.sessionId ∧
    (st.took msg p e).out.sessionIdLen = st.out.sessionIdLen ∧
    (st.took msg p e).out.cipher = st.out.cipher ∧
    (st.took msg p e).out.isHelloRetry = st.out.isHelloRetry := by
  cases e with
  | keyShare group key => exact ⟨rfl, rfl, rfl, rfl, rfl⟩
  | supportedVersions version => exact ⟨rfl, rfl, rfl, rfl, rfl⟩
  | preShared index => exact ⟨rfl, rfl, rfl, rfl, rfl⟩

end Took

section TookAll

variable {msg : Bytes}

theorem tookAll_r {exts : List ServerExt} {p : Nat} {st : ServerHelloExts}
    (hr : st.r = .upTo msg p) :
    (tookAll msg p exts st).r = .upTo msg (p + (exts.flatMap ServerExt.encode).length) := by
  induction exts generalizing p st with
  | nil => exact hr
  | cons e exts ih =>
      rw [tookAll, ih took_r, List.flatMap_cons, List.length_append, Nat.add_assoc]

/-- What is shown stays, when no later extension is of its kind. -/
theorem tookAll_keeps {exts : List ServerExt} {p : Nat} {st : ServerHelloExts} {e : ServerExt}
    (hne : ∀ e' ∈ exts, e.kind ≠ e'.kind) (h : e.Shows msg st.out) :
    e.Shows msg (tookAll msg p exts st).out := by
  induction exts generalizing p st with
  | nil => exact h
  | cons e' exts ih =>
      apply ih fun e'' he'' => hne e'' (List.mem_cons_of_mem _ he'')
      exact took_keeps (hne e' List.mem_cons_self) h

theorem tookAll_shows {exts : List ServerExt} {p : Nat} {st : ServerHelloExts} {e : ServerExt}
    (hat : At msg p (exts.flatMap ServerExt.encode)) (honce : (exts.map ServerExt.kind).Nodup)
    (he : e ∈ exts) : e.Shows msg (tookAll msg p exts st).out := by
  induction exts generalizing p st with
  | nil => cases he
  | cons e' exts ih =>
      rw [List.flatMap_cons] at hat
      rw [List.map_cons, List.nodup_cons] at honce
      cases List.mem_cons.1 he with
      | inl heq =>
          rw [heq, tookAll]
          apply tookAll_keeps
          · intro e'' he'' hkind
            exact honce.1 (hkind ▸ List.mem_map_of_mem he'')
          · exact took_shows hat.left
      | inr hmem => exact ih hat.right honce.2 hmem

theorem tookAll_lacks {exts : List ServerExt} {p : Nat} {st : ServerHelloExts} {k : ServerExtKind}
    (hne : ∀ e ∈ exts, k ≠ e.kind) (h : k.Lacks st.out) :
    k.Lacks (tookAll msg p exts st).out := by
  induction exts generalizing p st with
  | nil => exact h
  | cons e exts ih =>
      apply ih fun e' he' => hne e' (List.mem_cons_of_mem _ he')
      exact took_lacks (hne e List.mem_cons_self) h

theorem tookAll_rest {exts : List ServerExt} {p : Nat} {st : ServerHelloExts} :
    (tookAll msg p exts st).out.random = st.out.random ∧
      (tookAll msg p exts st).out.sessionId = st.out.sessionId ∧
      (tookAll msg p exts st).out.sessionIdLen = st.out.sessionIdLen ∧
      (tookAll msg p exts st).out.cipher = st.out.cipher ∧
      (tookAll msg p exts st).out.isHelloRetry = st.out.isHelloRetry := by
  induction exts generalizing p st with
  | nil => exact ⟨rfl, rfl, rfl, rfl, rfl⟩
  | cons e exts ih =>
      have ⟨hrandom, hsid, hsidLen, hcipher, hretry⟩ := @took_rest msg p st e
      rw [tookAll, ← hrandom, ← hsid, ← hsidLen, ← hcipher, ← hretry]
      exact ih

end TookAll

end ServerHelloExts

/-! ### The loop -/

theorem Reader.failWhen_false (r : Reader) : r.failWhen false = r := rfl

theorem Reader.endsAt_self {r : Reader} {e : Nat} (h : r.pos = e) : r.endsAt e = r :=
  if_neg (not_not.2 h)

section Loop

variable {msg : Bytes} {p : Nat} {st : ServerHelloExts} (hmsg : msg.length < 2 ^ 31)
  (hr : st.r = .upTo msg p)

include hmsg hr

omit hmsg hr in
/-- The reader after a round. -/
theorem serverHelloExt_r (extEnd : Nat) :
    (serverHelloExt st extEnd).r =
      if add32 st.r.u16.2.u16.2.pos st.r.u16.2.u16.1 > extEnd then st.r.u16.2.u16.2.fail
      else if st.r.u16.1 = extKeyShare then
        ((((st.r.u16.2.u16.2.failWhen st.seenKs).u16.2.u16.2.bytes
          (st.r.u16.2.u16.2.failWhen st.seenKs).u16.2.u16.1).2).endsAt
            (add32 st.r.u16.2.u16.2.pos st.r.u16.2.u16.1))
      else if st.r.u16.1 = extSupportedVer then
        (st.r.u16.2.u16.2.failWhen st.seenVer).u16.2.endsAt
          (add32 st.r.u16.2.u16.2.pos st.r.u16.2.u16.1)
      else if st.r.u16.1 = extPreShared then
        (st.r.u16.2.u16.2.failWhen st.seenPsk).u16.2.endsAt
          (add32 st.r.u16.2.u16.2.pos st.r.u16.2.u16.1)
      else st.r.u16.2.u16.2.fail := by
  simp only [serverHelloExt]
  split_ifs
  all_goals rfl

/-- A round takes an extension of a kind that has not been there. -/
theorem serverHelloExt_took {e : ServerExt} (hat : At msg p e.encode)
    (hbody : e.body.length < 2 ^ 16) (hfresh : st.seen e.kind = false) :
    serverHelloExt st msg.length = st.took msg p e := by
  have hroom := hat.1
  rw [e.encode_length] at hroom
  have ht : (Reader.upTo msg p).u16 = (e.kind.code, .upTo msg (p + 2)) := by
    apply Reader.u16_at hmsg _ hat.left
    cases e.kind <;> decide
  have hl : (Reader.upTo msg (p + 2)).u16 = (e.body.length, .upTo msg (p + 4)) :=
    Reader.u16_at hmsg hbody hat.right.left
  have hinner : At msg (p + 4) e.body := hat.right.right
  have heEnd : add32 (p + 4) e.body.length = p + 4 + e.body.length := add32_eq (by omega)
  have hinside : ¬ p + 4 + e.body.length > msg.length := by omega
  rw [serverHelloExt, hr, ht]
  simp only [hl, Reader.upTo_pos, heEnd]
  rw [if_neg hinside]
  cases e with
  | keyShare group key =>
      have hfresh : st.seenKs = false := hfresh
      have hlen := ServerExt.keyShare_body_length group key
      have hkey : key.length < 2 ^ 16 := by omega
      have hgroupRead := Reader.u16_at hmsg group.toNat_lt hinner.left
      have hlenRead : (Reader.upTo msg (p + 4 + 2)).u16 = (key.length, .upTo msg (p + 8)) :=
        Reader.u16_at hmsg hkey hinner.right.left
      have hkeyRead : (Reader.upTo msg (p + 8)).bytes key.length =
          (some (p + 8), .upTo msg (p + 8 + key.length)) :=
        Reader.bytes_at hmsg rfl hinner.right.right
      have hend : p + 8 + key.length = p + 4 + (ServerExt.keyShare group key).body.length := by
        omega
      rw [if_pos (by rfl), hfresh, Reader.failWhen_false, hgroupRead]
      simp only [hlenRead, hkeyRead]
      rw [Reader.endsAt_self hend]
      rfl
  | supportedVersions version =>
      have hfresh : st.seenVer = false := hfresh
      have hread := Reader.u16_at hmsg version.toNat_lt hinner
      have hne : ¬ (ServerExt.supportedVersions version).kind.code = extKeyShare :=
        show ¬ extSupportedVer = extKeyShare by decide
      rw [if_neg hne, if_pos (by rfl), hfresh,
        Reader.failWhen_false, hread, Reader.endsAt_self (by rfl)]
      rfl
  | preShared index =>
      have hfresh : st.seenPsk = false := hfresh
      have hread := Reader.u16_at hmsg index.toNat_lt hinner
      have hne : ¬ (ServerExt.preShared index).kind.code = extKeyShare :=
        show ¬ extPreShared = extKeyShare by decide
      have hne' : ¬ (ServerExt.preShared index).kind.code = extSupportedVer :=
        show ¬ extPreShared = extSupportedVer by decide
      rw [if_neg hne, if_neg hne', if_pos (by rfl), hfresh,
        Reader.failWhen_false, hread, Reader.endsAt_self (by rfl)]
      rfl

omit hr in
/-- A number that fills a body. -/
theorem word_read {q eEnd : Nat} {c : Bool} (hq : q ≤ msg.length)
    (h : (((Reader.upTo msg q).failWhen c).u16.2.endsAt eEnd).err = false) :
    c = false ∧ ∃ v : UInt16, At msg q (u16 v.toNat) ∧ eEnd = q + 2 := by
  have ⟨hend, hsame⟩ := Reader.endsAt_noErr h
  rw [hsame] at h
  have ⟨hc, hfirst⟩ := Reader.failWhen_noErr (Reader.uint_noErr h).1
  rw [hfirst] at h hend
  have ⟨v, hv, hat, hread⟩ := Reader.u16_read hmsg hq h
  rw [hread] at hend
  refine ⟨hc, UInt16.ofNat v, ?_, hend.symm⟩
  rw [UInt16.toNat_ofNat', Nat.mod_eq_of_lt hv]
  exact hat

omit hr in
/-- A group and a key that fill a body. -/
theorem share_read {q eEnd : Nat} {c : Bool} (hq : q ≤ msg.length)
    (h : ((((Reader.upTo msg q).failWhen c).u16.2.u16.2.bytes
      ((Reader.upTo msg q).failWhen c).u16.2.u16.1).2.endsAt eEnd).err = false) :
    c = false ∧ ∃ (group : UInt16) (key : Bytes), At msg q (u16 group.toNat ++ vec16 key) ∧
      eEnd = q + 4 + key.length ∧ key.length < 2 ^ 16 := by
  have ⟨hend, hsame⟩ := Reader.endsAt_noErr h
  rw [hsame] at h
  have hlenErr := (Reader.bytes_noErr h).1
  have hgroupErr := (Reader.uint_noErr hlenErr).1
  have ⟨hc, hfirst⟩ := Reader.failWhen_noErr (Reader.uint_noErr hgroupErr).1
  rw [hfirst] at h hend hlenErr hgroupErr
  have ⟨group, hgroup, hgroupAt, hgroupRead⟩ := Reader.u16_read hmsg hq hgroupErr
  have hroom : q + 2 ≤ msg.length := hgroupAt.1
  rw [hgroupRead] at h hend hlenErr
  have ⟨len, hlen, hlenAt, hlenRead⟩ := Reader.u16_read hmsg hroom hlenErr
  have hroom' : q + 2 + 2 ≤ msg.length := hlenAt.1
  dsimp only at h hend
  rw [hlenRead] at h hend
  have ⟨key, hkey, hkeyAt, hkeyRead⟩ :=
    Reader.bytes_read hmsg hroom' (Nat.lt_trans hlen (by decide)) h
  dsimp only at hend
  rw [hkeyRead] at hend
  subst hkey
  refine ⟨hc, UInt16.ofNat group, key, ?_, hend.symm, hlen⟩
  rw [UInt16.toNat_ofNat', Nat.mod_eq_of_lt hgroup]
  exact hgroupAt.append (hlenAt.append hkeyAt)

omit hmsg hr in
/-- The first read of a body has found no error. -/
theorem word_noErr {r : Reader} {c : Bool} (h : (r.failWhen c).u16.2.err = false) :
    r.err = false := by
  have hfirst := (Reader.uint_noErr h).1
  rw [(Reader.failWhen_noErr hfirst).2] at hfirst
  exact hfirst

/-- A round without an error has read such an extension. -/
theorem serverHelloExt_read (hp : p ≤ msg.length)
    (h : (serverHelloExt st msg.length).r.err = false) :
    ∃ e : ServerExt, At msg p e.encode ∧ e.body.length < 2 ^ 16 ∧ st.seen e.kind = false := by
  have hheader : st.r.u16.2.u16.2.err = false := by
    rw [serverHelloExt_r] at h
    split at h
    · cases h
    split at h
    · have hkey := (Reader.endsAt_noErr h).2 ▸ h
      exact word_noErr (Reader.uint_noErr (Reader.bytes_noErr hkey).1).1
    split at h
    · exact word_noErr ((Reader.endsAt_noErr h).2 ▸ h)
    split at h
    · exact word_noErr ((Reader.endsAt_noErr h).2 ▸ h)
    · cases h
  rw [hr] at hheader
  have ⟨type, htype, htypeAt, htypeRead⟩ := Reader.u16_read hmsg hp (Reader.uint_noErr hheader).1
  have hroom : p + 2 ≤ msg.length := htypeAt.1
  rw [htypeRead] at hheader
  have ⟨len, hlen, hlenAt, hlenRead⟩ := Reader.u16_read hmsg hroom hheader
  have hroom' : p + 4 ≤ msg.length := hlenAt.1
  have heEnd : add32 (p + 2 + 2) len = p + 4 + len := add32_eq (by omega)
  rw [serverHelloExt_r, hr, htypeRead] at h
  simp only [hlenRead, Reader.upTo_pos, heEnd] at h
  -- an extension whose body is what the branch reads
  have hfound : ∀ e : ServerExt, type = e.kind.code → At msg (p + 4) e.body →
      p + 4 + len = p + 4 + e.body.length → At msg p e.encode ∧ e.body.length < 2 ^ 16 := by
    intro e hkind hat heq
    have hsize : len = e.body.length := Nat.add_left_cancel heq
    subst hkind hsize
    exact ⟨htypeAt.append (hlenAt.append hat), hlen⟩
  split at h
  · cases h
  split at h
  · next hkind =>
      have ⟨hfresh, group, key, hat, hend, _⟩ := share_read hmsg hroom' h
      have hbody := ServerExt.keyShare_body_length group key
      have ⟨henc, hlt⟩ := hfound (.keyShare group key) hkind hat (by rw [hbody, hend]; omega)
      exact ⟨_, henc, hlt, hfresh⟩
  split at h
  · next hkind =>
      have ⟨hfresh, v, hat, hend⟩ := word_read hmsg hroom' h
      have ⟨henc, hlt⟩ := hfound (.supportedVersions v) hkind hat hend
      exact ⟨_, henc, hlt, hfresh⟩
  split at h
  · next hkind =>
      have ⟨hfresh, v, hat, hend⟩ := word_read hmsg hroom' h
      have ⟨henc, hlt⟩ := hfound (.preShared v) hkind hat hend
      exact ⟨_, henc, hlt, hfresh⟩
  · cases h

end Loop

/-- The extensions from `p` to the end of the message, none of them of a kind seen before. -/
structure ServerExts (msg : Bytes) (p : Nat) (st : ServerHelloExts) (exts : List ServerExt) :
    Prop where
  inMsg : At msg p (exts.flatMap ServerExt.encode)
  ends : p + (exts.flatMap ServerExt.encode).length = msg.length
  bodies : ∀ e ∈ exts, e.body.length < 2 ^ 16
  once : (exts.map ServerExt.kind).Nodup
  fresh : ∀ e ∈ exts, st.seen e.kind = false

namespace ServerExts

variable {msg : Bytes} {p : Nat} {st : ServerHelloExts} {e : ServerExt} {exts : List ServerExt}

theorem nil (hp : p = msg.length) : ServerExts msg p st [] where
  inMsg := At.nil (Nat.le_of_eq hp)
  ends := hp
  bodies _ he := nomatch he
  once := List.nodup_nil
  fresh _ he := nomatch he

theorem cons_iff : ServerExts msg p st (e :: exts) ↔
    (At msg p e.encode ∧ e.body.length < 2 ^ 16 ∧ st.seen e.kind = false) ∧
      ServerExts msg (p + e.encode.length) (st.took msg p e) exts := by
  have hseen : ∀ k, (st.took msg p e).seen k = false ↔ k ≠ e.kind ∧ st.seen k = false := by
    intro k
    rw [← Bool.not_eq_true, ServerHelloExts.took_seen, not_or, Bool.not_eq_true]
  constructor
  · intro h
    have hat := h.inMsg
    have hends := h.ends
    rw [List.flatMap_cons] at hat hends
    rw [List.length_append, ← Nat.add_assoc] at hends
    have ⟨hbody, hbodies⟩ := List.forall_mem_cons.1 h.bodies
    have ⟨hfresh, hrest⟩ := List.forall_mem_cons.1 h.fresh
    have ⟨hnew, honce⟩ := List.nodup_cons.1 h.once
    refine ⟨⟨hat.left, hbody, hfresh⟩, hat.right, hends, hbodies, honce, fun e' he' => ?_⟩
    apply (hseen e'.kind).2
    refine ⟨fun hkind => ?_, hrest e' he'⟩
    exact hnew (hkind ▸ List.mem_map_of_mem he')
  · rintro ⟨⟨hat, hbody, hfresh⟩, h⟩
    constructor
    · exact hat.append h.inMsg
    · rw [List.flatMap_cons, List.length_append, ← Nat.add_assoc]
      exact h.ends
    · exact List.forall_mem_cons.2 ⟨hbody, h.bodies⟩
    · apply List.nodup_cons.2
      refine ⟨fun hmem => ?_, h.once⟩
      have ⟨e', he', hkind⟩ := List.mem_map.1 hmem
      exact ((hseen e'.kind).1 (h.fresh e' he')).1 hkind
    · exact List.forall_mem_cons.2 ⟨hfresh, fun e' he' => ((hseen e'.kind).1 (h.fresh e' he')).2⟩

end ServerExts

/-- The loop does nothing after an error. -/
theorem serverHelloExts_stuck {fuel extEnd : Nat} {st : ServerHelloExts} (h : st.r.err = true) :
    serverHelloExts fuel st extEnd = st := by
  cases fuel with
  | zero => rfl
  | succ fuel =>
      apply if_neg
      rintro ⟨_, hok⟩
      rw [h] at hok
      cases hok

section Rounds

variable {msg : Bytes} (hmsg : msg.length < 2 ^ 31)

include hmsg

/-- The loop takes all of the extensions. -/
theorem serverHelloExts_took {exts : List ServerExt} {fuel p : Nat} {st : ServerHelloExts}
    (hr : st.r = .upTo msg p) (hfuel : msg.length ≤ p + fuel) (h : ServerExts msg p st exts) :
    serverHelloExts fuel st msg.length = st.tookAll msg p exts := by
  induction exts generalizing fuel p st with
  | nil =>
      have hend : p = msg.length := h.ends
      cases fuel with
      | zero => rfl
      | succ fuel =>
          rw [serverHelloExts, hr, if_neg]
          · rfl
          · rintro ⟨hmore, _⟩
            exact absurd hmore (Nat.not_lt.2 (Nat.le_of_eq hend.symm))
  | cons e exts ih =>
      have ⟨⟨hat, hbody, hfresh⟩, hrest⟩ := ServerExts.cons_iff.1 h
      have hroom := hat.1
      have hlen := e.encode_length
      cases fuel with
      | zero => omega
      | succ fuel =>
          have hgo : st.r.pos < msg.length ∧ st.r.err = false := by
            rw [hr]
            exact ⟨by rw [Reader.upTo_pos]; omega, rfl⟩
          rw [serverHelloExts, if_pos hgo, serverHelloExt_took hmsg hr hat hbody hfresh]
          exact ih ServerHelloExts.took_r (by omega) hrest

/-- A loop without an error has found such extensions. -/
theorem serverHelloExts_read {fuel p : Nat} {st : ServerHelloExts} (hr : st.r = .upTo msg p)
    (hp : p ≤ msg.length) (hfuel : msg.length ≤ p + fuel)
    (h : (serverHelloExts fuel st msg.length).r.err = false) :
    ∃ exts, ServerExts msg p st exts := by
  induction fuel generalizing p st with
  | zero => exact ⟨[], ServerExts.nil (Nat.le_antisymm hp hfuel)⟩
  | succ fuel ih =>
      by_cases hmore : p < msg.length
      · have hgo : st.r.pos < msg.length ∧ st.r.err = false := by
          rw [hr]
          exact ⟨hmore, rfl⟩
        rw [serverHelloExts, if_pos hgo] at h
        have hone : (serverHelloExt st msg.length).r.err = false := by
          cases herr : (serverHelloExt st msg.length).r.err with
          | false => rfl
          | true =>
              rw [serverHelloExts_stuck herr, herr] at h
              exact h
        have ⟨e, hat, hbody, hfresh⟩ := serverHelloExt_read hmsg hr hp hone
        have hroom := hat.1
        have hlen := e.encode_length
        rw [serverHelloExt_took hmsg hr hat hbody hfresh] at h
        have ⟨exts, hexts⟩ := ih ServerHelloExts.took_r hroom (by omega) h
        exact ⟨e :: exts, ServerExts.cons_iff.2 ⟨⟨hat, hbody, hfresh⟩, hexts⟩⟩
      · exact ⟨[], ServerExts.nil (Nat.le_antisymm hp (Nat.not_lt.1 hmore))⟩

end Rounds

end WolfNano
