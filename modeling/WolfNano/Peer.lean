/-
An RFC 8446 peer, as far as its writes go: what it puts into a record, the keys
and the counter it seals the record with, and the log of what it has sent.  A
post-handshake message is whole within one record, a KeyUpdate last in it.
-/
import WolfNano.PostHs

namespace WolfNano

open Duplex

inductive PeerMsg where
  | app (data : Bytes)
  | posths (tickets : List Bytes) (update : Option Bool)
  | alert (level description : UInt8)
  deriving DecidableEq

namespace PeerMsg

def contentType : PeerMsg → UInt8
  | app _ => recAppdata
  | posths _ _ => recHandshake
  | alert _ _ => recAlert

/-- The messages of a handshake record. -/
def messages (tickets : List Bytes) (update : Option Bool) : List PostHs :=
  tickets.map .ticket ++ (update.map .keyUpdate).toList

def content : PeerMsg → Bytes
  | app data => data
  | posths tickets update => PostHs.encodeAll (messages tickets update)
  | alert level description => [level, description]

/-- The peer's next record is under new keys. -/
def rotates : PeerMsg → Bool
  | posths _ (some _) => true
  | _ => false

def appData : PeerMsg → Option Bytes
  | app data => some data
  | _ => none

end PeerMsg

/-- A record with its padding. -/
structure PeerRec where
  msg : PeerMsg
  pad : Nat
  deriving DecidableEq

namespace PeerRec

/-- TLSInnerPlaintext. -/
def inner (r : PeerRec) : Bytes := r.msg.content ++ [r.msg.contentType] ++ zeros r.pad

/-- The limit on a record. -/
def Fits (r : PeerRec) : Prop := r.msg.content.length + r.pad ≤ maxPlaintext

instance : DecidablePred Fits := fun _ => inferInstanceAs (Decidable (_ ≤ _))

end PeerRec

/-- The peer's write side: the generation of its keys, the keys, and the number
of records it has sealed with them. -/
structure PeerState where
  gen : Nat
  keys : TrafficKeys
  seq : Nat
  deriving DecidableEq

variable (P : Platform) (digest : Digest)

def PeerState.next (st : PeerState) (msg : PeerMsg) : PeerState :=
  if msg.rotates then ⟨st.gen + 1, (tls13KeyUpdate P st.keys digest).2, 0⟩
  else { st with seq := st.seq + 1 }

/-- The nonce of the next record. -/
def PeerState.nonce (st : PeerState) : Bytes :=
  buildNonce st.keys.iv (UInt64.ofNat st.seq)

/-- The read side of the session is where the peer's write side was. -/
structure Session.ReadsAt (s : Session) (st : PeerState) : Prop where
  keys : s.readKeys = st.keys
  seq : s.sSeq = UInt64.ofNat st.seq

/-- The write side of the session is where the peer's read side was. -/
structure Session.WritesAt (s : Session) (st : PeerState) : Prop where
  keys : s.writeKeys = st.keys
  seq : s.cSeq = UInt64.ofNat st.seq

/-- The record on the wire. -/
def PeerState.seal (st : PeerState) (r : PeerRec) : Option Bytes :=
  let hdr := recordHeader (r.inner.length + recordTagSz)
  (P.gcmEncrypt st.keys.key st.nonce hdr r.inner).map fun (ct, tag) => hdr ++ ct ++ tag

/-- The peer sent these records one after the other.  It keeps to the record
limit and can derive the keys it goes on with. -/
inductive Sent : PeerState → List (PeerRec × Bytes) → PeerState → Prop
  | nil {st : PeerState} : Sent st [] st
  | cons {st st' : PeerState} {r : PeerRec} {bytes : Bytes}
      {log : List (PeerRec × Bytes)} (hfits : r.Fits)
      (hupdate : r.msg.rotates = true → (tls13KeyUpdate P st.keys digest).1 = .ok ())
      (hseal : st.seal P r = some bytes)
      (hrest : Sent (st.next P digest r.msg) log st') :
      Sent st ((r, bytes) :: log) st'

/-- The states the peer goes through with a log. -/
def PeerState.along (st : PeerState) : List (PeerRec × Bytes) → List PeerState
  | [] => [st]
  | x :: log => st :: (st.next P digest x.1.msg).along log

/-- The application records of a log. -/
def appRecords (log : List (PeerRec × Bytes)) : List Bytes :=
  log.filterMap fun x => x.1.msg.appData

@[simp] theorem appRecords_append (log log' : List (PeerRec × Bytes)) :
    appRecords (log ++ log') = appRecords log ++ appRecords log' := by
  simp [appRecords]

variable {P digest} {st st₁ st' : PeerState} {log log' : List (PeerRec × Bytes)}

/-- After a KeyUpdate the writer is in the next generation. -/
theorem PeerState.next_keyUpdate {msg : PeerMsg} {ret : Ret} {t : TrafficKeys}
    (hmsg : msg.rotates = true) (ht : tls13KeyUpdate P st.keys digest = (ret, t)) :
    st.next P digest msg = ⟨st.gen + 1, t, 0⟩ := by
  rw [PeerState.next, if_pos hmsg, ht]

theorem Sent.append (h : Sent P digest st log st₁) (h' : Sent P digest st₁ log' st') :
    Sent P digest st (log ++ log') st' := by
  induction h with
  | nil => exact h'
  | cons hfits hupdate hseal _ ih => exact .cons hfits hupdate hseal (ih h')

theorem Sent.split (h : Sent P digest st (log ++ log') st') :
    ∃ mid, Sent P digest st log mid ∧ Sent P digest mid log' st' := by
  induction log generalizing st with
  | nil => exact ⟨st, .nil, h⟩
  | cons x log ih =>
      cases h with
      | cons hfits hupdate hseal hrest =>
          obtain ⟨mid, hleft, hright⟩ := ih hrest
          exact ⟨mid, .cons hfits hupdate hseal hleft, hright⟩

theorem PeerState.mem_along (st : PeerState) (log : List (PeerRec × Bytes)) :
    st ∈ st.along P digest log := by
  cases log with
  | nil => exact List.mem_singleton_self st
  | cons x log => exact List.mem_cons_self ..

theorem Sent.mem_along (h : Sent P digest st log st') (hfront : log <+: log') :
    st' ∈ st.along P digest log' := by
  induction h generalizing log' with
  | nil => exact PeerState.mem_along _ _
  | cons _ _ _ _ ih =>
      obtain ⟨more, rfl⟩ := hfront
      exact List.mem_cons_of_mem _ (ih (List.prefix_append _ _))

/-- The log determines where the peer stands. -/
theorem Sent.unique (h : Sent P digest st log st') (h' : Sent P digest st log st₁) :
    st' = st₁ := by
  induction h with
  | nil =>
      cases h'
      rfl
  | cons _ _ _ _ ih =>
      cases h' with
      | cons _ _ _ hrest => exact ih hrest

/-- Later states belong to a later generation, or have counted on. -/
theorem Sent.ahead (h : Sent P digest st log st') :
    st.gen < st'.gen ∨
      st.gen = st'.gen ∧ st'.keys = st.keys ∧ st'.seq = st.seq + log.length := by
  induction h with
  | nil => exact .inr ⟨rfl, rfl, rfl⟩
  | @cons st st' r bytes log _ _ _ _ ih =>
      by_cases hrotates : r.msg.rotates = true
      · rw [PeerState.next, if_pos hrotates] at ih
        simp only at ih
        omega
      · rw [PeerState.next, if_neg hrotates] at ih
        rcases ih with hlater | ⟨hgen, hkeys, hseq⟩
        · exact .inl hlater
        · refine .inr ⟨hgen, hkeys, ?_⟩
          rw [hseq, List.length_cons]
          simp only
          omega

theorem Sent.iv (h : Sent P digest st log st') (hiv : st.keys.iv.length = 12) :
    st'.keys.iv.length = 12 := by
  induction h with
  | nil => exact hiv
  | @cons st st' r bytes log _ _ _ _ ih =>
      apply ih
      unfold PeerState.next
      split
      · exact tls13KeyUpdate_iv hiv rfl
      · exact hiv

/-! ### Opening the peer's records -/

theorem PeerMsg.contentType_ne_zero (m : PeerMsg) : m.contentType ≠ 0 := by
  have happ : recAppdata ≠ 0 := by decide
  have hhs : recHandshake ≠ 0 := by decide
  have halert : recAlert ≠ 0 := by decide
  cases m with
  | app data => exact happ
  | posths tickets update => exact hhs
  | alert level description => exact halert

/-- What the session does with a post-handshake record of the peer. -/
theorem sessionPosths_content {s : Session} {tickets : List Bytes} {update : Option Bool}
    (hlen : (PeerMsg.posths tickets update).content.length < 2 ^ 24) :
    sessionPosths P s (PeerMsg.posths tickets update).content
      = PostHs.handleAll P s (update.map .keyUpdate).toList := by
  have hfits : ∀ m ∈ PeerMsg.messages tickets update, m.Fits := by
    intro m hm
    have hle : m.encode.length ≤ (PostHs.encodeAll
        (PeerMsg.messages tickets update)).length :=
      (List.sublist_flatten_of_mem (List.mem_map_of_mem hm)).length_le
    cases m with
    | ticket body =>
        simp only [PostHs.encode, List.length_cons, List.length_append] at hle
        change body.length < 2 ^ 24
        simp only [PeerMsg.content] at hlen
        omega
    | keyUpdate requested => trivial
  simp only [PeerMsg.content] at hlen ⊢
  rw [PostHs.sessionPosths_encodeAll hfits (by omega), PeerMsg.messages,
    PostHs.handleAll_tickets]

theorem splitInner_inner (r : PeerRec) :
    splitInner r.inner = .ok (r.msg.contentType, r.msg.content) :=
  splitInner_append r.pad r.msg.contentType_ne_zero

/-- A sealed record in its parts. -/
theorem PeerState.seal_eq_some {r : PeerRec} {bytes : Bytes}
    (h : st.seal P r = some bytes) :
    ∃ ct tag, P.gcmEncrypt st.keys.key st.nonce
        (recordHeader (r.inner.length + recordTagSz)) r.inner = some (ct, tag) ∧
      bytes = recordHeader (r.inner.length + recordTagSz) ++ ct ++ tag ∧
        ct.length = r.inner.length ∧ tag.length = 16 := by
  obtain ⟨⟨ct, tag⟩, henc, rfl⟩ := Option.map_eq_some_iff.1 h
  have hlen := P.gcmEncrypt_length henc
  exact ⟨ct, tag, henc, rfl, hlen.1, hlen.2⟩

theorem PeerRec.inner_length (r : PeerRec) :
    r.inner.length = r.msg.content.length + 1 + r.pad := by
  rw [inner, List.length_append, List.length_append, List.length_singleton,
    zeros_length]

/-- The length of a sealed record, as its header gives it. -/
theorem PeerState.seal_length {r : PeerRec} {bytes : Bytes} (hfits : r.Fits)
    (h : st.seal P r = some bytes) :
    bytes.length = r.inner.length + 21 ∧ bytes.length = 5 + ofBE (slice bytes 3 2) := by
  obtain ⟨ct, tag, -, rfl, hct, htag⟩ := PeerState.seal_eq_some h
  have hinner := r.inner_length
  have hmax : r.msg.content.length + r.pad ≤ 16384 := hfits
  have hslice : slice (recordHeader (r.inner.length + recordTagSz) ++ ct ++ tag) 3 2
      = u16 (r.inner.length + recordTagSz) := rfl
  have htotal : (recordHeader (r.inner.length + recordTagSz) ++ ct ++ tag).length
      = r.inner.length + 21 := by
    rw [List.length_append, List.length_append, recordHeader_length, hct, htag]
    omega
  refine ⟨htotal, ?_⟩
  rw [hslice, htotal, ofBE_u16 (by simp only [recordTagSz]; omega)]
  simp only [recordTagSz]
  omega

/-- What the peer sealed opens at the same point. -/
theorem PeerState.open_seal {r : PeerRec} {bytes : Bytes} (hopens : P.OpensSealed)
    (hinit : (P.aesInit && P.aesKey st.keys.key) = true)
    (h : st.seal P r = some bytes) :
    openRecord P st.keys.key st.keys.iv (UInt64.ofNat st.seq) bytes
      = .ok (r.msg.contentType, r.msg.content) := by
  obtain ⟨ct, tag, henc, rfl, -, htag⟩ := PeerState.seal_eq_some h
  have hdec := hopens _ _ _ _ _ _ henc
  rw [PeerState.nonce] at hdec
  rw [openRecord_parts (recordHeader_length _) htag, hinit, hdec]
  exact splitInner_inner r

end WolfNano
