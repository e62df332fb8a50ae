/-
Which post-handshake records are accepted.  A record that
`wn_session_posths` accepts is a sequence of whole messages, and nothing says
that a KeyUpdate has to be the last of them.
-/
import WolfNano.Sample

namespace WolfNano

open Duplex

variable {P : Platform}

/-! ### Accepted records are whole messages -/

/-- A message that was accepted is whole. -/
theorem posthsMsg_ok {s s' : Session} {pre rest : Bytes} {r : Reader} {tr : List (Act Ev)}
    (hne : rest ≠ []) (hlen : (pre ++ rest).length < 2 ^ 31)
    (h : (posthsMsg P s (.here pre rest)).Runs tr (.ok r, s')) (herr : r.err = false) :
    ∃ m more, PostHs.Fits m ∧ rest = m.encode ++ more := by
  obtain ⟨b, rest, rfl⟩ := List.exists_cons_of_ne_nil hne
  have hsize : (pre ++ b :: rest).length = (pre ++ [b] ++ rest).length := by simp
  unfold posthsMsg at h
  rw [Reader.here_u8] at h
  dsimp only at h
  rcases @Reader.u24_here (pre ++ [b]) rest (by omega) with
    ⟨v, more, hv, rfl, hread⟩ | ⟨-, hread⟩
  · rw [hread] at h
    dsimp only at h
    have hmore : (pre ++ [b] ++ u24 v ++ more).length < 2 ^ 31 := by
      simp only [List.length_append] at hsize hlen ⊢
      omega
    split at h
    · rename_i htype
      obtain ⟨-, heq⟩ := h
      cases heq
      rcases @Reader.bytes_here (pre ++ [b] ++ u24 v) more v (by omega) with
        ⟨body, rest, rfl, rfl, -⟩ | ⟨-, hfail⟩
      · obtain rfl : b = 4 := UInt8.toNat_inj.1 htype
        exact ⟨.ticket body, rest, hv, by simp [PostHs.encode]⟩
      · rw [hfail] at herr
        cases herr
    · split at h
      · rename_i htype
        split at h
        · obtain ⟨-, heq⟩ := h
          cases heq
        · rename_i hreq
          simp only [not_or, not_not, Nat.not_lt] at hreq
          obtain ⟨hread, rfl, hle⟩ := hreq
          obtain rfl : b = 24 := UInt8.toNat_inj.1 htype
          cases more with
          | nil =>
              refine absurd ?_ hread
              simp [Reader.u8, Reader.here, Reader.fail]
          | cons req rest =>
              rw [Reader.here_u8] at hle
              have hcases : req = 0 ∨ req = 1 := by
                rw [← UInt8.toNat_inj, ← UInt8.toNat_inj]
                simp only [kuRequested] at hle
                change req.toNat = 0 ∨ req.toNat = 1
                omega
              rcases hcases with rfl | rfl
              · exact ⟨.keyUpdate false, rest, trivial, rfl⟩
              · exact ⟨.keyUpdate true, rest, trivial, rfl⟩
      · obtain ⟨-, heq⟩ := h
        cases heq
  · split at h
    · obtain ⟨-, heq⟩ := h
      cases heq
      rw [Reader.bytes_err hread] at herr
      cases herr
    · split at h
      · rw [if_pos (.inl (Reader.u8_err hread))] at h
        obtain ⟨-, heq⟩ := h
        cases heq
      · obtain ⟨-, heq⟩ := h
        cases heq

/-- An accepted record is a sequence of whole messages, each handled. -/
theorem posthsLoop_ok {fuel : Nat} {s s' : Session} {pre rest : Bytes} {tr : List (Act Ev)}
    (hlen : (pre ++ rest).length < 2 ^ 31)
    (h : (posthsLoop P fuel s (.here pre rest)).Runs tr (.ok (), s')) :
    ∃ msgs, (∀ m ∈ msgs, PostHs.Fits m) ∧ rest = PostHs.encodeAll msgs ∧
      (PostHs.handleAll P s msgs).Runs tr (.ok (), s') := by
  induction fuel generalizing s pre rest tr with
  | zero => exact h.elim
  | succ fuel ih =>
      rw [posthsLoop] at h
      cases rest with
      | nil =>
          rw [if_neg (by simp [Reader.here])] at h
          exact ⟨[], by simp, rfl, h⟩
      | cons b rest =>
          rw [if_pos (by simp [Reader.here]), Proc.runs_seq] at h
          obtain ⟨⟨x, s₁⟩, tr₁, tr₂, rfl, hmsg, hrest⟩ := h
          cases x with
          | error e =>
              obtain ⟨-, heq⟩ := hrest
              cases heq
          | ok r =>
              dsimp only at hrest
              split at hrest
              · obtain ⟨-, heq⟩ := hrest
                cases heq
              · rename_i herr
                rw [Bool.not_eq_true] at herr
                obtain ⟨m, more, hm, hsplit⟩ :=
                  posthsMsg_ok (List.cons_ne_nil _ _) hlen hmsg herr
                rw [hsplit] at hmsg hlen ⊢
                have hwhole : (pre ++ m.encode).length < 2 ^ 32 := by
                  simp only [List.length_append] at hlen ⊢
                  omega
                rw [PostHs.posthsMsg_here hm hwhole, Proc.runs_seq] at hmsg
                obtain ⟨⟨ret, s₂⟩, tr₁, _, rfl, hhandle, rfl, heq⟩ := hmsg
                cases ret with
                | error e => cases heq
                | ok u =>
                    cases heq
                    have htail : (pre ++ m.encode ++ more).length < 2 ^ 31 := by
                      simpa only [List.append_assoc] using hlen
                    obtain ⟨msgs, hmsgs, rfl, hall⟩ := ih htail hrest
                    refine ⟨m :: msgs, ?_, rfl, ?_⟩
                    · intro m' hm'
                      rcases List.mem_cons.1 hm' with rfl | hm'
                      · exact hm
                      · exact hmsgs m' hm'
                    · rw [PostHs.handleAll, Proc.runs_seq]
                      exact ⟨_, _, _, by rw [List.append_nil], hhandle, hall⟩

/-- `wn_session_posths` accepts a record exactly when it is a sequence of whole
messages that can all be handled. -/
theorem sessionPosths_ok {s s' : Session} {content : Bytes} {tr : List (Act Ev)}
    (hlen : content.length < 2 ^ 31) :
    (sessionPosths P s content).Runs tr (.ok (), s') ↔
      ∃ msgs, (∀ m ∈ msgs, PostHs.Fits m) ∧ content = PostHs.encodeAll msgs ∧
        (PostHs.handleAll P s msgs).Runs tr (.ok (), s') := by
  constructor
  · intro h
    exact @posthsLoop_ok P _ s s' [] content tr hlen h
  · rintro ⟨msgs, hmsgs, rfl, h⟩
    rw [PostHs.sessionPosths_encodeAll hmsgs (by omega)]
    exact h

/-! ### Messages are read in one way -/

namespace PostHs

theorem encode_inj {m m' : PostHs} {a b : Bytes} (hm : m.Fits) (hm' : m'.Fits)
    (h : m.encode ++ a = m'.encode ++ b) : m = m' ∧ a = b := by
  cases m with
  | ticket body =>
      cases m' with
      | ticket body' =>
          simp only [encode, List.cons_append, List.append_assoc, List.cons.injEq,
            true_and] at h
          obtain ⟨hlength, hrest⟩ := List.append_inj h rfl
          have hsame : body.length = body'.length := by
            rw [← ofBE_u24 hm, ← ofBE_u24 hm', hlength]
          obtain ⟨rfl, rfl⟩ := List.append_inj hrest hsame
          exact ⟨rfl, rfl⟩
      | keyUpdate requested =>
          exact absurd (List.cons.inj h).1 (by decide)
  | keyUpdate requested =>
      cases m' with
      | ticket body' => exact absurd (List.cons.inj h).1 (by decide)
      | keyUpdate requested' =>
          obtain ⟨hencode, rfl⟩ := List.append_inj h rfl
          refine ⟨?_, rfl⟩
          cases requested <;> cases requested' <;> first | rfl | exact absurd hencode (by decide)

/-- Whole messages at the start of whole messages are the first of them. -/
theorem encodeAll_prefix {msgs before : List PostHs} {after : Bytes}
    (hmsgs : ∀ m ∈ msgs, m.Fits) (hbefore : ∀ m ∈ before, m.Fits)
    (h : encodeAll msgs = encodeAll before ++ after) :
    ∃ rest, msgs = before ++ rest ∧ after = encodeAll rest := by
  induction before generalizing msgs with
  | nil => exact ⟨msgs, rfl, h.symm⟩
  | cons m before ih =>
      cases msgs with
      | nil =>
          have hpos := m.encode_length_pos
          have hlen := congrArg List.length h
          simp only [encodeAll_nil, encodeAll_cons, List.length_nil, List.length_append] at hlen
          omega
      | cons m' msgs =>
          simp only [encodeAll_cons, List.append_assoc] at h
          obtain ⟨rfl, htail⟩ := encode_inj (hmsgs m' (List.mem_cons_self ..))
            (hbefore m (List.mem_cons_self ..)) h
          obtain ⟨rest, rfl, hafter⟩ := ih
            (fun x hx => hmsgs x (List.mem_cons_of_mem _ hx))
            (fun x hx => hbefore x (List.mem_cons_of_mem _ hx)) htail
          exact ⟨rest, rfl, hafter⟩

/-- Messages up to the first KeyUpdate. -/
theorem tickets_then_update (msgs : List PostHs) :
    (∃ tickets : List Bytes, msgs = tickets.map .ticket) ∨
      ∃ (tickets : List Bytes) (requested : Bool) (rest : List PostHs),
        msgs = tickets.map .ticket ++ .keyUpdate requested :: rest := by
  induction msgs with
  | nil => exact .inl ⟨[], rfl⟩
  | cons m msgs ih =>
      cases m with
      | keyUpdate requested => exact .inr ⟨[], requested, msgs, rfl⟩
      | ticket body =>
          rcases ih with ⟨tickets, rfl⟩ | ⟨tickets, requested, rest, rfl⟩
          · exact .inl ⟨body :: tickets, rfl⟩
          · exact .inr ⟨body :: tickets, requested, rest, rfl⟩

theorem fits_before_update {before : List PostHs} {requested : Bool}
    (h : ∀ m ∈ before, m.Fits) : ∀ m ∈ before ++ [keyUpdate requested], m.Fits := by
  intro m hm
  rcases List.mem_append.1 hm with hm | hm
  · exact h m hm
  · rw [List.mem_singleton.1 hm]
    trivial

theorem keyUpdate_not_ticket (requested : Bool) (tickets : List Bytes) :
    keyUpdate requested ∉ tickets.map ticket := by
  simp

end PostHs

/-! ### The last message -/

variable (P)

/-- What RFC 8446 5.1 asks of an accepted record. -/
structure AlignedRecord (s : Session) (content : Bytes) (tr : List (Act Ev))
    (s' : Session) : Prop where
  last : ∀ (before : List PostHs) requested after, (∀ m ∈ before, m.Fits) →
    content = PostHs.encodeAll before ++ (PostHs.keyUpdate requested).encode ++ after →
    after = []
  generations : s'.readKeys = s.readKeys ∨
    s'.readKeys = (tls13KeyUpdate P s.readKeys s.digest).2
  replies : (sends tr).length ≤ 1

/-- Tickets, a KeyUpdate, and something after it. -/
def TrailsKeyUpdate (content : Bytes) : Prop :=
  ∃ (tickets : List Bytes) (requested : Bool) (after : Bytes),
    (∀ body ∈ tickets, body.length < 2 ^ 24) ∧ after ≠ [] ∧
      content = PostHs.encodeAll (tickets.map .ticket) ++
        (PostHs.keyUpdate requested).encode ++ after

variable {P}

theorem sendKeyUpdate_sends {s s' : Session} {tr : List (Act Ev)} {ret : Ret}
    (h : (sendKeyUpdate P s).Runs tr (ret, s')) : (sends tr).length ≤ 1 := by
  rcases sendKeyUpdate_runs h with ⟨-, rfl, -⟩ | ⟨rec, -, ⟨r, -, rfl, -⟩ | ⟨t, rfl, hrot⟩⟩
  · simp
  · simp
  · rcases rotateWrite_runs hrot with ⟨_, -, -, rfl, -⟩ |
      ⟨_, _, -, -, -, rfl | ⟨rfl, -⟩⟩ <;> simp

/-- One KeyUpdate is one generation and at most one reply. -/
theorem handle_keyUpdate {s s' : Session} {requested : Bool} {tr : List (Act Ev)}
    (h : (PostHs.handle P s (.keyUpdate requested)).Runs tr (.ok (), s')) :
    s'.readKeys = (tls13KeyUpdate P s.readKeys s.digest).2 ∧ (sends tr).length ≤ 1 := by
  rw [PostHs.handle] at h
  split at h
  · obtain ⟨-, heq⟩ := h
    cases heq
  · rename_i t hupd
    rw [hupd]
    dsimp only at h
    split at h
    · exact ⟨(sendKeyUpdate_same h).readKeys, sendKeyUpdate_sends h⟩
    · obtain ⟨rfl, heq⟩ := h
      cases heq
      exact ⟨rfl, by simp⟩

/-- Of an accepted record a KeyUpdate is the last message, and there is one new
generation and one reply at most, unless the first KeyUpdate in it is followed
by something. -/
theorem key_update_last {s s' : Session} {content : Bytes} {tr : List (Act Ev)}
    (_hest : s.established = true) (hlen : content.length ≤ maxPlaintext + 256)
    (h : (sessionPosths P s content).Runs tr (.ok (), s')) :
    AlignedRecord P s content tr s' ↔ ¬ TrailsKeyUpdate content := by
  constructor
  · rintro haligned ⟨tickets, requested, after, htickets, hne, heq⟩
    refine hne (haligned.last (tickets.map .ticket) requested after ?_ heq)
    simpa [PostHs.Fits] using htickets
  · intro htrails
    have hmax : maxPlaintext = 16384 := rfl
    obtain ⟨msgs, hmsgs, rfl, hall⟩ := (sessionPosths_ok (by omega)).1 h
    rcases PostHs.tickets_then_update msgs with ⟨tickets, rfl⟩ |
      ⟨tickets, requested, rest, rfl⟩
    · have hnone := PostHs.handleAll_tickets (P := P) (s := s) tickets []
      rw [List.append_nil] at hnone
      rw [hnone] at hall
      obtain ⟨rfl, heq⟩ := hall
      cases heq
      refine ⟨?_, .inl rfl, by simp⟩
      intro before requested after hbefore heq
      have hwhole : PostHs.encodeAll (tickets.map .ticket)
          = PostHs.encodeAll (before ++ [.keyUpdate requested]) ++ after := by
        simpa using heq
      obtain ⟨more, hlist, -⟩ := PostHs.encodeAll_prefix hmsgs
        (PostHs.fits_before_update hbefore) hwhole
      refine absurd ?_ (PostHs.keyUpdate_not_ticket requested tickets)
      rw [hlist]
      simp
    · have hrest : rest = [] := by
        by_contra hne
        refine htrails ⟨tickets, requested, PostHs.encodeAll rest, ?_, ?_, by simp⟩
        · intro body hbody
          exact hmsgs (.ticket body) (by simp [hbody])
        · cases rest with
          | nil => exact absurd rfl hne
          | cons m rest =>
              have hpos := m.encode_length_pos
              intro hnil
              rw [PostHs.encodeAll_cons] at hnil
              rw [(List.append_eq_nil_iff.1 hnil).1] at hpos
              exact absurd hpos (by decide)
      subst hrest
      rw [PostHs.handleAll_tickets, PostHs.handleAll, Proc.runs_seq] at hall
      obtain ⟨⟨ret, s₁⟩, tr₁, tr₂, rfl, hone, hdone⟩ := hall
      cases ret with
      | error e =>
          obtain ⟨-, heq⟩ := hdone
          cases heq
      | ok u =>
          obtain ⟨rfl, heq⟩ := hdone
          cases heq
          obtain ⟨hkeys, hsends⟩ := handle_keyUpdate hone
          refine ⟨?_, .inr hkeys, by rw [List.append_nil]; exact hsends⟩
          intro before requested' after hbefore heq
          have hwhole : PostHs.encodeAll (tickets.map .ticket ++ [.keyUpdate requested])
              = PostHs.encodeAll (before ++ [.keyUpdate requested']) ++ after := by
            simpa using heq
          obtain ⟨more, hlist, rfl⟩ := PostHs.encodeAll_prefix hmsgs
            (PostHs.fits_before_update hbefore) hwhole
          -- what comes before the last message are tickets
          rcases List.eq_nil_or_concat more with rfl | ⟨more, m, rfl⟩
          · rfl
          · refine absurd ?_ (PostHs.keyUpdate_not_ticket requested' tickets)
            have hinit := congrArg List.dropLast hlist
            rw [List.dropLast_concat, List.concat_eq_append, ← List.append_assoc,
              List.dropLast_concat] at hinit
            rw [hinit]
            simp

namespace Sample

theorem oneUpdate_isSome :
    (play (sessionPosths platform session [24, 0, 0, 1, 0]) [] false).isSome = true := by
  decide +kernel

theorem twoUpdates_isSome :
    (play (sessionPosths platform session [24, 0, 0, 1, 0, 24, 0, 0, 1, 0]) []
      false).isSome = true := by
  decide +kernel

end Sample

seal Proc.Runs in
theorem key_update_last_sample :
    ∃ tr s', AlignedRecord Sample.platform Sample.session [24, 0, 0, 1, 0] tr s' := by
  refine ⟨_, _, (key_update_last (by decide) (by decide)
    (Sample.play_runs_ret Sample.oneUpdate_isSome (by decide +kernel))).2 ?_⟩
  rintro ⟨tickets, requested, after, -, hne, heq⟩
  have hlen := congrArg List.length heq
  have hpos : 0 < after.length := List.length_pos_iff.2 hne
  simp [PostHs.encode, keyUpdateMsg] at hlen
  omega

/-- Two KeyUpdates in one record are both accepted, and the second is read after the
first has changed the keys. -/
theorem key_update_not_last :
    ¬ ∀ (P : Platform) (s s' : Session) (content : Bytes) (tr : List (Act Ev)),
      s.established = true → content.length ≤ maxPlaintext + 256 →
      (sessionPosths P s content).Runs tr (.ok (), s') → AlignedRecord P s content tr s' := by
  intro h
  have hboth := h _ _ _ _ _ (by decide) (by decide)
    (Sample.play_runs_ret Sample.twoUpdates_isSome (by decide +kernel))
  have hnil := hboth.last [] false [24, 0, 0, 1, 0] (by simp) rfl
  cases hnil

end WolfNano
