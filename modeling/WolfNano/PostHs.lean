/-
Post-handshake messages as values.  On a record that holds whole messages
`wn_session_posths` handles one after the other, whatever their number.
-/
import WolfNano.SessionRuns

namespace WolfNano

open Duplex

/-- A post-handshake message the session knows. -/
inductive PostHs where
  | ticket (body : Bytes)
  | keyUpdate (requested : Bool)
  deriving DecidableEq

namespace PostHs

def encode : PostHs → Bytes
  | ticket body => 4 :: (u24 body.length ++ body)
  | keyUpdate requested => keyUpdateMsg (if requested then 1 else 0)

/-- The length field has 24 bits. -/
def Fits : PostHs → Prop
  | ticket body => body.length < 2 ^ 24
  | keyUpdate _ => True

instance : DecidablePred Fits := fun m =>
  match m with
  | ticket body => inferInstanceAs (Decidable (body.length < 2 ^ 24))
  | keyUpdate _ => inferInstanceAs (Decidable True)

/-- The contents of a record. -/
def encodeAll (msgs : List PostHs) : Bytes := msgs.flatMap encode

@[simp] theorem encodeAll_nil : encodeAll [] = [] := rfl

@[simp] theorem encodeAll_cons (m : PostHs) (msgs : List PostHs) :
    encodeAll (m :: msgs) = m.encode ++ encodeAll msgs := rfl

@[simp] theorem encodeAll_append (msgs msgs' : List PostHs) :
    encodeAll (msgs ++ msgs') = encodeAll msgs ++ encodeAll msgs' := by
  simp [encodeAll]

theorem encode_length_pos (m : PostHs) : 0 < m.encode.length := by
  cases m <;> simp [encode, keyUpdateMsg]

variable (P : Platform)

/-- What the session does on one message. -/
def handle (s : Session) : PostHs → Proc Ev (Ret × Session)
  | ticket _ => pure (.ok (), s)
  | keyUpdate requested =>
      match tls13KeyUpdate P s.readKeys s.digest with
      | (.error e, t) => pure (.error e, s.setReadKeys t)
      | (.ok (), t) =>
          let s := { s.setReadKeys t with sSeq := 0 }
          if requested then sendKeyUpdate P s else pure (.ok (), s)

/-- Message after message, up to the first error. -/
def handleAll : Session → List PostHs → Proc Ev (Ret × Session)
  | s, [] => pure (.ok (), s)
  | s, m :: msgs => do
      match ← handle P s m with
      | (.error e, s) => pure (.error e, s)
      | (.ok (), s) => handleAll s msgs

variable {P}

theorem handleAll_singleton (s : Session) (m : PostHs) : handleAll P s [m] = handle P s m := by
  rw [handleAll]
  refine Eq.trans ?_ (Proc.bind_done (handle P s m))
  refine congrArg (Proc.bind _) (funext fun x => ?_)
  obtain ⟨e | u, s₁⟩ := x
  · rfl
  · rfl

theorem posthsMsg_here {s : Session} {m : PostHs} {pre rest : Bytes} (hm : m.Fits)
    (hlen : (pre ++ m.encode).length < 2 ^ 32) :
    posthsMsg P s (.here pre (m.encode ++ rest)) =
      (handle P s m >>= fun x =>
        pure (x.1.map fun _ => .here (pre ++ m.encode) rest, x.2)) := by
  rw [List.length_append] at hlen
  cases m with
  | ticket body =>
      have hbody : body.length < 2 ^ 24 := hm
      simp only [encode, List.length_cons, List.length_append, u24_length] at hlen
      have htype := Reader.here_u8 pre (u24 body.length ++ body ++ rest) 4
      have hlength := @Reader.here_u24 (pre ++ [4]) (body ++ rest) body.length hbody
        (by simp only [List.length_append, List.length_singleton]; omega)
      have hskip := @Reader.here_bytes (pre ++ [4] ++ u24 body.length) body rest
        (by simp only [List.length_append, List.length_singleton, u24_length]; omega)
      simp only [List.append_assoc, List.cons_append, List.nil_append] at htype hlength hskip
      simp only [posthsMsg, encode, handle, List.cons_append, List.append_assoc, htype,
        hlength, hskip]
      rfl
  | keyUpdate requested =>
      have hreq : ∀ b : UInt8, (keyUpdateMsg b).length = 5 := fun _ => rfl
      simp only [encode, hreq] at hlen
      generalize hb : (if requested = true then (1 : UInt8) else 0) = b
      have htype := Reader.here_u8 pre (u24 1 ++ ([b] ++ rest)) 24
      have hlength := @Reader.here_u24 (pre ++ [24]) ([b] ++ rest) 1 (by decide)
        (by simp only [List.length_append, List.length_singleton]; omega)
      have hbyte := Reader.here_u8 (pre ++ [24] ++ u24 1) rest b
      have hmsg : keyUpdateMsg b = 24 :: (u24 1 ++ [b]) := rfl
      simp only [List.append_assoc, List.cons_append, List.nil_append] at htype hlength hbyte
      simp only [posthsMsg, encode, handle, hb, hmsg, List.cons_append, List.append_assoc,
        List.nil_append, htype, hlength, hbyte]
      have hle : ¬ (b.toNat > kuRequested) := by
        cases requested <;> subst hb <;> decide
      have hreq : (b.toNat = kuRequested) ↔ requested = true := by
        cases requested <;> subst hb <;> decide
      have hbad : ¬ ((Reader.here (pre ++ 24 :: (u24 1 ++ [b])) rest).err = true ∨
          1 ≠ 1 ∨ b.toNat > kuRequested) := by
        simp [hle]
      rw [if_neg (show ¬ UInt8.toNat 24 = hsNewSessionTicket by decide),
        if_pos (show UInt8.toNat 24 = hsKeyUpdate by decide), if_neg hbad]
      rcases tls13KeyUpdate P s.readKeys s.digest with ⟨e | u, t⟩
      · rfl
      · simp only [hreq]
        by_cases hrequested : requested = true
        · rw [if_pos hrequested, if_pos hrequested]
          change Proc.bind _ _ = Proc.bind _ _
          congr 1
          funext x
          obtain ⟨ret, s₁⟩ := x
          cases ret <;> rfl
        · rw [if_neg hrequested, if_neg hrequested]
          rfl

theorem posthsLoop_here {fuel : Nat} {s : Session} {msgs : List PostHs} {pre : Bytes}
    (hmsgs : ∀ m ∈ msgs, m.Fits) (hlen : (pre ++ encodeAll msgs).length < 2 ^ 32)
    (hfuel : (encodeAll msgs).length < fuel) :
    posthsLoop P fuel s (.here pre (encodeAll msgs)) = handleAll P s msgs := by
  induction msgs generalizing fuel s pre with
  | nil =>
      obtain ⟨fuel, rfl⟩ := Nat.exists_eq_succ_of_ne_zero (Nat.ne_of_gt hfuel)
      simp [posthsLoop, handleAll, Reader.here]
  | cons m msgs ih =>
      obtain ⟨fuel, rfl⟩ := Nat.exists_eq_succ_of_ne_zero (Nat.ne_zero_of_lt hfuel)
      have hpos := encode_length_pos m
      have hmore : (Reader.here pre (encodeAll (m :: msgs))).pos
          < (Reader.here pre (encodeAll (m :: msgs))).buf.length := by
        simp only [Reader.here, encodeAll_cons, List.length_append]
        omega
      simp only [encodeAll_cons, List.length_append] at hlen hfuel
      have hone := @posthsMsg_here P s m pre (encodeAll msgs)
        (hmsgs m (List.mem_cons_self ..)) (by rw [List.length_append]; omega)
      rw [posthsLoop, if_pos hmore, encodeAll_cons, hone, handleAll]
      change Proc.bind (Proc.bind _ _) _ = Proc.bind _ _
      rw [Proc.bind_assoc]
      congr 1
      funext x
      obtain ⟨ret, s₁⟩ := x
      cases ret with
      | error e => rfl
      | ok u =>
          have hrest := @ih fuel s₁ (pre ++ m.encode)
            (fun m' hm' => hmsgs m' (List.mem_cons_of_mem _ hm'))
            (by simp only [List.length_append]; omega) (by omega)
          exact hrest

/-- On whole messages the record is handled message by message. -/
theorem sessionPosths_encodeAll {s : Session} {msgs : List PostHs}
    (hmsgs : ∀ m ∈ msgs, m.Fits) (hlen : (encodeAll msgs).length < 2 ^ 32) :
    sessionPosths P s (encodeAll msgs) = handleAll P s msgs := by
  rw [sessionPosths, Reader.init_eq_here]
  exact posthsLoop_here hmsgs hlen (Nat.lt_succ_self _)

/-- Tickets are skipped. -/
theorem handleAll_tickets {s : Session} (tickets : List Bytes) (msgs : List PostHs) :
    handleAll P s (tickets.map .ticket ++ msgs) = handleAll P s msgs := by
  induction tickets with
  | nil => rfl
  | cons body tickets ih => exact ih

/-- Whole messages only fail for want of the provider or the transport. -/
theorem handle_error {s s' : Session} {m : PostHs} {tr : List (Act Ev)} {e : Err}
    (h : (handle P s m).Runs tr (.error e, s')) : e = .crypto ∨ e = .invalidArg := by
  cases m with
  | ticket body =>
      obtain ⟨-, heq⟩ := h
      cases heq
  | keyUpdate requested =>
      rw [handle] at h
      split at h
      · rename_i hupd
        obtain ⟨-, heq⟩ := h
        cases heq
        exact (tls13KeyUpdate_error hupd).1
      · dsimp only at h
        split at h
        · rcases sendKeyUpdate_runs h with ⟨-, -, heq, -⟩ |
            ⟨rec, -, ⟨r, -, -, heq, -⟩ | ⟨t, -, hrot⟩⟩
          · cases heq
            exact .inl rfl
          · cases heq
            exact .inl rfl
          · rcases rotateWrite_runs hrot with ⟨_, -, heq, -⟩ | ⟨_, _, hupd, heq, -⟩
            · cases heq
            · cases heq
              exact (tls13KeyUpdate_error hupd).1
        · obtain ⟨-, heq⟩ := h
          cases heq

theorem handleAll_error {s s' : Session} {msgs : List PostHs} {tr : List (Act Ev)}
    {e : Err} (h : (handleAll P s msgs).Runs tr (.error e, s')) :
    e = .crypto ∨ e = .invalidArg := by
  induction msgs generalizing s tr with
  | nil =>
      obtain ⟨-, heq⟩ := h
      cases heq
  | cons m msgs ih =>
      rw [handleAll, Proc.runs_seq] at h
      obtain ⟨⟨ret, s₁⟩, tr₁, tr₂, -, hone, hrest⟩ := h
      cases ret with
      | error e' =>
          obtain ⟨-, heq⟩ := hrest
          cases heq
          exact handle_error hone
      | ok u => exact ih hrest

end PostHs

end WolfNano
