/-
The end of the encrypted flight: a client that succeeds has read the messages of the
flight in their order, and whatever came after Finished in the last record it did not
look at.
-/
import WolfNano.Quiet
import WolfNano.Padding
import WolfNano.Reading

namespace WolfNano

open Duplex

/-! ### Handshake messages -/

/-- A whole handshake message. -/
def IsHsMsg (m : Bytes) : Prop := 4 ≤ m.length ∧ m.length = 4 + hsBodyLen (m.take 4)

def hsType (m : Bytes) : UInt8 := m.getD 0 0

/-- Exactly the messages of these types, one after the other. -/
def FlightOf (types : List UInt8) (b : Bytes) : Prop :=
  ∃ msgs : List Bytes, b = msgs.flatten ∧ (∀ m ∈ msgs, IsHsMsg m) ∧ msgs.map hsType = types

/-- Such a flight and something after it. -/
def TrailsFlight (types : List UInt8) (b : Bytes) : Prop :=
  ∃ flight more, b = flight ++ more ∧ more ≠ [] ∧ FlightOf types flight

/-- The header tells where a message ends. -/
theorem IsHsMsg.prefix_free {m m' r r' : Bytes} (hm : IsHsMsg m) (hm' : IsHsMsg m')
    (h : m ++ r = m' ++ r') : m = m' ∧ r = r' := by
  have hhdr : m.take 4 = m'.take 4 := by
    have htake := congrArg (List.take 4) h
    rwa [List.take_append_of_le_length hm.1, List.take_append_of_le_length hm'.1] at htake
  have hlen : m.length = m'.length := by
    rw [hm.2, hm'.2, hhdr]
  exact List.append_inj h hlen

theorem flatten_prefix_free {msgs msgs' : List Bytes} {r : Bytes}
    (hmsgs : ∀ m ∈ msgs, IsHsMsg m) (hmsgs' : ∀ m ∈ msgs', IsHsMsg m)
    (hcount : msgs.length = msgs'.length) (h : msgs.flatten = msgs'.flatten ++ r) : r = [] := by
  induction msgs generalizing msgs' with
  | nil =>
      cases msgs' with
      | nil => exact h.symm
      | cons m' msgs' => cases hcount
  | cons m msgs ih =>
      cases msgs' with
      | nil => cases hcount
      | cons m' msgs' =>
          rw [List.flatten_cons, List.flatten_cons, List.append_assoc] at h
          obtain ⟨-, hrest⟩ := (hmsgs m List.mem_cons_self).prefix_free
            (hmsgs' m' List.mem_cons_self) h
          exact ih (fun x hx => hmsgs x (List.mem_cons_of_mem _ hx))
            (fun x hx => hmsgs' x (List.mem_cons_of_mem _ hx)) (Nat.succ.inj hcount) hrest

/-- A flight is not the start of a longer one with the same types. -/
theorem FlightOf.nothing_after {types : List UInt8} {b more : Bytes} (h : FlightOf types b)
    (hlong : FlightOf types (b ++ more)) : more = [] := by
  obtain ⟨msgs, rfl, hmsgs, htypes⟩ := h
  obtain ⟨msgs', heq, hmsgs', htypes'⟩ := hlong
  have hcount : msgs'.length = msgs.length := by
    rw [← List.length_map hsType, htypes', ← htypes, List.length_map]
  exact flatten_prefix_free hmsgs' hmsgs hcount heq.symm

/-- Where the bytes start with the flight, they are the flight if nothing follows it. -/
theorem flightOf_iff {types : List UInt8} {b rest : Bytes}
    (h : ∃ flight, b = flight ++ rest ∧ FlightOf types flight) :
    FlightOf types b ↔ ¬ TrailsFlight types b := by
  obtain ⟨flight, rfl, hflight⟩ := h
  constructor
  · rintro hall ⟨flight', more, heq, hne, hflight'⟩
    rw [heq] at hall
    exact hne (hflight'.nothing_after hall)
  · intro htrails
    have hrest : rest = [] := by
      by_contra hne
      exact htrails ⟨flight, rest, rfl, hne, hflight⟩
    rwa [hrest, List.append_nil]

theorem pulled_isHsMsg {p : Bytes} {n : Nat} (hsize : n = 4 + hsBodyLen (p.take 4))
    (hle : n ≤ p.length) : IsHsMsg (p.take n) := by
  have hlen : (p.take n).length = n := List.length_take_of_le hle
  refine ⟨by omega, ?_⟩
  rw [hlen, List.take_take, Nat.min_eq_left (by omega)]
  exact hsize

/-! ### The order of the PSK flight -/

def pskTypes : List UInt8 := [hsEncryptedExt, hsFinished]

/-- The types the PSK client still expects. -/
def PskParse.expected (s : PskParse) : List UInt8 := if s.gotEE then [hsFinished] else pskTypes

section Psk

variable {P : Platform} {sHs : Bytes}

theorem pskStep_expected {s s' : PskParse} {msg : Bytes} {last : Bool}
    (h : pskStep P sHs s msg = .ok (s', last)) :
    s.expected = hsType msg :: if last then [] else s'.expected := by
  unfold pskStep pskFlightMsg at h
  dsimp only at h
  unfold PskParse.expected hsType
  by_cases hee : msg.getD 0 0 = hsEncryptedExt
  · rw [if_pos hee] at h
    simp only [except_map_bind, except_bind_eq_ok, failIf_eq_ok] at h
    obtain ⟨_, hgot, _, -, tc, -, heq⟩ := h
    cases heq
    rw [hee, if_neg hgot]
    rfl
  · rw [if_neg hee] at h
    by_cases hfin : msg.getD 0 0 = hsFinished
    · rw [if_pos hfin] at h
      simp only [except_map_bind, except_bind_eq_ok, failIf_eq_ok] at h
      obtain ⟨_, hgot, _, -, _, -, _, -, tc, -, heq⟩ := h
      cases heq
      have hgot' : s.gotEE = true := by
        simpa using (not_or.1 hgot).1
      rw [hfin, if_pos hgot']
      rfl
    · rw [if_neg hfin] at h
      cases h

end Psk

/-! ### The order of the certificate flight -/

def certTypes : List UInt8 := [hsEncryptedExt, hsCertificate, hsCertVerify, hsFinished]

/-- Each flag is set after the one before it. -/
structure FlightSeen.InOrder (seen : FlightSeen) : Prop where
  cert : seen.gotCert = true → seen.gotEE = true
  cv : seen.gotCv = true → seen.gotCert = true

/-- The types `wn_FlightOrder` still lets through. -/
def FlightSeen.expected (seen : FlightSeen) : List UInt8 :=
  if seen.gotCv then [hsFinished]
  else if seen.gotCert then [hsCertVerify, hsFinished]
  else if seen.gotEE then [hsCertificate, hsCertVerify, hsFinished]
  else certTypes

theorem flightOrder_expected {mType : UInt8} {seen seen' : FlightSeen} (hseen : seen.InOrder)
    (h : flightOrder mType seen = .ok seen') :
    seen'.InOrder ∧
      seen.expected = mType :: if mType = hsFinished then [] else seen'.expected := by
  obtain ⟨gotEE, gotCert, gotCv⟩ := seen
  obtain ⟨hcert, hcv⟩ := hseen
  unfold flightOrder at h
  by_cases hee : mType = hsEncryptedExt
  · subst hee
    cases gotEE with
    | true => cases h
    | false =>
        cases h
        cases gotCert with
        | true => cases hcert rfl
        | false =>
            cases gotCv with
            | true => cases hcv rfl
            | false => exact ⟨⟨fun h => (nomatch h), fun h => (nomatch h)⟩, rfl⟩
  · rw [if_neg hee] at h
    by_cases hreq : mType = hsCertRequest
    · rw [if_pos hreq] at h
      cases h
    · rw [if_neg hreq] at h
      by_cases hc : mType = hsCertificate
      · subst hc
        cases gotEE with
        | false => cases h
        | true =>
            cases gotCert with
            | true => cases h
            | false =>
                cases h
                cases gotCv with
                | true => cases hcv rfl
                | false => exact ⟨⟨fun _ => rfl, fun h => nomatch h⟩, rfl⟩
      · rw [if_neg hc] at h
        by_cases hv : mType = hsCertVerify
        · subst hv
          cases gotCert with
          | false => cases h
          | true =>
              cases gotCv with
              | true => cases h
              | false =>
                  cases h
                  exact ⟨⟨hcert, fun _ => rfl⟩, rfl⟩
        · rw [if_neg hv] at h
          by_cases hf : mType = hsFinished
          · subst hf
            cases gotCv with
            | false => cases h
            | true =>
                cases h
                exact ⟨⟨hcert, hcv⟩, rfl⟩
          · rw [if_neg hf] at h
            cases h

section Cert

variable {P : Platform} {X : X509Backend} {args : CertArgs} {sHs : Bytes}

theorem certFlightBody_seen {st st' : CertFlight} {seen : FlightSeen} {msg : Bytes} {last : Bool}
    (h : certFlightBody P X args sHs st seen msg = .ok (st', last)) :
    st'.seen = seen ∧ (last = true ↔ hsType msg = hsFinished) := by
  unfold certFlightBody at h
  simp only [except_bind_eq_ok] at h
  obtain ⟨_, -, _, -, h⟩ := h
  unfold hsType
  by_cases hcert : msg.getD 0 0 = hsCertificate
  · rw [if_pos hcert] at h
    unfold certFlightCertificate at h
    simp only [except_bind_eq_ok] at h
    obtain ⟨st₁, ⟨_, -, _, -, heq'⟩, heq⟩ := h
    cases heq'
    cases heq
    rw [hcert]
    exact ⟨rfl, by decide⟩
  · rw [if_neg hcert] at h
    by_cases hverify : msg.getD 0 0 = hsCertVerify
    · rw [if_pos hverify] at h
      obtain ⟨_, -, heq⟩ := except_bind_eq_ok.1 h
      cases heq
      rw [hverify]
      exact ⟨rfl, by decide⟩
    · rw [if_neg hverify] at h
      by_cases hfin : msg.getD 0 0 = hsFinished
      · rw [if_pos hfin] at h
        obtain ⟨_, -, heq⟩ := except_bind_eq_ok.1 h
        cases heq
        exact ⟨rfl, fun _ => hfin, fun _ => rfl⟩
      · rw [if_neg hfin] at h
        cases h
        refine ⟨rfl, fun hlast => absurd hlast Bool.false_ne_true, fun h => absurd h hfin⟩

theorem certStep_expected {s s' : CertParse} {msg : Bytes} {last : Bool}
    (hseen : s.seen.InOrder) (h : certStep P X args sHs s msg = .ok (s', last)) :
    s'.seen.InOrder ∧
      s.seen.expected = hsType msg :: if last then [] else s'.seen.expected := by
  unfold certStep at h
  rw [certFlightMsg_body] at h
  simp only [except_map_bind, except_bind_eq_ok] at h
  obtain ⟨seen, horder, _, -, h⟩ := h
  obtain ⟨hinOrder, hexpected⟩ := flightOrder_expected hseen horder
  cases hbody : certFlightBody P X args sHs ⟨[], s.off, 0, s.seen, s.tc, s.spki⟩ seen msg with
  | error e =>
      rw [hbody] at h
      cases h
  | ok x =>
      obtain ⟨st', last'⟩ := x
      rw [hbody] at h
      cases h
      obtain ⟨hst, hlast⟩ := certFlightBody_seen hbody
      change st'.seen.InOrder ∧ _ = _ :: if last' then [] else st'.seen.expected
      rw [hst]
      refine ⟨hinOrder, hexpected.trans ?_⟩
      by_cases hfin : msg.getD 0 0 = hsFinished
      · rw [if_pos hfin, if_pos (hlast.2 hfin)]
        rfl
      · rw [if_neg hfin, if_neg fun h => hfin (hlast.1 h)]
        rfl

end Cert

/-! ### What a successful client has read -/

/-- The program opens no record. -/
abbrev OpensNothing (P : Platform) {α : Type} (p : Shell α) : Prop :=
  Prog.Notes (fun e => e.content? P = none) p

section Runs

variable {P : Platform} {X : X509Backend} {fuel : Nat} {rng : P.Rng} {sess s : Session}
  {tr : List (Act Ev)} {keys : HsKeys} {tc : Transcript}

theorem openedContents_of_notes (h : ∀ e ∈ notes tr, e.content? P = none) :
    openedContents P tr = [] := by
  unfold openedContents
  exact List.filterMap_eq_nil_iff.2 h

theorem OpensNothing.contents {α : Type} {p : Shell α} {a : α} (hp : OpensNothing P p)
    (h : Prog.Ok p tr a) : openedContents P tr = [] :=
  openedContents_of_notes (h.notes hp)

-- the hello would be evaluated otherwise
seal pskClientHello in
theorem connectPskHello_opens {args : PskArgs} :
    OpensNothing P (connectPskHello P fuel rng args) := by
  refine .bind .lift fun st => .bind .lift fun hello => .bind .lift fun tc => ?_
  refine .bind sendPlainRecord_notes fun _ => .bind sendPlainRecord_notes fun _ => ?_
  refine .bind recvServerHello_notes fun shared => .bind .lift fun th => ?_
  exact .bind .lift fun keys => .bind (.note rfl) fun _ => .pure

theorem connectCertHello_opens {args : CertArgs} :
    OpensNothing P (connectCertHello P fuel rng args) := by
  refine .bind .lift fun st => .bind .lift fun hello => .bind .lift fun tc => ?_
  refine .bind sendPlainRecord_notes fun _ => .bind sendPlainRecord_notes fun _ => ?_
  refine .bind recvServerHello_notes fun shared => .bind .lift fun th => .bind .lift fun early => ?_
  exact .bind .lift fun keys => .bind (.note rfl) fun _ => .pure

theorem sendClientFinished_opens {cap : Nat} {mac : Bytes} :
    OpensNothing P (sendClientFinished P cap keys mac) :=
  .bind (.bind .failIf fun _ => .bind (.note rfl) fun _ => .orFail) fun _ =>
    sendRecord_notes

theorem connectPskFinished_opens {args : PskArgs} {emptyHash : Bytes} :
    OpensNothing P (connectPskFinished P args keys emptyHash tc) :=
  .bind .lift fun _ => .bind .lift fun _ => .bind sendClientFinished_opens fun _ => .pure

theorem establishClient_opens {emptyHash th : Bytes} {scratchLen : Nat} {x : Ret × Session}
    (h : (establishClient P keys emptyHash th scratchLen).Runs tr x) :
    openedContents P tr = [] := by
  unfold establishClient at h
  split at h
  · obtain ⟨rfl, -⟩ := h
    rfl
  · obtain ⟨_, _, _, rfl, hemit, rfl, -⟩ := Proc.runs_seq.1 h
    rw [Proc.runs_emit.1 hemit]
    rfl

theorem pskFlight_reads {scratchLen : Nat} {st : PskFlight}
    (h : Prog.Ok (pskFlight P scratchLen keys fuel ⟨[], 0, 0, false, tc⟩) tr st) :
    ∃ flight rest, (openedContents P tr).flatten = flight ++ rest ∧ FlightOf pskTypes flight := by
  have hgood : (pskLoop P keys scratchLen).Good ⟨[], 0, 0, false, tc⟩ := Nat.le_refl 0
  obtain ⟨rest, houtcome⟩ := FlightLoop.ok_outcome hgood
    ((pskReassembly P keys.sHs).empty _) h
  have hreads := Reassembly.outcome_reads houtcome
  obtain ⟨msgs, hbytes, hmsgs, htypes⟩ := hreads.labels hsType PskParse.expected
    (fun _ => True) IsHsMsg (by
      intro s p n s' last _ hpull
      obtain ⟨hhdr, hsize, -, hle, hstep⟩ := pskPull_msg.1 hpull
      exact ⟨pulled_isHsMsg hsize hle, trivial, pskStep_expected hstep⟩) trivial
  exact ⟨msgs.flatten, rest, hbytes, msgs, rfl, hmsgs, htypes⟩

theorem certFlight_reads {args : CertArgs} {st : CertFlight}
    (h : Prog.Ok (certFlight P X args keys fuel ⟨[], 0, 0, {}, tc, []⟩) tr st) :
    ∃ flight rest, (openedContents P tr).flatten = flight ++ rest ∧
      FlightOf certTypes flight := by
  have hgood : (certLoop P keys X args).Good ⟨[], 0, 0, {}, tc, []⟩ := Nat.le_refl 0
  have hinOrder : (({} : FlightSeen)).InOrder := ⟨fun h => (nomatch h), fun h => (nomatch h)⟩
  obtain ⟨rest, houtcome⟩ := FlightLoop.ok_outcome hgood
    ((certReassembly P X args keys.sHs).empty _) h
  have hreads := Reassembly.outcome_reads houtcome
  obtain ⟨msgs, hbytes, hmsgs, htypes⟩ := hreads.labels hsType (fun s => s.seen.expected)
    (fun s => s.seen.InOrder) IsHsMsg (by
      intro s p n s' last hs hpull
      obtain ⟨hhdr, hsize, hle, hstep⟩ := certPull_msg.1 hpull
      obtain ⟨hs', hexpected⟩ := certStep_expected hs hstep
      exact ⟨pulled_isHsMsg hsize hle, hs', hexpected⟩) hinOrder
  exact ⟨msgs.flatten, rest, hbytes, msgs, rfl, hmsgs, htypes⟩

/-- A PSK client that succeeds opened a flight, and something after it perhaps. -/
theorem connectPskEx_reads {args : PskArgs}
    (h : (connectPskEx P fuel rng args sess).Runs tr (.ok (), s)) :
    ∃ flight rest, (openedContents P tr).flatten = flight ++ rest ∧ FlightOf pskTypes flight := by
  unfold connectPskEx at h
  by_cases hok : args.connectOk = false
  · rw [if_pos hok] at h
    cases h.2
  · rw [if_neg hok] at h
    rcases Prog.runs_run_bind.1 h with ⟨e, _, _, -, -, hend⟩ |
      ⟨⟨keys, emptyHash, th⟩, t, u, rfl, hbody, hend⟩
    · cases hend.2
    · rw [connectPskBody_eq] at hbody
      simp only [Prog.ok_bind] at hbody
      obtain ⟨⟨keys', emptyHash', tc⟩, t₁, _, rfl, hhello, flight, t₂, t₃, rfl, hflight,
        hfinished⟩ := hbody
      obtain ⟨msgs, rest, hbytes, hmsgs⟩ := pskFlight_reads hflight
      refine ⟨msgs, rest, ?_, hmsgs⟩
      simp only [openedContents_append, connectPskHello_opens.contents hhello,
        connectPskFinished_opens.contents hfinished, establishClient_opens hend,
        List.nil_append, List.append_nil]
      exact hbytes

/-- A certificate client that succeeds opened a flight, and something after it perhaps. -/
theorem connectCertImpl_reads {args : CertArgs}
    (h : (connectCertImpl P X fuel rng args sess).Runs tr (.ok (), s)) :
    ∃ flight rest, (openedContents P tr).flatten = flight ++ rest ∧
      FlightOf certTypes flight := by
  unfold connectCertImpl at h
  by_cases hok : args.connectOk P.build = false
  · rw [if_pos hok] at h
    cases h.2
  · rw [if_neg hok] at h
    rcases Prog.runs_run_bind.1 h with ⟨e, _, _, -, -, hend⟩ |
      ⟨⟨keys, emptyHash, tc⟩, t₁, _, rfl, hhello, h⟩
    · cases hend.2
    · rcases Prog.runs_run_bind.1 h with ⟨e, _, _, -, -, hend⟩ |
        ⟨⟨th, mac⟩, t₂, _, rfl, hflight, h⟩
      · obtain ⟨_, _, _, -, -, hend⟩ := Proc.runs_seq.1 hend
        cases hend.2
      · rcases Prog.runs_run_bind.1 h with ⟨e, _, _, -, -, hend⟩ |
          ⟨_, t₃, _, rfl, hfinished, h⟩
        · obtain ⟨_, _, _, -, -, hend⟩ := Proc.runs_seq.1 hend
          cases hend.2
        · obtain ⟨⟨ret, sess'⟩, t₄, t₅, rfl, hest, hend⟩ := Proc.runs_seq.1 h
          cases ret with
          | error e =>
              obtain ⟨_, _, _, -, -, hend⟩ := Proc.runs_seq.1 hend
              cases hend.2
          | ok u =>
              obtain ⟨rfl, -⟩ := hend
              unfold connectCertFlight at hflight
              simp only [Prog.ok_bind, Prog.ok_lift, Prog.ok_pure] at hflight
              obtain ⟨flight, t, _, rfl, hflight, _, _, _, rfl, ⟨rfl, -⟩, _, _, _, rfl,
                ⟨rfl, -⟩, rfl, -⟩ := hflight
              obtain ⟨msgs, rest, hbytes, hmsgs⟩ := certFlight_reads hflight
              refine ⟨msgs, rest, ?_, hmsgs⟩
              simp only [openedContents_append, connectCertHello_opens.contents hhello,
                sendClientFinished_opens.contents hfinished, establishClient_opens hest,
                List.nil_append, List.append_nil]
              simpa [openedContents] using hbytes

end Runs

/-- The handshake bytes a successful client has opened are exactly its server flight, unless
something follows Finished in the record that ends it. -/
theorem flight_is_whole (P : Platform) (X : X509Backend) :
    (∀ {fuel : Nat} {rng : P.Rng} {args : PskArgs} {sess s : Session} {tr : List (Act Ev)},
      (connectPskEx P fuel rng args sess).Runs tr (.ok (), s) →
        (FlightOf pskTypes (openedContents P tr).flatten ↔
          ¬ TrailsFlight pskTypes (openedContents P tr).flatten)) ∧
    (∀ {fuel : Nat} {rng : P.Rng} {args : CertArgs} {sess s : Session} {tr : List (Act Ev)},
      (connectCertImpl P X fuel rng args sess).Runs tr (.ok (), s) →
        (FlightOf certTypes (openedContents P tr).flatten ↔
          ¬ TrailsFlight certTypes (openedContents P tr).flatten)) := by
  constructor
  · intro fuel rng args sess s tr h
    obtain ⟨flight, rest, hbytes, hflight⟩ := connectPskEx_reads h
    exact flightOf_iff ⟨flight, hbytes, hflight⟩
  · intro fuel rng args sess s tr h
    obtain ⟨flight, rest, hbytes, hflight⟩ := connectCertImpl_reads h
    exact flightOf_iff ⟨flight, hbytes, hflight⟩

namespace Sample

def trustingClient : Proc Ev (Ret × Session) :=
  connectCertImpl platform trusting 4 (7 : Nat) certArgs .zero

theorem trustingClient_plays :
    (play trustingClient certReply false).map (fun x => x.1.1) = some (.ok ()) := by
  decide +kernel

theorem trustingClient_isSome : (play trustingClient certReply false).isSome = true :=
  isSome_of_map trustingClient_plays

def trustingTrace : List (Act Ev) :=
  ((play trustingClient certReply false).get trustingClient_isSome).2.2

seal Proc.Runs in
theorem trustingClient_runs :
    trustingClient.Runs trustingTrace (.ok (), ((play trustingClient certReply false).get
      trustingClient_isSome).1.2) :=
  play_runs_ret trustingClient_isSome (get_of_map trustingClient_plays trustingClient_isSome)

/-- The flight with a byte after Finished. -/
def trailingReply : Bytes :=
  firstRecord pskReply ++ hsRecord pskStarted.1 0 (pskContent ++ [0]) 0

theorem trailingClient_plays : (play pskClient trailingReply false).map (fun x => (x.1.1,
    decide ((openedContents platform x.2.2).flatten = pskContent ++ [0]))) =
      some (.ok (), true) := by
  decide +kernel

theorem pskContent_flight : FlightOf pskTypes pskContent := by
  obtain ⟨hcontent, hee, hfin⟩ := contents_length.1
  have hlen : (pskContent.drop 6).length = 36 := by
    rw [List.length_drop, hcontent]
  have htype : hsType (pskContent.drop 6) = hsFinished := by
    have hhead : hsType ((pskContent.drop 6).take 4) = hsFinished := by
      rw [hfin]
      rfl
    rwa [hsType, List.getD_eq_getElem?_getD, List.getElem?_take_of_lt (by decide),
      ← List.getD_eq_getElem?_getD] at hhead
  refine ⟨[encExt, pskContent.drop 6], ?_, ?_, ?_⟩
  · rw [List.flatten_cons, List.flatten_singleton, ← hee, List.take_append_drop]
  · intro m hm
    rcases List.mem_cons.1 hm with rfl | hm
    · exact ⟨by decide, by decide⟩
    · rw [List.mem_singleton.1 hm]
      refine ⟨hlen ▸ (by decide), ?_⟩
      rw [hlen, hfin]
      rfl
  · rw [List.map_cons, List.map_cons, htype]
    rfl

end Sample

seal Proc.Runs in
theorem flight_is_whole_sample :
    (FlightOf pskTypes (openedContents Sample.platform Sample.clientTrace).flatten ↔
      ¬ TrailsFlight pskTypes (openedContents Sample.platform Sample.clientTrace).flatten) ∧
    (FlightOf certTypes (openedContents Sample.platform Sample.trustingTrace).flatten ↔
      ¬ TrailsFlight certTypes (openedContents Sample.platform Sample.trustingTrace).flatten) :=
  ⟨(flight_is_whole Sample.platform Sample.trusting).1 Sample.pskClient_runs,
    (flight_is_whole Sample.platform Sample.trusting).2 Sample.trustingClient_runs⟩

seal Proc.Runs in
/-- A byte after Finished in the same record is not noticed. -/
theorem flight_not_whole :
    ¬ ∀ (P : Platform) {fuel : Nat} {rng : P.Rng} {args : PskArgs} {sess s : Session}
      {tr : List (Act Ev)}, (connectPskEx P fuel rng args sess).Runs tr (.ok (), s) →
        FlightOf pskTypes (openedContents P tr).flatten := by
  intro hall
  obtain ⟨⟨⟨ret, s⟩, left, tr⟩, hruns, hshown⟩ := Sample.play_shows Sample.trailingClient_plays
  obtain ⟨rfl, hopened⟩ := Prod.mk.inj hshown
  have hwhole := hall Sample.platform hruns
  rw [of_decide_eq_true hopened] at hwhole
  cases Sample.pskContent_flight.nothing_after hwhole

end WolfNano
