/-
The rules of HelloRetryRequest, over every run of both servers.
-/
import WolfNano.HelloRetry
import WolfNano.Quiet

namespace WolfNano

open Duplex

/-! ### Runs -/

section Runs

variable {P : Platform} {fuel scratchLen : Nat} {rng : P.Rng} {tr : List (Act Ev)}

theorem readHello_ok {msg : Bytes} {ch : ClientHello}
    (h : Prog.Ok (readHello P fuel scratchLen) tr (msg, ch)) :
    HelloRead P scratchLen tr msg ch := by
  unfold readHello at h
  obtain ⟨msg', t, u, rfl, hread, h⟩ := Prog.ok_bind.1 h
  obtain ⟨ch', hparse, h⟩ := Prog.ok_lift_bind.1 h
  obtain ⟨rfl, heq⟩ := Prog.ok_pure.1 h
  cases heq
  rw [List.append_nil]
  exact helloRead_ok hread hparse

/-- A hello takes at least one record. -/
theorem readHello_reads {first : Bytes × ClientHello}
    (h : Prog.Ok (readHello P fuel scratchLen) tr first) : tr ≠ [] := by
  unfold readHello at h
  obtain ⟨msg', t, u, rfl, hread, -⟩ := Prog.ok_bind.1 h
  cases fuel with
  | zero => exact absurd hread Prog.ok_spin
  | succ fuel =>
      obtain ⟨r, s, v, rfl, hrec, -⟩ := Prog.ok_bind.1 hread
      obtain ⟨-, rfl⟩ := recvRecord_ok.1 hrec
      exact nofun

/-- How a server's run goes, by the hellos it got. -/
inductive Talk (P : Platform) (fuel scratchLen : Nat)
    (reply : Hello → Shell (Server.Greeting P)) :
    List (Act Ev) → Except Err (Server.Greeting P) → Prop
  | unread {t : List (Act Ev)} {e : Err}
      (failed : Prog.Fails (readHello P fuel scratchLen) t e) :
      Talk P fuel scratchLen reply t (.error e)
  | direct {t u : List (Act Ev)} {msg : Bytes} {ch : ClientHello}
      {r : Except Err (Server.Greeting P)}
      (read : Prog.Ok (readHello P fuel scratchLen) t (msg, ch)) (share : ch.haveKeyShare = true)
      (replied : (reply ⟨msg, ch, ⟨.sha256, []⟩, false⟩).run.Runs u r) :
      Talk P fuel scratchLen reply (t ++ u) r
  | unanswered {t u : List (Act Ev)} {msg : Bytes} {ch : ClientHello} {e : Err}
      (read : Prog.Ok (readHello P fuel scratchLen) t (msg, ch)) (none : ch.haveKeyShare = false)
      (failed : Prog.Fails (askForShare P fuel scratchLen ⟨.sha256, []⟩ msg ch) u e) :
      Talk P fuel scratchLen reply (t ++ u) (.error e)
  | ignored {t u : List (Act Ev)} {msg : Bytes} {ch : ClientHello}
      {last : Bytes × ClientHello × Transcript}
      (read : Prog.Ok (readHello P fuel scratchLen) t (msg, ch)) (none : ch.haveKeyShare = false)
      (asked : Prog.Ok (askForShare P fuel scratchLen ⟨.sha256, []⟩ msg ch) u last)
      (still : last.2.1.haveKeyShare = false) :
      Talk P fuel scratchLen reply (t ++ u) (.error .illegalParam)
  | retried {t u v : List (Act Ev)} {msg : Bytes} {ch : ClientHello}
      {last : Bytes × ClientHello × Transcript} {r : Except Err (Server.Greeting P)}
      (read : Prog.Ok (readHello P fuel scratchLen) t (msg, ch)) (none : ch.haveKeyShare = false)
      (asked : Prog.Ok (askForShare P fuel scratchLen ⟨.sha256, []⟩ msg ch) u last)
      (share : last.2.1.haveKeyShare = true)
      (replied : (reply ⟨last.1, last.2.1, last.2.2, true⟩).run.Runs v r) :
      Talk P fuel scratchLen reply (t ++ (u ++ v)) r

theorem acceptHello_talk {reply : Hello → Shell (Server.Greeting P)}
    {r : Except Err (Server.Greeting P)}
    (h : (acceptHello P fuel scratchLen ⟨.sha256, []⟩ >>= reply).run.Runs tr r) :
    Talk P fuel scratchLen reply tr r := by
  rw [acceptHello_eq] at h
  simp only [Prog.bind_assoc] at h
  rcases Prog.runs_bind_cases h with ⟨e, rfl, hfailed⟩ | ⟨⟨msg, ch⟩, t, u, rfl, hread, h⟩
  · exact .unread hfailed
  · cases hshare : ch.haveKeyShare with
    | true =>
        unfold acceptMaybeHrr at h
        simp only [hshare, if_true] at h
        exact .direct hread hshare h
    | false =>
        rw [acceptMaybeHrr_eq hshare] at h
        simp only [Prog.bind_assoc, hshare] at h
        rcases Prog.runs_bind_cases h with ⟨e, rfl, hfailed⟩ | ⟨last, v, w, rfl, hasked, h⟩
        · exact .unanswered hread hshare hfailed
        · rcases Prog.runs_bind_cases h with ⟨e, rfl, hfailed⟩ | ⟨_, s, w', rfl, hok, hreplied⟩
          · obtain ⟨rfl, hstill, rfl⟩ := Prog.fails_failIf.1 hfailed
            rw [List.append_nil]
            exact .ignored hread hshare hasked hstill
          · obtain ⟨rfl, hstill⟩ := Prog.ok_failIf.1 hok
            exact .retried hread hshare hasked (Bool.not_eq_false _ ▸ hstill) hreplied

theorem serverStart_random {tc : Transcript} {emptyHash random32 : Bytes} {rng' : P.Rng}
    (h : serverStart P rng = .ok (tc, emptyHash, random32, rng')) : random32.length = 32 := by
  unfold serverStart at h
  obtain ⟨_, -, h⟩ := except_bind_eq_ok.1 h
  obtain ⟨_, -, h⟩ := except_bind_eq_ok.1 h
  obtain ⟨x, hx, heq⟩ := except_bind_eq_ok.1 h
  cases heq
  exact P.rngBlock_length (orCrypto_eq_ok.1 hx)

/-- A server's run up to its key schedule: it stops before it reads, or talks to the client. -/
theorem Server.greet_talk {srv : Server} {r : Except Err (Server.Greeting P)}
    (h : (srv.greet P fuel rng).run.Runs tr r) :
    (tr = [] ∧ ∃ e, r = .error e) ∨
      ∃ (emptyHash random32 : Bytes) (rng' : P.Rng), random32.length = 32 ∧
        Talk P fuel srv.scratchLen (srv.reply P emptyHash random32 rng') tr r := by
  unfold Server.greet at h
  rcases Prog.runs_bind_cases h with ⟨e, rfl, hfailed⟩ |
    ⟨⟨tc, emptyHash, random32, rng'⟩, t, u, rfl, hstart, htalk⟩
  · exact .inl ⟨(Prog.fails_lift.1 hfailed).1, e, rfl⟩
  · obtain ⟨rfl, hstarted⟩ := Prog.ok_lift.1 hstart
    obtain ⟨rfl, -⟩ := serverStart_ok hstarted
    exact .inr ⟨emptyHash, random32, rng', serverStart_random hstarted, acceptHello_talk htalk⟩

/-- A server's run: its run up to the key schedule, and protected records only after it. -/
structure Goes (P : Platform) (fuel : Nat) (rng : P.Rng) (srv : Server) (tr : List (Act Ev))
    (ret : Ret) (a v : List (Act Ev)) (r : Except Err (Server.Greeting P)) : Prop where
  split : tr = a ++ v
  greets : (srv.greet P fuel rng).run.Runs a r
  stops : ∀ e, r = .error e → v = [] ∧ ret = .error e
  seals : ∀ b ∈ sends v, b.head? = some recAppdata

theorem Server.body_goes {srv : Server} {t v : List (Act Ev)} {ret : Ret}
    {y : Except Err (HsKeys × Bytes × Bytes)} (h : (srv.body P fuel rng).run.Runs t y)
    (hstops : ∀ e, y = .error e → v = [] ∧ ret = .error e) (hsilent : sends v = []) :
    ∃ a u r, Goes P fuel rng srv (t ++ v) ret a u r := by
  rw [Server.body_eq] at h
  rcases Prog.runs_bind_cases h with ⟨e, rfl, hfailed⟩ | ⟨g, a, u, rfl, hok, hrest⟩
  · obtain ⟨rfl, rfl⟩ := hstops e rfl
    refine ⟨t, [], .error e, rfl, hfailed, ?_, fun b hb => absurd hb List.not_mem_nil⟩
    rintro e' heq
    cases heq
    exact ⟨rfl, rfl⟩
  · refine ⟨a, u ++ v, .ok g, List.append_assoc .., hok, (fun e heq => nomatch heq), ?_⟩
    intro b hb
    rw [sends_append, hsilent, List.append_nil] at hb
    exact Server.afterGreeting_sends u y hrest b hb

theorem Server.accept_goes {srv : Server} {sess s : Session} {ret : Ret}
    (h : (srv.accept P fuel rng sess).Runs tr (ret, s)) :
    tr = [] ∨ ∃ a v r, Goes P fuel rng srv tr ret a v r := by
  cases srv with
  | psk args =>
      change (acceptPskEx P fuel rng args sess).Runs tr (ret, s) at h
      unfold acceptPskEx at h
      by_cases hok : args.acceptOk P.build = false
      · rw [if_pos hok] at h
        exact .inl h.1
      · rw [if_neg hok] at h
        refine .inr ?_
        rcases Prog.runs_run_bind.1 h with ⟨e, t, v, rfl, hbody, hend⟩ |
          ⟨⟨keys, emptyHash, th⟩, t, v, rfl, hbody, hend⟩
        · obtain ⟨rfl, heq⟩ := hend
          cases heq
          refine @Server.body_goes P fuel rng (.psk args) _ _ _ _ hbody ?_ rfl
          rintro e' heq
          cases heq
          exact ⟨rfl, rfl⟩
        · exact @Server.body_goes P fuel rng (.psk args) _ _ _ _ hbody
            (fun e heq => nomatch heq) (establishServer_sends hend)
  | cert args =>
      change (acceptCertEx P fuel rng args sess).Runs tr (ret, s) at h
      unfold acceptCertEx at h
      by_cases hok : args.acceptOk = false
      · rw [if_pos hok] at h
        exact .inl h.1
      · rw [if_neg hok] at h
        refine .inr ?_
        rcases Prog.runs_run_bind.1 h with ⟨e, t, v, rfl, hbody, hend⟩ |
          ⟨⟨keys, emptyHash, th⟩, t, v, rfl, hbody, hend⟩
        · obtain ⟨rfl, heq⟩ := hend
          cases heq
          refine @Server.body_goes P fuel rng (.cert args) _ _ _ _ hbody ?_ rfl
          rintro e' heq
          cases heq
          exact ⟨rfl, rfl⟩
        · exact @Server.body_goes P fuel rng (.cert args) _ _ _ _ hbody
            (fun e heq => nomatch heq) (establishServer_sends hend)

end Runs

/-! ### The rules -/

/-- The transport took every buffer whole. -/
def Taken (tr : List (Act Ev)) : Prop := ∀ b r, Act.sent b r ∈ tr → r = b.length

/-- No SHA-256 call fails. -/
structure Platform.HashOk (P : Platform) : Prop where
  update : ∀ fed msg, P.hashUpdate .sha256 fed msg = true
  hash : ∀ msg, (P.hash .sha256 msg).isSome = true

/-- What was sent and what was hashed when a server reaches its key schedule with the trace `t`:
ClientHello and ServerHello, or the four messages of a retry with the first ClientHello replaced by
its hash. -/
inductive Hashed (P : Platform) (scratchLen : Nat) : List (Act Ev) → Bytes → Prop
  | direct {t u : List (Act Ev)} {msg sh : Bytes} {ch : ClientHello}
      (read : HelloRead P scratchLen t msg ch) (share : ch.haveKeyShare = true)
      (serverHello : IsServerHello sh)
      (sent : sends (t ++ u) = [plainHeader recHandshake sh.length, sh] ++ ccsSends) :
      Hashed P scratchLen (t ++ u) (msg ++ sh)
  | retried {t u v w : List (Act Ev)} {first hash hrr msg sh : Bytes} {ch₁ ch : ClientHello}
      (read₁ : HelloRead P scratchLen t first ch₁) (none : ch₁.haveKeyShare = false)
      (hash_eq : P.hash .sha256 first = some hash)
      (retry : IsRetry P.build hrr)
      (echo : At hrr 38 (vec8 (helloBytes first ch₁.sessionId ch₁.sessionIdLen)))
      (parsed : ∃ out, serverHelloParse hrr = .ok out ∧ out.isHelloRetry = true)
      (read : HelloRead P scratchLen v msg ch) (share : ch.haveKeyShare = true)
      (serverHello : IsServerHello sh)
      (sent : sends (t ++ (u ++ (v ++ w))) =
        [plainHeader recHandshake hrr.length, hrr] ++ ccsSends ++
          [plainHeader recHandshake sh.length, sh]) :
      Hashed P scratchLen (t ++ (u ++ (v ++ w)))
        ([0xFE, 0, 0, 0x20] ++ hash ++ hrr ++ msg ++ sh)

/-- The rules, for a run of a server with the trace `tr` that returned `ret`. -/
structure RetryRules (P : Platform) (fuel : Nat) (rng : P.Rng) (srv : Server)
    (tr : List (Act Ev)) (ret : Ret) : Prop where
  /-- A retry is sent only when the first ClientHello parsed and has no share. -/
  sent_only : ∀ b ∈ sends tr, IsRetry P.build b → ∃ t u msg ch, tr = t ++ u ∧
    Prog.Ok (readHello P fuel srv.scratchLen) t (msg, ch) ∧ ch.haveKeyShare = false
  /-- And it is sent then, unless a hash call or the transport fails, which ends the run. -/
  sent_if : ∀ t u msg ch, tr = t ++ u →
    Prog.Ok (readHello P fuel srv.scratchLen) t (msg, ch) → ch.haveKeyShare = false →
      (∃ b ∈ sends tr, IsRetry P.build b) ∨ ret = .error .crypto ∧ ¬ (P.HashOk ∧ Taken tr)
  once : AtMostOne (IsRetry P.build) (sends tr)
  /-- Before a ServerHello is sent a ClientHello with a share has been read. -/
  share_first : ∀ t b r u, tr = t ++ .sent b r :: u → IsServerHello b →
    ∃ hello t₁ t₂, t = t₁ ++ t₂ ∧ Greeted P srv.scratchLen ⟨.sha256, []⟩ t₁ hello
  /-- A client that ignores the retry ends the run. -/
  ignored : ∀ t u v msg ch last, tr = t ++ (u ++ v) →
    Prog.Ok (readHello P fuel srv.scratchLen) t (msg, ch) → ch.haveKeyShare = false →
    Prog.Ok (askForShare P fuel srv.scratchLen ⟨.sha256, []⟩ msg ch) u last →
    last.2.1.haveKeyShare = false → v = [] ∧ ret = .error .illegalParam
  /-- A run with a write key has reached the key schedule. -/
  keyed : (∃ o ∈ notes tr, o.onWriteKey = true) →
    ∃ t u g, tr = t ++ u ∧ Prog.Ok (srv.greet P fuel rng) t g
  /-- What is hashed up to the key schedule; protected records only are sent after it. -/
  hashed : ∀ t u g, tr = t ++ u → Prog.Ok (srv.greet P fuel rng) t g →
    Hashed P srv.scratchLen t g.tc.fed ∧ ∀ b ∈ sends u, b.head? = some recAppdata

section Rules

variable {P : Platform} {fuel scratchLen : Nat} {rng : P.Rng} {tr : List (Act Ev)}

/-- The hello a server goes on with after a retry. -/
theorem askForShare_ok {tc : Transcript} {msg msg₂ : Bytes} {ch ch₂ : ClientHello}
    {tc₂ : Transcript}
    (h : Prog.Ok (askForShare P fuel scratchLen tc msg ch) tr (msg₂, ch₂, tc₂)) :
    ∃ hash hrr u v, tr = u ++ v ∧ sha256Hash P msg = .ok hash ∧
      helloRetryRequestBuild 128 (helloBytes msg ch.sessionId ch.sessionIdLen) ch.sessionIdLen
        ch.cipher P.build.group.id = .ok hrr ∧
      sends u = [plainHeader recHandshake hrr.length, hrr] ++ ccsSends ∧
      Prog.Ok (readHello P fuel scratchLen) v (msg₂, ch₂) ∧
      tc₂ = { tc with fed := tc.fed ++ messageHash hash ++ hrr } := by
  unfold askForShare at h
  simp only [Prog.ok_lift_bind] at h
  obtain ⟨hash, hhash, tc₁, htc₁, hrr, hhrr, tc₃, htc₃, h⟩ := h
  obtain ⟨_, t₁, _, rfl, hsend, h⟩ := Prog.ok_bind.1 h
  obtain ⟨_, t₂, _, rfl, hccs, h⟩ := Prog.ok_bind.1 h
  obtain ⟨⟨msg', ch'⟩, t₃, _, rfl, hread, hend⟩ := Prog.ok_bind.1 h
  obtain ⟨rfl, heq⟩ := Prog.ok_pure.1 hend
  cases heq
  refine ⟨hash, hrr, t₁ ++ t₂, t₃, by simp only [List.append_assoc, List.append_nil], hhash, hhrr,
    ?_, hread, ?_⟩
  · rw [sends_append, sendPlainRecord_ok hsend, sendPlainRecord_ok hccs]
    rfl
  · rw [Transcript.update_eq htc₃, Transcript.update_eq htc₁]

theorem takeHello_ok {srv : Server} {emptyHash early : Bytes} {hello : Hello} {tc : Transcript}
    (h : srv.takeHello P emptyHash hello = .ok (early, tc)) :
    tc.fed = hello.tc.fed ++ hello.msg := by
  cases srv with
  | psk args =>
      rw [(acceptBinder_feeds h).2.2.2]
  | cert args =>
      obtain ⟨_, -, h⟩ := except_bind_eq_ok.1 h
      obtain ⟨tc₁, htc, heq⟩ := except_bind_eq_ok.1 h
      cases heq
      rw [Transcript.update_eq htc]

theorem Server.reply_sends {srv : Server} {emptyHash random32 : Bytes} {hello : Hello}
    (hrandom : random32.length = 32)
    (hparsed : clientHelloParse P.build hello.msg = .ok hello.ch) :
    Prog.Sends (fun b => NoHello b ∨ IsServerHello b) (srv.reply P emptyHash random32 rng hello) :=
  .bind .lift fun _ => .bind (sendServerHello_sends hrandom hparsed) fun _ => .pure

theorem Server.reply_ok {srv : Server} {emptyHash random32 : Bytes} {hello : Hello}
    {g : Server.Greeting P} (hrandom : random32.length = 32)
    (hparsed : clientHelloParse P.build hello.msg = .ok hello.ch)
    (h : Prog.Ok (srv.reply P emptyHash random32 rng hello) tr g) :
    ∃ sh, IsServerHello sh ∧ g.tc.fed = hello.tc.fed ++ hello.msg ++ sh ∧
      sends tr = [plainHeader recHandshake sh.length, sh] ++
        if hello.hrrDone then [] else ccsSends := by
  unfold Server.reply at h
  obtain ⟨⟨early, tc⟩, htake, h⟩ := Prog.ok_lift_bind.1 h
  obtain ⟨⟨tc', ecdhe, rng'⟩, t, u, rfl, hsend, hend⟩ := Prog.ok_bind.1 h
  obtain ⟨rfl, rfl⟩ := Prog.ok_pure.1 hend
  obtain ⟨sh, ⟨⟨ks, rng₁, srvPub, rng₂, -, hshare, hbuild⟩, hsent⟩, rfl⟩ := sendServerHello_ok hsend
  refine ⟨sh, serverHello_built hrandom hparsed hshare hbuild, ?_, by rwa [List.append_nil]⟩
  rw [← takeHello_ok htake]

/-! ### What a retry sends -/

/-- The two sends of a record, of which the second is left out when the first is refused. -/
theorem sendPlainRecord_runs {type : UInt8} {body : Bytes} {x : Except Err Unit}
    (h : (sendPlainRecord type body).run.Runs tr x) :
    (sends tr = [plainHeader type body.length] ∧ x = .error .crypto ∧ ¬ Taken tr) ∨
      sends tr = [plainHeader type body.length, body] := by
  unfold sendPlainRecord at h
  rcases Prog.runs_bind_cases h with ⟨e, rfl, hfailed⟩ | ⟨r, t, u, rfl, hsent, h₁⟩
  · exact absurd hfailed Prog.fails_send
  · rw [Prog.ok_send.1 hsent]
    rcases Prog.runs_bind_cases h₁ with ⟨e, rfl, hfailed⟩ | ⟨_, v, w, rfl, hok, h₂⟩
    · obtain ⟨rfl, hshort, rfl⟩ := Prog.fails_failIf.1 hfailed
      refine .inl ⟨rfl, rfl, fun htaken => hshort ?_⟩
      rw [htaken _ r List.mem_cons_self]
      simp [plainHeader]
    · obtain ⟨rfl, -⟩ := Prog.ok_failIf.1 hok
      refine .inr ?_
      rcases Prog.runs_bind_cases h₂ with ⟨e, rfl, hfailed⟩ | ⟨r', s, w', rfl, hsent', h₃⟩
      · exact absurd hfailed Prog.fails_send
      · rw [Prog.ok_send.1 hsent', Prog.runs_failIf h₃]
        rfl

theorem sha256Hash_error {msg : Bytes} {e : Err} (h : sha256Hash P msg = .error e) :
    e = .crypto := by
  unfold sha256Hash at h
  cases hhash : P.hash .sha256 msg with
  | none =>
      rw [hhash] at h
      cases h
      rfl
  | some hash =>
      rw [hhash] at h
      cases h

theorem update_error {fed msg : Bytes} {e : Err}
    (h : (⟨.sha256, fed⟩ : Transcript).update P msg = .error e) : e = .crypto := by
  have hdigest : transcriptDigest P .sha256 = true := rfl
  rw [Transcript.update, if_pos hdigest] at h
  split at h
  · cases h
  · cases h
    rfl

theorem Platform.HashOk.updated (hP : P.HashOk) (fed msg : Bytes) :
    (⟨.sha256, fed⟩ : Transcript).update P msg = .ok ⟨.sha256, fed ++ msg⟩ := by
  have hdigest : transcriptDigest P .sha256 = true := rfl
  rw [Transcript.update, if_pos hdigest, if_pos (hP.update fed msg)]

theorem Platform.HashOk.hashed (hP : P.HashOk) (msg : Bytes) :
    ∃ hash, sha256Hash P msg = .ok hash := by
  obtain ⟨hash, hhash⟩ := Option.isSome_iff_exists.1 (hP.hash msg)
  exact ⟨hash, by rw [sha256Hash, hhash]; rfl⟩

theorem Taken.left {t u : List (Act Ev)} (h : Taken (t ++ u)) : Taken t :=
  fun b r hmem => h b r (List.mem_append_left _ hmem)

theorem Taken.right {t u : List (Act Ev)} (h : Taken (t ++ u)) : Taken u :=
  fun b r hmem => h b r (List.mem_append_right _ hmem)

/-- A retry is sent once, and when nothing stands in its way it is sent. -/
theorem sendRetry_runs {hrr : Bytes} {next : Unit → Shell (Bytes × ClientHello × Transcript)}
    {x : Except Err (Bytes × ClientHello × Transcript)}
    (hnext : Prog.Sends NoHello (next ())) (hretry : IsRetry P.build hrr)
    (h : (sendPlainRecord recHandshake hrr >>= next).run.Runs tr x) :
    AtMostOne (IsRetry P.build) (sends tr) ∧
      ((∃ b ∈ sends tr, IsRetry P.build b) ∨ x = .error .crypto ∧ ¬ Taken tr) := by
  have hheader : ¬ IsRetry P.build (plainHeader recHandshake hrr.length) :=
    noHello_header.not_retry
  have hone : AtMostOne (IsRetry P.build) [plainHeader recHandshake hrr.length, hrr] :=
    @AtMostOne.none_append _ _ [plainHeader recHandshake hrr.length] [hrr]
      (fun b hb => List.mem_singleton.1 hb ▸ hheader) (List.pairwise_singleton _ _)
  rcases Prog.runs_bind_cases h with ⟨e, rfl, hfailed⟩ | ⟨_, t, u, rfl, hok, hrest⟩
  · rcases sendPlainRecord_runs hfailed with ⟨hsends, herr, hrefused⟩ | hsends
    · rw [hsends]
      cases herr
      exact ⟨.of_none fun b hb => List.mem_singleton.1 hb ▸ hheader, .inr ⟨rfl, hrefused⟩⟩
    · rw [hsends]
      exact ⟨hone, .inl ⟨hrr, by simp, hretry⟩⟩
  · rw [sends_append, sendPlainRecord_ok hok]
    refine ⟨hone.append_none fun b hb => ?_, .inl ⟨hrr, by simp, hretry⟩⟩
    exact NoHello.not_retry (hnext u x hrest b hb)

theorem askForShare_runs {fed msg : Bytes} {ch : ClientHello}
    {x : Except Err (Bytes × ClientHello × Transcript)}
    (hparsed : clientHelloParse P.build msg = .ok ch)
    (h : (askForShare P fuel scratchLen ⟨.sha256, fed⟩ msg ch).run.Runs tr x) :
    AtMostOne (IsRetry P.build) (sends tr) ∧
      ((∃ b ∈ sends tr, IsRetry P.build b) ∨
        x = .error .crypto ∧ ¬ (P.HashOk ∧ Taken tr)) := by
  obtain ⟨hlen, hmax⟩ := clientHelloParse_sid hparsed
  have hnone : AtMostOne (IsRetry P.build) (sends ([] : List (Act Ev))) := List.Pairwise.nil
  unfold askForShare at h
  rcases Prog.runs_lift_bind h with ⟨e, herr, rfl, rfl⟩ | ⟨hash, -, h₁⟩
  · refine ⟨hnone, .inr ⟨by rw [sha256Hash_error herr], fun ⟨hP, _⟩ => ?_⟩⟩
    obtain ⟨hash, hhash⟩ := hP.hashed msg
    cases hhash.symm.trans herr
  · rcases Prog.runs_lift_bind h₁ with ⟨e, herr, rfl, rfl⟩ | ⟨tc₁, htc₁, h₂⟩
    · refine ⟨hnone, .inr ⟨by rw [update_error herr], fun ⟨hP, _⟩ => ?_⟩⟩
      cases (hP.updated fed (messageHash hash)).symm.trans herr
    · rcases Prog.runs_lift_bind h₂ with ⟨e, herr, -, rfl⟩ | ⟨hrr, hbuild, h₃⟩
      · obtain ⟨hrr, hhrr⟩ := @helloRetryRequestBuild_fits
          (helloBytes msg ch.sessionId ch.sessionIdLen) ch.cipher P.build.group.id (by omega)
        rw [hlen] at hhrr
        cases hhrr.symm.trans herr
      · have hretry : IsRetry P.build hrr :=
          ⟨128, helloBytes msg ch.sessionId ch.sessionIdLen, ch.cipher, by omega, by rwa [hlen]⟩
        rcases Prog.runs_lift_bind h₃ with ⟨e, herr, rfl, rfl⟩ | ⟨tc₂, htc₂, h₄⟩
        · rw [Transcript.update_eq htc₁] at herr
          refine ⟨hnone, .inr ⟨by rw [update_error herr], fun ⟨hP, _⟩ => ?_⟩⟩
          cases (hP.updated (fed ++ messageHash hash) hrr).symm.trans herr
        · obtain ⟨hone, hsent⟩ := sendRetry_runs (.bind sendCcs_sends fun _ =>
            .bind readHello_sends fun _ => .pure) hretry h₄
          exact ⟨hone, hsent.imp_right fun herr => ⟨herr.1, fun ok => herr.2 ok.2⟩⟩

/-! ### The rules hold -/

section Talk

variable {srv : Server} {emptyHash random32 : Bytes} {a v : List (Act Ev)} {ret : Ret}
  {r : Except Err (Server.Greeting P)} {reply : Hello → Shell (Server.Greeting P)}

/-- What can come of asking a client for a share. -/
theorem Talk.asked {t u : List (Act Ev)} {msg : Bytes} {ch : ClientHello}
    (h : Talk P fuel scratchLen reply a r)
    (hread : Prog.Ok (readHello P fuel scratchLen) t (msg, ch)) (hnone : ch.haveKeyShare = false)
    (heq : t ++ u = a ++ v) :
    (∃ w e, a = t ++ w ∧ r = .error e ∧
      Prog.Fails (askForShare P fuel scratchLen ⟨.sha256, []⟩ msg ch) w e) ∨
    (∃ w last, a = t ++ w ∧ r = .error .illegalParam ∧ last.2.1.haveKeyShare = false ∧
      Prog.Ok (askForShare P fuel scratchLen ⟨.sha256, []⟩ msg ch) w last) ∨
    ∃ w z last, a = t ++ (w ++ z) ∧ last.2.1.haveKeyShare = true ∧
      Prog.Ok (askForShare P fuel scratchLen ⟨.sha256, []⟩ msg ch) w last := by
  cases h with
  | unread failed => exact absurd heq (hread.not_fails failed)
  | direct read share replied =>
      rw [List.append_assoc] at heq
      obtain ⟨-, hfirst⟩ := hread.same read heq
      cases hfirst
      cases hnone.symm.trans share
  | unanswered read none failed =>
      rw [List.append_assoc] at heq
      obtain ⟨rfl, hfirst⟩ := hread.same read heq
      cases hfirst
      exact .inl ⟨_, _, rfl, rfl, failed⟩
  | ignored read none asked still =>
      rw [List.append_assoc] at heq
      obtain ⟨rfl, hfirst⟩ := hread.same read heq
      cases hfirst
      exact .inr (.inl ⟨_, _, rfl, rfl, still, asked⟩)
  | retried read none asked share replied =>
      rw [List.append_assoc] at heq
      obtain ⟨rfl, hfirst⟩ := hread.same read heq
      cases hfirst
      exact .inr (.inr ⟨_, _, _, rfl, share, asked⟩)

theorem Talk.sent_only (hrandom : random32.length = 32)
    (h : Talk P fuel srv.scratchLen (srv.reply P emptyHash random32 rng) a r) {b : Bytes}
    (hb : b ∈ sends a) (hretry : IsRetry P.build b) :
    ∃ t u msg ch, a = t ++ u ∧ Prog.Ok (readHello P fuel srv.scratchLen) t (msg, ch) ∧
      ch.haveKeyShare = false := by
  cases h with
  | unread failed => exact (Prog.Sends.fails (Q := fun _ => False) readHello_sends failed b hb).elim
  | direct read share replied =>
      have hello := readHello_ok read
      rw [sends_append, hello.silent, List.nil_append] at hb
      rcases Server.reply_sends hrandom hello.parsed _ _ replied b hb with hno | hsh
      · exact absurd hretry hno.not_retry
      · exact absurd hsh hretry.not_serverHello
  | unanswered read none failed => exact ⟨_, _, _, _, rfl, read, none⟩
  | ignored read none asked still => exact ⟨_, _, _, _, rfl, read, none⟩
  | retried read none asked share replied => exact ⟨_, _, _, _, rfl, read, none⟩

theorem Talk.once (hrandom : random32.length = 32)
    (h : Talk P fuel srv.scratchLen (srv.reply P emptyHash random32 rng) a r) :
    AtMostOne (IsRetry P.build) (sends a) := by
  cases h with
  | unread failed =>
      exact .of_none fun b hb =>
        (Prog.Sends.fails (Q := fun _ => False) readHello_sends failed b hb).elim
  | direct read share replied =>
      have hello := readHello_ok read
      rw [sends_append, hello.silent, List.nil_append]
      refine .of_none fun b hb hretry => ?_
      rcases Server.reply_sends hrandom hello.parsed _ _ replied b hb with hno | hsh
      · exact hno.not_retry hretry
      · exact hretry.not_serverHello hsh
  | unanswered read none failed =>
      have hello := readHello_ok read
      rw [sends_append, hello.silent, List.nil_append]
      exact (askForShare_runs hello.parsed failed).1
  | ignored read none asked still =>
      have hello := readHello_ok read
      rw [sends_append, hello.silent, List.nil_append]
      exact (askForShare_runs hello.parsed asked).1
  | retried read none asked share replied =>
      have hello := readHello_ok read
      obtain ⟨_, _, _, _, _, -, -, -, hread₂, -⟩ := askForShare_ok asked
      rw [sends_append, sends_append, hello.silent, List.nil_append]
      refine (askForShare_runs hello.parsed asked).1.append_none fun b hb hretry => ?_
      rcases Server.reply_sends hrandom (readHello_ok hread₂).parsed _ _ replied b hb with
        hno | hsh
      · exact hno.not_retry hretry
      · exact hretry.not_serverHello hsh

theorem not_serverHello_of_silent {t : List (Act Ev)} (h : sends t = []) {b : Bytes} :
    b ∉ sends t := by
  rw [h]
  exact List.not_mem_nil

/-- A ServerHello comes after the hello the server goes on with. -/
theorem Talk.share_first {t u : List (Act Ev)} {b : Bytes} {n : Int}
    (h : Talk P fuel scratchLen reply a r) (heq : t ++ .sent b n :: u = a ++ v)
    (hb : b ∈ sends v → False) (hsh : IsServerHello b) :
    ∃ hello t₁ t₂, t = t₁ ++ t₂ ∧ Greeted P scratchLen ⟨.sha256, []⟩ t₁ hello := by
  have hmem : b ∈ sends (a ++ v) := heq ▸ mem_sends.2 ⟨n, by simp⟩
  rw [sends_append, List.mem_append] at hmem
  replace hmem := hmem.resolve_right hb
  have hasked : ∀ {w msg ch x}, clientHelloParse P.build msg = .ok ch →
      (askForShare P fuel scratchLen ⟨.sha256, []⟩ msg ch).run.Runs w x → b ∉ sends w := by
    intro w msg ch x hparsed hrun hbw
    rcases askForShare_sends hparsed w x hrun b hbw with hno | hretry
    · exact hno.not_serverHello hsh
    · exact hretry.not_serverHello hsh
  cases h with
  | unread failed =>
      exact (Prog.Sends.fails (Q := fun _ => False) readHello_sends failed b hmem).elim
  | direct read share replied =>
      have hello := readHello_ok read
      rw [List.append_assoc] at heq
      obtain ⟨t', rfl⟩ := sent_after (not_serverHello_of_silent hello.silent) heq
      exact ⟨_, _, t', rfl, .direct hello share⟩
  | unanswered read none failed =>
      have hello := readHello_ok read
      rw [sends_append, hello.silent, List.nil_append] at hmem
      exact absurd hmem (hasked hello.parsed failed)
  | ignored read none asked still =>
      have hello := readHello_ok read
      rw [sends_append, hello.silent, List.nil_append] at hmem
      exact absurd hmem (hasked hello.parsed asked)
  | @retried t₁ w z _ _ last _ read none asked share replied =>
      have hello := readHello_ok read
      have hnot : b ∉ sends (t₁ ++ w) := by
        rw [sends_append, hello.silent, List.nil_append]
        exact hasked hello.parsed asked
      rw [show t₁ ++ (w ++ z) ++ v = (t₁ ++ w) ++ (z ++ v) by simp only [List.append_assoc]] at heq
      obtain ⟨t', rfl⟩ := sent_after hnot heq
      obtain ⟨msg₂, ch₂, tc₂⟩ := last
      obtain ⟨hash, hrr, w₁, w₂, rfl, hhash, hbuild, hsent, hread₂, rfl⟩ := askForShare_ok asked
      exact ⟨_, t₁ ++ (w₁ ++ w₂), t', rfl, .retried hello none hhash hbuild hsent
        (readHello_ok hread₂) share⟩

/-- A retry echoes the session id it is built with and is parsed as a retry. -/
theorem helloRetryRequestBuild_echo {sessionId hrr : Bytes} {cap cipher group : Nat}
    (hsid : sessionId.length ≤ 32)
    (h : helloRetryRequestBuild cap sessionId sessionId.length cipher group = .ok hrr) :
    At hrr 38 (vec8 sessionId) ∧
      ∃ out, serverHelloParse hrr = .ok out ∧ out.isHelloRetry = true := by
  obtain ⟨exts, hexts, rfl⟩ := helloRetryRequestBuild_ok (by omega) h
  have hplaces := @serverHelloBytes_places hrrRandom sessionId exts cipher rfl
  exact ⟨(serverHelloBytes_sidLen rfl).append_at hplaces.2.1 rfl,
    serverHelloParse_retry (by omega) (by omega)⟩

theorem Server.greet_hashed {g : Server.Greeting P} (h : Prog.Ok (srv.greet P fuel rng) tr g) :
    Hashed P srv.scratchLen tr g.tc.fed := by
  rcases Server.greet_talk h with ⟨-, e, heq⟩ | ⟨emptyHash, random32, rng', hrandom, htalk⟩
  · cases heq
  · cases htalk with
    | @direct t u msg ch _ read share replied =>
        have hello := readHello_ok read
        obtain ⟨sh, hsh, hfed, hsent⟩ := Server.reply_ok hrandom hello.parsed replied
        rw [hfed]
        refine .direct hello share hsh ?_
        rw [sends_append, hello.silent, List.nil_append, hsent]
        rfl
    | @retried t w z first ch₁ last _ read none asked share replied =>
        have hello := readHello_ok read
        obtain ⟨hlen, hmax⟩ := clientHelloParse_sid hello.parsed
        obtain ⟨msg, ch, tc⟩ := last
        obtain ⟨hash, hrr, w₁, w₂, rfl, hhash, hbuild, hsentRetry, hread₂, rfl⟩ :=
          askForShare_ok asked
        have hello₂ := readHello_ok hread₂
        obtain ⟨sh, hsh, hfed, hsent⟩ := Server.reply_ok hrandom hello₂.parsed replied
        have hbuilt : helloRetryRequestBuild 128 (helloBytes first ch₁.sessionId ch₁.sessionIdLen)
            (helloBytes first ch₁.sessionId ch₁.sessionIdLen).length ch₁.cipher P.build.group.id =
              .ok hrr := by
          rwa [hlen]
        obtain ⟨hecho, hparsed⟩ := helloRetryRequestBuild_echo (by omega) hbuilt
        have hbytes : g.tc.fed = [0xFE, 0, 0, 0x20] ++ hash ++ hrr ++ msg ++ sh := by
          rw [hfed]
          rfl
        rw [hbytes, List.append_assoc w₁ w₂ z]
        refine .retried hello none (orCrypto_eq_ok.1 hhash)
          ⟨128, _, ch₁.cipher, by omega, hbuilt⟩ hecho hparsed hello₂ share hsh ?_
        simp only [sends_append, hello.silent, hello₂.silent, hsentRetry, hsent, List.nil_append,
          if_true, List.append_nil]

theorem Server.reply_quiet {hello : Hello} :
    Quiet (srv.reply P emptyHash random32 rng hello) :=
  .bind .lift fun _ => .bind sendServerHello_quiet fun _ => .pure

theorem Server.greet_quiet : Quiet (srv.greet P fuel rng) :=
  .bind .lift fun _ => .bind acceptHello_quiet fun _ => Server.reply_quiet

end Talk

section Accept

variable {srv : Server} {sess s : Session} {ret : Ret}
  (h : (srv.accept P fuel rng sess).Runs tr (ret, s))

include h

/-- A run that has read a hello talks to the client. -/
theorem Server.accept_talk {t u : List (Act Ev)} {first : Bytes × ClientHello}
    (htr : tr = t ++ u) (hread : Prog.Ok (readHello P fuel srv.scratchLen) t first) :
    ∃ (a v : List (Act Ev)) (r : Except Err (Server.Greeting P)) (emptyHash random32 : Bytes)
      (rng' : P.Rng), Goes P fuel rng srv tr ret a v r ∧
        Talk P fuel srv.scratchLen (srv.reply P emptyHash random32 rng') a r := by
  have hne : tr ≠ [] := by
    rw [htr]
    exact fun hnil => readHello_reads hread (List.append_eq_nil_iff.1 hnil).1
  obtain ⟨a, v, r, hrun⟩ := (Server.accept_goes h).resolve_left hne
  rcases Server.greet_talk hrun.greets with ⟨rfl, e, rfl⟩ | ⟨eh, random32, rng', -, htalk⟩
  · obtain ⟨rfl, -⟩ := hrun.stops e rfl
    exact absurd hrun.split hne
  · exact ⟨a, v, r, eh, random32, rng', hrun, htalk⟩

theorem Server.accept_sent_only {b : Bytes} (hb : b ∈ sends tr) (hretry : IsRetry P.build b) :
    ∃ t u msg ch, tr = t ++ u ∧ Prog.Ok (readHello P fuel srv.scratchLen) t (msg, ch) ∧
      ch.haveKeyShare = false := by
  rcases Server.accept_goes h with rfl | ⟨a, v, r, hrun⟩
  · exact absurd hb List.not_mem_nil
  · rw [hrun.split, sends_append, List.mem_append] at hb
    have hbefore := hb.resolve_right fun hbv =>
      NoHello.not_retry (.inr (hrun.seals b hbv)) hretry
    rcases Server.greet_talk hrun.greets with ⟨rfl, -⟩ | ⟨eh, random32, rng', hrandom, htalk⟩
    · exact absurd hbefore List.not_mem_nil
    · obtain ⟨t, u, msg, ch, ha, hread, hnone⟩ := htalk.sent_only hrandom hbefore hretry
      refine ⟨t, u ++ v, msg, ch, ?_, hread, hnone⟩
      rw [hrun.split, ha, List.append_assoc]

theorem Server.accept_sent_if {t u : List (Act Ev)} {msg : Bytes} {ch : ClientHello}
    (htr : tr = t ++ u) (hread : Prog.Ok (readHello P fuel srv.scratchLen) t (msg, ch))
    (hnone : ch.haveKeyShare = false) :
    (∃ b ∈ sends tr, IsRetry P.build b) ∨ ret = .error .crypto ∧ ¬ (P.HashOk ∧ Taken tr) := by
  obtain ⟨a, v, r, eh, random32, rng', hrun, htalk⟩ := Server.accept_talk h htr hread
  have heq : t ++ u = a ++ v := htr.symm.trans hrun.split
  have hparsed := (readHello_ok hread).parsed
  have hsent : ∀ {w : List (Act Ev)}, a = t ++ w → (∃ b ∈ sends w, IsRetry P.build b) →
      ∃ b ∈ sends tr, IsRetry P.build b := by
    rintro w ha ⟨b, hb, hretry⟩
    refine ⟨b, ?_, hretry⟩
    rw [hrun.split, ha]
    simp [hb]
  rcases htalk.asked hread hnone heq with ⟨w, e, ha, rfl, hfailed⟩ | ⟨w, last, ha, -, -, hok⟩ |
    ⟨w, z, last, ha, -, hok⟩
  · rcases (askForShare_runs hparsed hfailed).2 with hasked | ⟨herr, hbad⟩
    · exact .inl (hsent ha hasked)
    · cases herr
      refine .inr ⟨(hrun.stops _ rfl).2, fun ⟨hP, htaken⟩ => hbad ⟨hP, ?_⟩⟩
      rw [hrun.split, ha] at htaken
      exact htaken.left.right
  · have hasked := (askForShare_runs hparsed hok).2.resolve_right fun h => nomatch h.1
    exact .inl (hsent ha hasked)
  · obtain ⟨b, hb, hretry⟩ := (askForShare_runs hparsed hok).2.resolve_right fun h => nomatch h.1
    exact .inl (hsent ha ⟨b, by simp [hb], hretry⟩)

theorem Server.accept_once : AtMostOne (IsRetry P.build) (sends tr) := by
  rcases Server.accept_goes h with rfl | ⟨a, v, r, hrun⟩
  · exact List.Pairwise.nil
  · have hseals : ∀ b ∈ sends v, ¬ IsRetry P.build b :=
      fun b hb => NoHello.not_retry (.inr (hrun.seals b hb))
    rw [hrun.split, sends_append]
    rcases Server.greet_talk hrun.greets with ⟨rfl, -⟩ | ⟨eh, random32, rng', hrandom, htalk⟩
    · exact AtMostOne.of_none hseals
    · exact (htalk.once hrandom).append_none hseals

theorem Server.accept_share_first {t u : List (Act Ev)} {b : Bytes} {n : Int}
    (htr : tr = t ++ .sent b n :: u) (hsh : IsServerHello b) :
    ∃ hello t₁ t₂, t = t₁ ++ t₂ ∧ Greeted P srv.scratchLen ⟨.sha256, []⟩ t₁ hello := by
  have hb : b ∈ sends tr := mem_sends.2 ⟨n, by simp [htr]⟩
  rcases Server.accept_goes h with rfl | ⟨a, v, r, hrun⟩
  · exact absurd hb List.not_mem_nil
  · have hseals : b ∈ sends v → False :=
      fun hbv => NoHello.not_serverHello (.inr (hrun.seals b hbv)) hsh
    rcases Server.greet_talk hrun.greets with ⟨rfl, e, rfl⟩ | ⟨eh, random32, rng', -, htalk⟩
    · rw [hrun.split, List.nil_append] at hb
      exact (hseals hb).elim
    · exact htalk.share_first (htr.symm.trans hrun.split) hseals hsh

theorem Server.accept_ignored {t u v : List (Act Ev)} {msg : Bytes} {ch : ClientHello}
    {last : Bytes × ClientHello × Transcript} (htr : tr = t ++ (u ++ v))
    (hread : Prog.Ok (readHello P fuel srv.scratchLen) t (msg, ch))
    (hnone : ch.haveKeyShare = false)
    (hasked : Prog.Ok (askForShare P fuel srv.scratchLen ⟨.sha256, []⟩ msg ch) u last)
    (hstill : last.2.1.haveKeyShare = false) : v = [] ∧ ret = .error .illegalParam := by
  obtain ⟨a, v', r, eh, random32, rng', hrun, htalk⟩ := Server.accept_talk h htr hread
  have heq : t ++ (u ++ v) = a ++ v' := htr.symm.trans hrun.split
  rcases htalk.asked hread hnone heq with ⟨w, e, rfl, -, hfailed⟩ |
    ⟨w, last', rfl, rfl, -, hok⟩ | ⟨w, z, last', rfl, hshare, hok⟩
  · rw [List.append_assoc] at heq
    exact absurd (List.append_cancel_left heq) (hasked.not_fails hfailed)
  · obtain ⟨rfl, hret⟩ := hrun.stops _ rfl
    rw [List.append_nil] at heq
    have hrest := List.append_cancel_left heq
    obtain ⟨rfl, -⟩ := hasked.same hok (hrest.trans (List.append_nil _).symm)
    exact ⟨List.append_right_eq_self.1 hrest, hret⟩
  · rw [List.append_assoc, List.append_assoc] at heq
    obtain ⟨-, rfl⟩ := hasked.same hok (List.append_cancel_left heq)
    cases hstill.symm.trans hshare

theorem Server.accept_keyed (hkeyed : ∃ o ∈ notes tr, o.onWriteKey = true) :
    ∃ t u g, tr = t ++ u ∧ Prog.Ok (srv.greet P fuel rng) t g := by
  obtain ⟨o, ho, hkey⟩ := hkeyed
  rcases Server.accept_goes h with rfl | ⟨a, v, r, hrun⟩
  · exact absurd ho List.not_mem_nil
  · cases r with
    | ok g => exact ⟨a, v, g, hrun.split, hrun.greets⟩
    | error e =>
        obtain ⟨rfl, -⟩ := hrun.stops e rfl
        rw [hrun.split, List.append_nil] at ho
        have hquiet := Prog.Fails.notes hrun.greets Server.greet_quiet o ho
        cases hquiet.symm.trans hkey

theorem Server.accept_seals {t u : List (Act Ev)} {g : Server.Greeting P} (htr : tr = t ++ u)
    (hok : Prog.Ok (srv.greet P fuel rng) t g) : ∀ b ∈ sends u, b.head? = some recAppdata := by
  rcases Server.accept_goes h with rfl | ⟨a, v, r, hrun⟩
  · obtain ⟨rfl, rfl⟩ := List.append_eq_nil_iff.1 htr.symm
    exact fun b hb => absurd hb List.not_mem_nil
  · have heq : t ++ u = a ++ v := htr.symm.trans hrun.split
    obtain ⟨rfl, -⟩ := Proc.Runs.deterministic hok hrun.greets heq
    rw [List.append_cancel_left heq]
    exact hrun.seals

end Accept

end Rules

/-- The rules hold in every run of both servers. -/
theorem Server.accept_rules {P : Platform} {srv : Server} {fuel : Nat} {rng : P.Rng}
    {sess s : Session} {tr : List (Act Ev)} {ret : Ret}
    (h : (srv.accept P fuel rng sess).Runs tr (ret, s)) : RetryRules P fuel rng srv tr ret where
  sent_only _ hb hretry := Server.accept_sent_only h hb hretry
  sent_if _ _ _ _ htr hread hnone := Server.accept_sent_if h htr hread hnone
  once := Server.accept_once h
  share_first _ _ _ _ htr hsh := Server.accept_share_first h htr hsh
  ignored _ _ _ _ _ _ htr hread hnone hasked hstill :=
    Server.accept_ignored h htr hread hnone hasked hstill
  keyed hkeyed := Server.accept_keyed h hkeyed
  hashed _ _ _ htr hok := ⟨Server.greet_hashed hok, Server.accept_seals h htr hok⟩

end WolfNano
