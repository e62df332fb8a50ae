/-
HelloRetryRequest: what both servers read, send and hash up to the key schedule, in every
run and whatever the client sends.
-/
import WolfNano.Duplex.Sends
import WolfNano.HelloSent
import WolfNano.ServerHelloRead

namespace WolfNano

open Duplex

/-! ### The stages up to the key schedule -/

/-- The two servers, with their arguments. -/
inductive Server where
  | psk (args : PskArgs)
  | cert (args : ServerCertArgs)

section Stages

variable (P : Platform)

/-- Receive and parse one ClientHello. -/
def readHello (fuel scratchLen : Nat) : Shell (Bytes × ClientHello) := do
  let chHalf := scratchLen / 2
  let msg ← recvHandshake chHalf (scratchLen - chHalf) fuel []
  let ch ← Prog.lift (clientHelloParse P.build msg)
  pure (msg, ch)

/-- `wn_Accept_MaybeHrr` of a hello without a share, up to its last check. -/
def askForShare (fuel scratchLen : Nat) (tc : Transcript) (msg : Bytes) (ch : ClientHello) :
    Shell (Bytes × ClientHello × Transcript) := do
  let hash ← Prog.lift (sha256Hash P msg)
  let tc ← Prog.lift (tc.update P (messageHash hash))
  let hrr ← Prog.lift (helloRetryRequestBuild 128
    (helloBytes msg ch.sessionId ch.sessionIdLen) ch.sessionIdLen ch.cipher P.build.group.id)
  let tc ← Prog.lift (tc.update P hrr)
  sendPlainRecord recHandshake hrr
  sendCcs
  let (msg, ch) ← readHello P fuel scratchLen
  pure (msg, ch, tc)

namespace Server

def scratchLen : Server → Nat
  | psk args => args.scratchLen
  | cert args => args.scratchLen

/-- `wn_Accept_Psk_ex` or `wn_Accept_Cert_ex`. -/
def accept (fuel : Nat) (rng : P.Rng) (sess : Session) : Server → Proc Ev (Ret × Session)
  | psk args => acceptPskEx P fuel rng args sess
  | cert args => acceptCertEx P fuel rng args sess

/-- The server's own checks of the hello it goes on with, and the transcript after it; the
early secret is the PSK server's. -/
def takeHello (emptyHash : Bytes) (hello : Hello) : Server → Except Err (Bytes × Transcript)
  | psk args => acceptBinder P args emptyHash hello
  | cert args => do
      failIf (hello.ch.hasSigAlg hello.msg args.scheme = false) .illegalParam
      let tc ← hello.tc.update P hello.msg
      pure ([], tc)

def includePsk : Server → Bool
  | psk _ => true
  | cert _ => false

/-- What the key schedule is called with. -/
structure Greeting where
  emptyHash : Bytes
  early : Bytes
  tc : Transcript
  ecdhe : Bytes
  rng : P.Rng

/-- The server's answer to the hello it goes on with. -/
def reply (emptyHash random32 : Bytes) (rng : P.Rng) (hello : Hello) (srv : Server) :
    Shell (Greeting P) := do
  let (early, tc) ← Prog.lift (srv.takeHello P emptyHash hello)
  let (tc, ecdhe, rng) ←
    sendServerHello P srv.scratchLen random32 hello tc srv.includePsk rng
  pure ⟨emptyHash, early, tc, ecdhe, rng⟩

/-- A server up to its key schedule. -/
def greet (fuel : Nat) (rng : P.Rng) (srv : Server) : Shell (Greeting P) := do
  let (tc, emptyHash, random32, rng) ← Prog.lift (serverStart P rng)
  let hello ← acceptHello P fuel srv.scratchLen tc
  srv.reply P emptyHash random32 rng hello

/-- A server from its key schedule on, up to the session. -/
def afterGreeting (g : Greeting P) : Server → Shell (HsKeys × Bytes × Bytes)
  | psk args => do
      let th ← Prog.lift (g.tc.getHash P)
      let keys ← Prog.lift (deriveHsKeys P g.early g.ecdhe g.emptyHash th)
      Prog.note (.writeKey keys.sKey keys.sIv)
      let tc ← sendPskFlight P args.scratchLen keys g.tc
      let th ← Prog.lift (tc.getHash P)
      pure (keys, g.emptyHash, th)
  | cert args => do
      let early ← Prog.lift (tls13Extract P [] (zeros 32) .sha256)
      let th ← Prog.lift (g.tc.getHash P)
      let keys ← Prog.lift (deriveHsKeys P early g.ecdhe g.emptyHash th)
      Prog.note (.writeKey keys.sKey keys.sIv)
      let tc ← sendCertFlight P args keys g.tc g.rng
      let th ← Prog.lift (tc.getHash P)
      pure (keys, g.emptyHash, th)

/-- `wn_Accept_Psk_ex` or `wn_Accept_Cert_ex` up to the session. -/
def body (fuel : Nat) (rng : P.Rng) : Server → Shell (HsKeys × Bytes × Bytes)
  | psk args => acceptPskBody P fuel rng args
  | cert args => acceptCertBody P fuel rng args

end Server

variable {P} {fuel : Nat} {rng : P.Rng}

theorem acceptHello_eq {scratchLen : Nat} {tc : Transcript} :
    acceptHello P fuel scratchLen tc = readHello P fuel scratchLen >>= fun first =>
      acceptMaybeHrr P fuel scratchLen tc first.1 first.2 >>= fun last =>
        pure ⟨last.1, last.2.1, last.2.2, !first.2.haveKeyShare⟩ := by
  unfold acceptHello readHello
  simp only [Prog.bind_assoc]
  rfl

theorem acceptMaybeHrr_eq {scratchLen : Nat} {tc : Transcript} {msg : Bytes} {ch : ClientHello}
    (hnone : ch.haveKeyShare = false) :
    acceptMaybeHrr P fuel scratchLen tc msg ch = askForShare P fuel scratchLen tc msg ch >>=
      fun last => Prog.failIf (last.2.1.haveKeyShare = false) .illegalParam >>= fun _ =>
        pure last := by
  unfold acceptMaybeHrr askForShare readHello
  rw [if_neg (by simp [hnone])]
  simp only [Prog.bind_assoc]
  rfl

theorem lift_bind {α β : Type} {x : Except Err α} {f : α → Except Err β} :
    (Prog.lift (x >>= f) : Shell β) = Prog.lift x >>= fun a => Prog.lift (f a) := by
  cases x with
  | error e => rfl
  | ok a => rfl

theorem lift_failIf {c : Prop} [Decidable c] {e : Err} :
    (Prog.lift (failIf c e) : Shell Unit) = Prog.failIf c e := by
  unfold failIf Prog.failIf
  split
  · rfl
  · rfl

theorem Server.body_eq {srv : Server} :
    srv.body P fuel rng = srv.greet P fuel rng >>= fun g => srv.afterGreeting P g := by
  unfold Server.greet Server.reply
  cases srv with
  | psk args =>
      simp only [Prog.bind_assoc]
      rfl
  | cert args =>
      simp only [Server.takeHello, lift_bind, lift_failIf, Prog.bind_assoc]
      rfl

end Stages

/-! ### The messages -/

/-- A message of `wn_HelloRetryRequest_Build` for the group of the build. -/
def IsRetry (B : Build) (b : Bytes) : Prop :=
  ∃ (cap : Nat) (sessionId : Bytes) (cipher : Nat), sessionId.length ≤ 32 ∧
    helloRetryRequestBuild cap sessionId sessionId.length cipher B.group.id = .ok b

/-- A message of `wn_ServerHello_Build`, whatever it is called with. -/
def IsServerHello (b : Bytes) : Prop :=
  ∃ (cap : Nat) (random sessionId srvPub : Bytes) (cipher group index : Nat) (includePsk : Bool),
    random.length = 32 ∧ sessionId.length ≤ 32 ∧ srvPub.length < 2 ^ 16 ∧
      serverHelloBuild cap random sessionId sessionId.length cipher group srvPub index includePsk =
        .ok b

section Messages

variable {B : Build} {b random sessionId exts : Bytes} {cipher : Nat}

theorem IsRetry.form (h : IsRetry B b) :
    ∃ (sessionId : Bytes) (cipher : Nat) (exts : Bytes), sessionId.length ≤ 32 ∧
      exts.length = 12 ∧ b = serverHelloBytes hrrRandom sessionId cipher exts := by
  obtain ⟨cap, sessionId, cipher, hsid, hbuild⟩ := h
  obtain ⟨exts, hlen, hmsg⟩ := helloRetryRequestBuild_ok (by omega) hbuild
  exact ⟨sessionId, cipher, exts, hsid, hlen, hmsg⟩

open Writer.Appends in
theorem serverHelloBuild_form {cap group index : Nat} {srvPub : Bytes} {includePsk : Bool}
    (hrandom : random.length = 32) (hsid : sessionId.length ≤ 32) (hpub : srvPub.length < 2 ^ 16)
    (h : serverHelloBuild cap random sessionId sessionId.length cipher group srvPub index
      includePsk =
      .ok b) :
    ∃ exts : Bytes, 14 ≤ exts.length ∧ exts.length ≤ 20 + srvPub.length ∧
      b = serverHelloBytes random sessionId cipher exts := by
  have hkey := ((((Writer.Appends.u16 extKeyShare).comp (u16 (4 + srvPub.length))).comp
    (u16 group)).comp (u16 srvPub.length)).comp (bytes srvPub)
  cases includePsk with
  | false =>
      have hmsg := writeServerHello_ok hrandom hkey (by
        simp only [List.length_append, u16_length]
        omega) h
      refine ⟨_, ?_, ?_, hmsg⟩ <;> simp only [withVersion, List.length_append, u16_length] <;> omega
  | true =>
      have hall := ((hkey.comp (u16 extPreShared)).comp (u16 2)).comp (u16 index)
      have hmsg := writeServerHello_ok hrandom hall (by
        simp only [List.length_append, u16_length]
        omega) h
      refine ⟨_, ?_, ?_, hmsg⟩ <;> simp only [withVersion, List.length_append, u16_length] <;> omega

theorem IsServerHello.form (h : IsServerHello b) :
    ∃ (random sessionId : Bytes) (cipher : Nat) (exts : Bytes), random.length = 32 ∧
      sessionId.length ≤ 32 ∧ 14 ≤ exts.length ∧
        b = serverHelloBytes random sessionId cipher exts := by
  obtain ⟨cap, random, sessionId, srvPub, cipher, group, index, includePsk, hrandom, hsid, hpub,
    hbuild⟩ := h
  obtain ⟨exts, hlen, -, hmsg⟩ := serverHelloBuild_form hrandom hsid hpub hbuild
  exact ⟨random, sessionId, cipher, exts, hrandom, hsid, hlen, hmsg⟩

theorem serverHelloBytes_sidLen (hrandom : random.length = 32) :
    At (serverHelloBytes random sessionId cipher exts) 38 [UInt8.ofNat sessionId.length] := by
  refine At.of_eq_append ([2] ++ u24 (serverHelloBody random sessionId cipher exts).length ++
    u16 0x0303 ++ random) (sessionId ++ u16 cipher ++ [0] ++ vec16 exts) ?_ ?_
  · simp only [serverHelloBytes, serverHelloBody, vec8, List.append_assoc, List.cons_append,
      List.nil_append]
  · simp only [List.length_append, u24_length, u16_length, hrandom, List.length_singleton]

/-- A retry ends after the group of its key_share, a ServerHello goes on with the share. -/
theorem IsRetry.not_serverHello (h : IsRetry B b) : ¬ IsServerHello b := by
  intro hsh
  obtain ⟨sid, cipher, exts, hsid, hexts, rfl⟩ := h.form
  obtain ⟨random', sid', cipher', exts', hrandom', hsid', hexts', heq⟩ := hsh.form
  have hat := @serverHelloBytes_sidLen hrrRandom sid exts cipher rfl
  have hat' := @serverHelloBytes_sidLen random' sid' exts' cipher' hrandom'
  rw [← heq] at hat'
  have hsame : sid.length = sid'.length := by
    have hbyte := (List.cons.inj (hat.eq hat' rfl)).1
    have htoNat := congrArg UInt8.toNat hbyte
    rwa [UInt8.toNat_ofNat', UInt8.toNat_ofNat', Nat.mod_eq_of_lt (by omega),
      Nat.mod_eq_of_lt (by omega)] at htoNat
  have hlen := congrArg List.length heq
  rw [serverHelloBytes_length, serverHelloBytes_length, hrandom'] at hlen
  have hrandom : hrrRandom.length = 32 := rfl
  omega

/-- A buffer that is no hello of a server: a record header, the body of a ChangeCipherSpec, or a
protected record. -/
def NoHello (b : Bytes) : Prop := b.length ≤ 5 ∨ b.head? = some recAppdata

theorem noHello_header {type : UInt8} {n : Nat} : NoHello (plainHeader type n) :=
  .inl (by simp [plainHeader])

theorem NoHello.not_retry (h : NoHello b) : ¬ IsRetry B b := by
  intro hretry
  obtain ⟨sid, cipher, exts, -, -, rfl⟩ := hretry.form
  rcases h with hlen | hhead
  · rw [serverHelloBytes_length] at hlen
    omega
  · cases hhead

theorem NoHello.not_serverHello (h : NoHello b) : ¬ IsServerHello b := by
  intro hsh
  obtain ⟨random, sid, cipher, exts, -, -, -, rfl⟩ := hsh.form
  rcases h with hlen | hhead
  · rw [serverHelloBytes_length] at hlen
    omega
  · cases hhead

end Messages

/-! ### The session id that is echoed -/

/-- Where the session id of a parsed hello stands. -/
def ClientHello.sid (ch : ClientHello) : Option Nat × Nat := (ch.sessionId, ch.sessionIdLen)

section SessionId

theorem readShares_sid {group fuel ksEnd : Nat} {out : ClientHello} {r : Reader} :
    (readShares group fuel ksEnd out r).1.sid = out.sid := by
  induction fuel generalizing out r with
  | zero => rfl
  | succ fuel ih =>
      unfold readShares
      dsimp only
      split
      · rw [ih]
        split
        · rfl
        · rfl
      · rfl

theorem readIdentities_sid {fuel idsEnd nId : Nat} {out : ClientHello} {r : Reader} :
    (readIdentities fuel idsEnd nId out r).2.1.sid = out.sid := by
  induction fuel generalizing nId out r with
  | zero => rfl
  | succ fuel ih =>
      unfold readIdentities
      dsimp only
      split
      · rw [ih]
        split
        · rfl
        · rfl
      · rfl

theorem readBinders_sid {fuel bndEnd nBnd : Nat} {out : ClientHello} {r : Reader} :
    (readBinders fuel bndEnd nBnd out r).2.1.sid = out.sid := by
  induction fuel generalizing nBnd out r with
  | zero => rfl
  | succ fuel ih =>
      unfold readBinders
      dsimp only
      split
      · rw [ih]
        split
        · rfl
        · rfl
      · rfl

theorem readPreShared_sid {out : ClientHello} {r : Reader} {eEnd : Nat} :
    (readPreShared out r eEnd).1.sid = out.sid := by
  unfold readPreShared
  dsimp only [ClientHello.sid]
  have hbinders := fun fuel e n out r => Prod.mk.inj (@readBinders_sid fuel e n out r)
  have hids := fun fuel e n out r => Prod.mk.inj (@readIdentities_sid fuel e n out r)
  rw [(hbinders ..).1, (hbinders ..).2, (hids ..).1, (hids ..).2]

theorem clientHelloExtBody_sid {group et el eEnd : Nat} {st : ClientHelloExts} :
    (clientHelloExtBody group st et el eEnd).out.sid = st.out.sid := by
  unfold clientHelloExtBody
  dsimp only
  repeat' split
  · exact readShares_sid
  · rfl
  · rfl
  · rfl
  · rfl
  · exact readPreShared_sid
  · rfl

theorem clientHelloExts_sid {group fuel extEnd : Nat} {st st' : ClientHelloExts}
    (h : clientHelloExts group fuel st extEnd = .ok st') : st'.out.sid = st.out.sid := by
  induction fuel generalizing st with
  | zero =>
      cases h
      rfl
  | succ fuel ih =>
      unfold clientHelloExts at h
      split at h
      · obtain ⟨st₁, hone, hrest⟩ := except_bind_eq_ok.1 h
        refine (ih hrest).trans ?_
        unfold clientHelloExt at hone
        dsimp only at hone
        split at hone
        · cases hone
        · split at hone
          · cases hone
          · cases hone
            exact clientHelloExtBody_sid
      · cases h
        rfl

/-- The session id of a parsed hello lies in it and has at most 32 bytes. -/
theorem clientHelloParse_sid {B : Build} {msg : Bytes} {ch : ClientHello}
    (h : clientHelloParse B msg = .ok ch) :
    (helloBytes msg ch.sessionId ch.sessionIdLen).length = ch.sessionIdLen ∧
      ch.sessionIdLen ≤ 32 := by
  obtain ⟨_, hparts⟩ := clientHelloParse_ok h
  have hinside : Within msg ch.sessionId ch.sessionIdLen := hparts.inside.sessionId
  let hsLen := (Reader.init msg).u8.2.u24
  let lver := hsLen.2.u16
  let sidLen := (lver.2.bytes 32).2.u8
  let sid := sidLen.2.bytes sidLen.1
  let csLen := sid.2.u16
  let cipher := readCiphers (csLen.1 + 1) 0 csLen.1 0 csLen.2
  let comp := cipher.2.u8.2.u8
  let vecLen := comp.2.u16
  have hdef : clientHelloParse B msg =
      failIf ((Reader.init msg).u8.1 ≠ 1) .unexpectedMsg >>= fun _ =>
      failIf (add32 hsLen.2.pos hsLen.1 ≠ msg.length) .decode >>= fun _ =>
      failIf (lver.1 ≠ 0x0303 ∨ sidLen.1 > 32 ∨ csLen.1 % 2 ≠ 0) .decode >>= fun _ =>
      failIf (cipher.2.u8.1 ≠ 1 ∨ comp.1 ≠ 0) .decode >>= fun _ =>
      failIf (vecLen.2.err = true ∨ add32 vecLen.2.pos vecLen.1 ≠ msg.length) .decode >>= fun _ =>
      clientHelloExts B.group.id msg.length
        { r := vecLen.2
          out := { sessionId := sid.1, sessionIdLen := sidLen.1, cipher := cipher.1 } }
        (add32 vecLen.2.pos vecLen.1) >>= fun st =>
      failIf (st.out.cipher = 0 ∨ st.haveTls13 = false ∨ st.haveGroups = false ∨
        st.groupOffered = false ∨
        (st.out.haveKeyShare = true ∧ st.out.keyShareLen ≠ B.group.pubSz) ∨
        (st.out.havePsk = true ∧ (st.out.binderLen ≠ 32 ∨ st.havePskDhe = false)))
        .illegalParam >>= fun _ => pure st.out := rfl
  rw [hdef] at h
  simp only [except_bind_eq_ok, except_pure_eq_ok, failIf_eq_ok] at h
  obtain ⟨_, -, _, -, _, hbounds, _, -, _, hvec, st, hexts, _, -, rfl⟩ := h
  have hvecErr : vecLen.2.err = false := Bool.eq_false_iff.2 (not_or.1 hvec).1
  have hcompErr : comp.2.err = false := (Reader.uint_noErr hvecErr).1
  have hcipherErr : cipher.2.err = false := (Reader.u8_noErr (Reader.u8_noErr hcompErr).1).1
  have hsidErr : sid.2.err = false := (Reader.uint_noErr (readCiphers_noErr hcipherErr)).1
  have hsame : st.out.sid = (sid.1, sidLen.1) := clientHelloExts_sid hexts
  have hlenEq : st.out.sessionIdLen = sidLen.1 := congrArg Prod.snd hsame
  have hoff : st.out.sessionId = some sidLen.2.pos :=
    (congrArg Prod.fst hsame).trans (congrArg Prod.fst (Reader.bytes_noErr hsidErr).2.2)
  constructor
  · rw [helloBytes, hoff]
    exact slice_length (hinside _ hoff)
  · rw [hlenEq]
    exact Nat.not_lt.1 (not_or.1 (not_or.1 hbounds).2).1

end SessionId
section Builds

variable {P : Platform}

/-- There is room for a retry in the buffer it is built in. -/
theorem helloRetryRequestBuild_fits {sessionId : Bytes} {cipher group : Nat}
    (hsid : sessionId.length ≤ 32) :
    ∃ hrr, helloRetryRequestBuild 128 sessionId sessionId.length cipher group = .ok hrr := by
  have hshare := ((Writer.Appends.u16 extKeyShare).comp (Writer.Appends.u16 2)).comp
    (Writer.Appends.u16 group)
  obtain ⟨F, hF, hdef⟩ := @writeServerHello_appends 128 cipher hrrRandom sessionId _ _ rfl hshare
  have hlen : (serverHelloBytes hrrRandom sessionId cipher (withVersion
      (u16 extKeyShare ++ u16 2 ++ u16 group))).length = 56 + sessionId.length := by
    rw [serverHelloBytes_length]
    simp only [withVersion, List.length_append, u16_length]
    have hrandom : hrrRandom.length = 32 := rfl
    omega
  have hrun := @Writer.Appends.init _ _ hF (by omega) 128
  rw [if_pos (by omega)] at hrun
  rw [hrun] at hdef
  exact ⟨_, hdef⟩

theorem Curve.pubSz_le (c : Curve) : c.pubSz ≤ 65 := by
  cases c with
  | x25519 => decide
  | p256 => decide

theorem hybridServerRespond_length {peer srvPub ecdhe : Bytes} {rng rng' : P.Rng}
    (h : hybridServerRespond P peer rng = .ok (srvPub, ecdhe, rng')) :
    srvPub.length ≤ 1216 := by
  have hcurve := Curve.pubSz_le (dhCurve P)
  unfold hybridServerRespond at h
  by_cases hpeer : peer.length ≠ 1184 + 32
  · rw [if_pos hpeer] at h
    cases h
  · rw [if_neg hpeer] at h
    by_cases hkem : P.kemInit = true
    · rw [if_pos hkem] at h
      obtain ⟨⟨⟨ct, ss⟩, rng₁⟩, hencap, h⟩ := except_bind_eq_ok.1 h
      have hct := (P.kemEncap_length (orCrypto_eq_ok.1 hencap)).1
      by_cases hdh : P.dhInit .x25519 = true
      · replace h := (if_pos hdh).symm.trans h
        obtain ⟨⟨x, xPub, rng₂⟩, hx, h⟩ := except_bind_eq_ok.1 h
        obtain ⟨_, -, h⟩ := except_bind_eq_ok.1 h
        cases h
        have hpub := dhGenerate_length hx
        rw [List.length_append]
        omega
      · replace h := (if_neg hdh).symm.trans h
        cases h
    · rw [if_neg hkem] at h
      cases h

/-- The server's share is at most the hybrid one of a client. -/
theorem keyShareServerShare_length {ks : KeyShare P} {peer srvPub ecdhe : Bytes}
    {rng rng' : P.Rng} (h : keyShareServerShare P ks peer rng = .ok (srvPub, ecdhe, rng')) :
    srvPub.length ≤ 1216 := by
  unfold keyShareServerShare at h
  split at h
  · split at h
    · cases h
    · exact hybridServerRespond_length h
  · obtain ⟨⟨ks', pub, rng₁⟩, hgen, h⟩ := except_bind_eq_ok.1 h
    obtain ⟨_, -, h⟩ := except_bind_eq_ok.1 h
    cases h
    have hpub := keyShareGenerate_length hgen
    have hsize : P.build.group.pubSz ≤ 1216 := by
      cases P.build.group with
      | x25519 => decide
      | secp256r1 => decide
      | x25519mlkem768 => decide
    omega

end Builds

/-! ### What each stage sends -/

section Sends

variable {P : Platform} {Q : Bytes → Prop} {fuel scratchLen : Nat} {tc : Transcript}

theorem recvRecord_sends {cap : Nat} : Prog.Sends Q (recvRecord cap) := by
  refine .bind (.bind .recv fun _ => .orFail) fun _ => .bind .failIf fun _ => ?_
  exact .bind (.bind .recv fun _ => .orFail) fun _ => .bind .failIf fun _ => .pure

theorem recvHandshake_sends {accCap tmpCap : Nat} {acc : Bytes} :
    Prog.Sends Q (recvHandshake accCap tmpCap fuel acc) := by
  induction fuel generalizing acc with
  | zero => exact .spin
  | succ fuel ih =>
      refine .bind recvRecord_sends fun r => .ite ih ?_
      refine .bind .failIf fun _ => .bind .failIf fun _ => .bind .note fun _ => .ite ih ?_
      exact .bind .failIf fun _ => .ite ih (.bind .failIf fun _ => .pure)

theorem readHello_sends : Prog.Sends Q (readHello P fuel scratchLen) :=
  .bind recvHandshake_sends fun _ => .bind .lift fun _ => .pure

theorem sendPlainRecord_sends {type : UInt8} {body : Bytes} (hbody : NoHello body ∨ Q body) :
    Prog.Sends (fun b => NoHello b ∨ Q b) (sendPlainRecord type body) := by
  refine .bind (.send (.inl noHello_header)) fun _ => .bind .failIf fun _ => ?_
  exact .bind (.send hbody) fun _ => .failIf

theorem sendCcs_sends : Prog.Sends NoHello sendCcs :=
  (sendPlainRecord_sends (Q := fun _ => False) (.inl (.inl (by decide)))).mono
    fun _ hb => hb.elim id False.elim

theorem askForShare_sends {msg : Bytes} {ch : ClientHello}
    (hparsed : clientHelloParse P.build msg = .ok ch) :
    Prog.Sends (fun b => NoHello b ∨ IsRetry P.build b)
      (askForShare P fuel scratchLen tc msg ch) := by
  obtain ⟨hlen, hmax⟩ := clientHelloParse_sid hparsed
  refine .bind .lift fun hash => .bind .lift fun _ => .bind_ok .lift fun t hrr hok => ?_
  obtain ⟨-, hbuild⟩ := Prog.ok_lift.1 hok
  have hretry : IsRetry P.build hrr :=
    ⟨128, helloBytes msg ch.sessionId ch.sessionIdLen, ch.cipher, by omega, by rwa [hlen]⟩
  refine .bind .lift fun _ => .bind (sendPlainRecord_sends (.inr hretry)) fun _ => ?_
  refine .bind (sendCcs_sends.mono fun _ hb => .inl hb) fun _ => ?_
  exact .bind readHello_sends fun _ => .pure

theorem serverHello_built {hello : Hello} {random32 srvPub ecdhe sh : Bytes} {ks : KeyShare P}
    {rng rng' : P.Rng} {peer : Bytes} {includePsk : Bool} (hrandom : random32.length = 32)
    (hparsed : clientHelloParse P.build hello.msg = .ok hello.ch)
    (hshare : keyShareServerShare P ks peer rng = .ok (srvPub, ecdhe, rng'))
    (hbuild : serverHelloBuild scratchLen random32
      (helloBytes hello.msg hello.ch.sessionId hello.ch.sessionIdLen) hello.ch.sessionIdLen
      hello.ch.cipher hello.ch.group srvPub 0 includePsk = .ok sh) : IsServerHello sh := by
  obtain ⟨hlen, hmax⟩ := clientHelloParse_sid hparsed
  exact ⟨scratchLen, random32, helloBytes hello.msg hello.ch.sessionId hello.ch.sessionIdLen,
    srvPub, hello.ch.cipher, hello.ch.group, 0, includePsk, hrandom, by omega,
    (keyShareServerShare_length hshare).trans_lt (by decide), by rwa [hlen]⟩

theorem sendServerHello_sends {random32 : Bytes} {hello : Hello} {includePsk : Bool}
    {rng : P.Rng} (hrandom : random32.length = 32)
    (hparsed : clientHelloParse P.build hello.msg = .ok hello.ch) :
    Prog.Sends (fun b => NoHello b ∨ IsServerHello b)
      (sendServerHello P scratchLen random32 hello tc includePsk rng) := by
  refine .bind .lift fun ks => .bind_ok .lift fun t share hok => ?_
  obtain ⟨-, hshare⟩ := Prog.ok_lift.1 hok
  obtain ⟨srvPub, ecdhe, rng'⟩ := share
  refine .bind_ok .lift fun t sh hok => ?_
  obtain ⟨-, hbuild⟩ := Prog.ok_lift.1 hok
  have hhello : IsServerHello sh := serverHello_built hrandom hparsed hshare hbuild
  refine .bind .lift fun _ => .bind (sendPlainRecord_sends (.inr hhello)) fun _ => ?_
  exact .ite .pure (.bind (sendCcs_sends.mono fun _ hb => .inl hb) fun _ => .pure)

theorem sendProtected_sends {cap : Nat} {key iv content : Bytes} {seq : UInt64}
    {contentType : UInt8} :
    Prog.Sends (fun b => b.head? = some recAppdata)
      (recordProtect P cap key iv seq contentType content >>= fun rec => sendRecord rec) := by
  refine .bind_ok (.bind .failIf fun _ => .bind .note fun _ => .orFail) fun tr rec hok => ?_
  obtain ⟨-, hseal, -⟩ := recordProtect_ok.1 hok
  refine .bind (.send ?_) fun _ => .failIf
  unfold sealRecord at hseal
  dsimp only at hseal
  split at hseal
  · obtain ⟨x, -, rfl⟩ := Option.map_eq_some_iff.1 hseal
    rfl
  · cases hseal

/-- From the key schedule on a server sends protected records only. -/
theorem Server.afterGreeting_sends {srv : Server} {g : Server.Greeting P} :
    Prog.Sends (fun b => b.head? = some recAppdata) (srv.afterGreeting P g) := by
  cases srv with
  | psk args =>
      refine .bind .lift fun _ => .bind .lift fun keys => .bind .note fun _ => ?_
      refine .bind ?_ fun _ => .bind .lift fun _ => .pure
      refine .bind .lift fun ee => .bind .lift fun _ => .bind .lift fun _ => ?_
      refine .bind .lift fun mac => .bind .note fun _ => .bind .lift fun _ => ?_
      rw [← Prog.bind_assoc]
      exact .bind sendProtected_sends fun _ => .pure
  | cert args =>
      refine .bind .lift fun _ => .bind .lift fun _ => .bind .lift fun keys => ?_
      refine .bind .note fun _ => .bind ?_ fun _ => .bind .lift fun _ => .pure
      refine .bind .lift fun ee => .bind .lift fun _ => .bind .lift fun cert => ?_
      refine .bind .lift fun _ => .bind .lift fun _ => .bind .lift fun cv => ?_
      refine .bind .lift fun _ => .bind .lift fun _ => .bind .lift fun mac => ?_
      refine .bind .failIf fun _ => .bind .note fun _ => .bind .lift fun _ => ?_
      rw [← Prog.bind_assoc]
      exact .bind sendProtected_sends fun _ => .pure

theorem recvClientFinished_sends {finCap : Nat} {out : OutRegion} {keys : HsKeys}
    {recvMac : Bytes} :
    Prog.Sends Q (recvClientFinished P scratchLen finCap out keys recvMac fuel) := by
  induction fuel with
  | zero => exact .spin
  | succ fuel ih =>
      refine .bind recvRecord_sends fun r => .ite ih ?_
      refine .bind .failIf fun _ => .bind .failIf fun _ => ?_
      refine .bind (recordUnprotectInto_both ?_ fun gap => ?_) fun _ =>
        .bind .failIf fun _ => .failIf
      · exact .bind .failIf fun _ => .bind .note fun _ => .lift
      · exact .bind .failIf fun _ => .bind .note fun _ => .lift

/-- Nothing is sent once the session is filled in. -/
theorem establishServer_sends {sess : Session} {keys : HsKeys} {emptyHash th : Bytes}
    {finCap : Nat} {out : OutRegion} {tr : List (Act Ev)} {x : Ret × Session}
    (h : (establishServer P fuel sess keys emptyHash th scratchLen finCap out).Runs tr x) :
    sends tr = [] := by
  unfold establishServer at h
  split at h
  · rw [h.1]
    rfl
  · obtain ⟨_, t₁, t₂, rfl, hemit, h⟩ := Proc.runs_seq.1 h
    obtain ⟨y, t₃, t₄, rfl, hfin, hend⟩ := Proc.runs_seq.1 h
    have hnone : ∀ b ∈ sends t₃, False :=
      Prog.Sends.bind .lift (fun _ => recvClientFinished_sends) t₃ y hfin
    have hnil : t₄ = [] := by
      cases y with
      | error e => exact hend.1
      | ok u => exact hend.1
    rw [Proc.runs_emit.1 hemit, hnil, List.append_nil, List.singleton_append, sends_note]
    exact List.eq_nil_iff_forall_not_mem.2 hnone

end Sends

end WolfNano
