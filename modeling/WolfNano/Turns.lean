/-
What the stages of the drivers do over a channel that neither loses nor refuses anything.
-/
import WolfNano.KeyAgreement
import WolfNano.HelloOffer
import WolfNano.ServerHelloRead
import WolfNano.Assembly
import WolfNano.FlightWriters
import WolfNano.Duplex.Channel

namespace WolfNano

open Duplex

/-- A record that is sent in the clear. -/
def plainRec (type : UInt8) (body : Bytes) : Rec := ⟨type, plainHeader type body.length ++ body⟩

/-- The compatibility ChangeCipherSpec. -/
def ccsRec : Rec := plainRec recChangeCipher [1]

section Plain

variable {type : UInt8} {body msg : Bytes} {cap accCap fuel : Nat}

theorem plainRec_fragment : (plainRec type body).fragment = body := rfl

theorem plainRec_length : (plainRec type body).bytes.length = 5 + body.length := by
  rw [plainRec, List.length_append]
  rfl

theorem plainRec_fits (hpos : 0 < body.length) (hmax : body.length ≤ maxPlaintext + 256)
    (hcap : 5 + body.length ≤ cap) (htype : type ≠ recChangeCipher) :
    (plainRec type body).Fits cap where
  type_eq := rfl
  length_eq := by
    have hslice : slice (plainRec type body).bytes 3 2 = u16 body.length := rfl
    have hlt : body.length < 2 ^ 16 := hmax.trans_lt (by decide)
    rw [hslice, ofBE_u16 hlt, plainRec_length]
  nonempty := by
    rw [plainRec_length]
    omega
  le_cap := plainRec_length.trans_le hcap
  le_max := plainRec_length.trans_le (Nat.add_le_add_left hmax 5)
  ccs h := absurd h htype

theorem ccsRec_fits (hcap : 6 ≤ cap) : ccsRec.Fits cap where
  type_eq := rfl
  length_eq := rfl
  nonempty := by decide
  le_cap := hcap
  le_max := by decide
  ccs _ := ⟨rfl, rfl⟩

theorem failIf_gets {c : Prop} [Decidable c] {e : Err} (hc : ¬ c) :
    Prog.Gets (Prog.failIf c e : Shell Unit) [] [] () := by
  have hgo : (Prog.failIf c e : Shell Unit) = pure () := if_neg hc
  rw [hgo]
  exact Prog.gets_pure

theorem sendRecord_gets : Prog.Gets (sendRecord msg) [] msg () := by
  have hgets : Prog.Gets (sendRecord msg) [] (msg ++ []) () :=
    .send_bind (failIf_gets (not_not.2 rfl))
  rw [List.append_nil] at hgets
  exact hgets

theorem sendPlainRecord_gets :
    Prog.Gets (sendPlainRecord type body) [] (plainRec type body).bytes () := by
  have hgets : Prog.Gets (sendPlainRecord type body) []
      (plainHeader type body.length ++ (body ++ [])) () :=
    .send_bind (.failIf_bind (not_not.2 rfl) (.send_bind (failIf_gets (not_not.2 rfl))))
  rw [List.append_nil] at hgets
  exact hgets

theorem recvRecord_gets {r : Rec} (hfits : r.Fits cap) :
    Prog.Gets (recvRecord cap) r.bytes [] r := by
  have hwhole : AllWhole r.reads := by
    intro x hx
    rcases List.mem_pair.1 hx with rfl | rfl
    · exact trivial
    · exact trivial
  have hgets := Prog.Ok.gets (recvRecord_ok.2 ⟨hfits, rfl⟩) hwhole
  rw [Rec.bytesIn_reads, Rec.sends_reads] at hgets
  exact hgets

/-- A message in one record. -/
theorem recvHandshake_gets (hmsg : msg.length = 4 + hsMsgLen msg 0)
    (hmax : msg.length ≤ maxPlaintext + 256) (hacc : msg.length ≤ accCap)
    (hcap : 5 + msg.length ≤ cap) :
    Prog.Gets (recvHandshake accCap cap (fuel + 1) []) (plainRec recHandshake msg).bytes
      [] msg := by
  have hpos : 0 < msg.length := by omega
  have hfits : (plainRec recHandshake msg).Fits cap := plainRec_fits hpos hmax hcap (by decide)
  have hfirst := recvRecord_gets hfits
  have hccs : ¬ (plainRec recHandshake msg).isCcs = true := Bool.false_ne_true
  have htype : ¬ ((plainRec recHandshake msg).rtype ≠ recHandshake ∨
      (plainRec recHandshake msg).bytes.length ≤ recordHeaderSz) := by
    rw [plainRec_length]
    rintro (h | h)
    · exact h rfl
    · exact absurd h (by rw [recordHeaderSz]; omega)
  rw [recvHandshake]
  refine hfirst.last ?_
  rw [if_neg hccs]
  refine .failIf_bind htype (.failIf_bind ?_ (.note_bind ?_))
  · rw [plainRec_fragment, List.length_nil]
    omega
  · rw [plainRec_fragment, List.nil_append, if_neg (by omega)]
    refine .failIf_bind (by omega) ?_
    rw [if_neg (by omega)]
    exact .failIf_bind (by omega) Prog.gets_pure

theorem recvSkipCcs_gets {r : Rec} (hfits : r.Fits cap) (hccs : r.isCcs = false) :
    Prog.Gets (recvSkipCcs cap (fuel + 1)) r.bytes [] r := by
  rw [recvSkipCcs]
  refine (recvRecord_gets hfits).last ?_
  rw [if_neg (Bool.eq_false_iff.1 hccs)]
  exact Prog.gets_pure

end Plain

section Protected

variable {P : Platform} {cap : Nat} {key iv content rec : Bytes} {seq : UInt64}
  {contentType : UInt8}

theorem recordProtect_gets (hlen : content.length ≤ maxPlaintext)
    (hseal : sealRecord P key iv seq contentType content = some rec) :
    Prog.Gets (recordProtect P cap key iv seq contentType content) [] [] rec := by
  unfold recordProtect
  refine .failIf_bind (Nat.not_lt.2 hlen) (.note_bind ?_)
  rw [hseal]
  exact Prog.gets_pure

theorem recordUnprotect_gets {x : UInt8 × Bytes} (hlen : 22 ≤ rec.length)
    (hopen : openRecord P key iv seq rec = .ok x) :
    Prog.Gets (recordUnprotect P cap key iv seq rec) [] [] x := by
  unfold recordUnprotect
  exact .failIf_bind (Nat.not_lt.2 hlen) (.note_bind (Prog.gets_lift hopen))

end Protected

/-! ### The hellos -/

theorem HelloParts.encode_msgLen {h : HelloParts} (hsize : h.encode.length < 2 ^ 24) :
    h.encode.length = 4 + hsMsgLen h.encode 0 := by
  have hslice : slice h.encode 1 3 = u24 h.body.length := rfl
  have hlen : h.encode.length = 4 + h.body.length := by
    rw [encode, List.length_append, List.length_append, u24_length, List.length_singleton]
  rw [hsMsgLen, Nat.zero_add, hslice, ofBE_u24 (by omega)]
  exact hlen

section Hellos

variable {P : Platform}

/-- What the client draws. -/
theorem clientStart_ok (hP : P.HandshakeOk) (rng : P.Rng) : ∃ st, clientStart P rng = .ok st ∧
    sha256Hash P [] = .ok st.emptyHash ∧ st.tc = ⟨.sha256, []⟩ ∧ st.ks.Made st.cliPub := by
  obtain ⟨emptyHash, hempty⟩ := hP.toHashOk.hashed []
  obtain ⟨⟨random32, rng₁⟩, hrandom⟩ := Option.isSome_iff_exists.1 (hP.rng rng 32)
  obtain ⟨⟨sid, rng₂⟩, hsid⟩ := Option.isSome_iff_exists.1 (hP.rng rng₁ 32)
  obtain ⟨ks, pub, rng₃, hgen, hmade⟩ := keyShareGenerate_made hP rng₂
  refine ⟨⟨emptyHash, random32, sid, ks, pub, ⟨.sha256, []⟩⟩, ?_, hempty, rfl, hmade⟩
  unfold clientStart
  refine except_bind_eq_ok.2 ⟨_, hempty, ?_⟩
  refine except_bind_eq_ok.2 ⟨_, orCrypto_eq_ok.2 hrandom, ?_⟩
  refine except_bind_eq_ok.2 ⟨_, orCrypto_eq_ok.2 hsid, ?_⟩
  refine except_bind_eq_ok.2 ⟨_, keyShareInit_ok hP, ?_⟩
  refine except_bind_eq_ok.2 ⟨_, hgen, ?_⟩
  refine except_bind_eq_ok.2 ⟨⟨.sha256, []⟩, ?_, rfl⟩
  exact (if_pos rfl).trans (if_pos hP.hashInit)

theorem serverStart_returns (hP : P.HandshakeOk) (rng : P.Rng) : ∃ emptyHash random32 rng',
    serverStart P rng = .ok (⟨.sha256, []⟩, emptyHash, random32, rng') ∧
      sha256Hash P [] = .ok emptyHash ∧ P.rngBlock rng 32 = some (random32, rng') := by
  obtain ⟨emptyHash, hempty⟩ := hP.toHashOk.hashed []
  obtain ⟨⟨random32, rng'⟩, hrandom⟩ := Option.isSome_iff_exists.1 (hP.rng rng 32)
  refine ⟨emptyHash, random32, rng', ?_, hempty, hrandom⟩
  unfold serverStart
  refine except_bind_eq_ok.2 ⟨⟨.sha256, []⟩, (if_pos rfl).trans (if_pos hP.hashInit), ?_⟩
  refine except_bind_eq_ok.2 ⟨_, hempty, ?_⟩
  exact except_bind_eq_ok.2 ⟨_, orCrypto_eq_ok.2 hrandom, rfl⟩

/-- A hello with a share needs no retry. -/
theorem acceptHello_gets {fuel scratchLen : Nat} {tc : Transcript} {msg : Bytes} {ch : ClientHello}
    (hmsg : msg.length = 4 + hsMsgLen msg 0) (hmax : msg.length ≤ maxPlaintext)
    (hhalf : 5 + msg.length ≤ scratchLen / 2) (hparse : clientHelloParse P.build msg = .ok ch)
    (hshare : ch.haveKeyShare = true) :
    Prog.Gets (acceptHello P (fuel + 1) scratchLen tc) (plainRec recHandshake msg).bytes []
      ⟨msg, ch, tc, false⟩ := by
  have hread := @recvHandshake_gets msg (scratchLen - scratchLen / 2) (scratchLen / 2) fuel hmsg
    (Nat.le_add_right_of_le hmax) (by omega) (by omega)
  have hnone : acceptMaybeHrr P (fuel + 1) scratchLen tc msg ch = pure (msg, ch, tc) :=
    if_pos hshare
  refine hread.last (.lift_bind hparse ?_)
  dsimp only
  rw [hnone, hshare]
  exact Prog.gets_pure

/-- The ServerHello that answers a ClientHello with this session id. -/
def answerParts (P : Platform) (random32 sid srvPub : Bytes) (includePsk : Bool) :
    ServerHelloParts :=
  ⟨random32, sid, 0x1301, builtExts (UInt16.ofNat P.build.group.id) 0 srvPub includePsk⟩

section Answer

variable {random32 sid srvPub : Bytes} {includePsk : Bool}

theorem srvShareSz_le (g : KexGroup) : g.srvShareSz ≤ 1120 := by
  cases g <;> decide

theorem answerParts_length (hrandom : random32.length = 32) (hsid : sid.length = 32)
    (hpub : srvPub.length = P.build.group.srvShareSz) :
    (answerParts P random32 sid srvPub includePsk).encode.length ≤
    96 + P.build.group.srvShareSz := by
  have hexts := builtExts_length (UInt16.ofNat P.build.group.id) 0 srvPub includePsk
  have hsize : (answerParts P random32 sid srvPub includePsk).encode.length = _ :=
    serverHelloBytes_length random32 sid _ _
  have hflat : (answerParts P random32 sid srvPub includePsk).exts.flatMap ServerExt.encode =
    (builtExts (UInt16.ofNat P.build.group.id) 0 srvPub includePsk).flatMap ServerExt.encode := rfl
  rw [hflat, hexts, hrandom, hsid, hpub] at hsize
  rw [hsize]
  split <;> omega

theorem answerParts_wellFormed (hrandom : random32.length = 32) (hsid : sid.length = 32)
    (hpub : srvPub.length = P.build.group.srvShareSz) :
    (answerParts P random32 sid srvPub includePsk).WellFormed where
  random := hrandom
  sessionId := hsid.trans_lt (by decide)
  exts := by
    have hexts := builtExts_length (UInt16.ofNat P.build.group.id) 0 srvPub includePsk
    have hshare := srvShareSz_le P.build.group
    refine hexts.trans_lt ?_
    rw [hpub]
    split <;> omega
  once := builtExts_once _ _ _ _

/-- The server answers a ClientHello that it decoded; both sides then have one secret. -/
theorem sendServerHello_gets (hP : P.HandshakeOk) (hagree : P.KeysAgree) {ks : KeyShare P}
    {pub msg fed : Bytes} {ch : ClientHello} {tc : Transcript} {scratchLen : Nat}
    (hmade : ks.Made pub) (hdecoded : AnswerDecoded P.build msg sid pub ch)
    (hrandom : random32.length = 32) (hsid : sid.length = 32)
    (hroom : 96 + P.build.group.srvShareSz ≤ scratchLen) (rng : P.Rng) :
    ∃ srvPub secret rng', srvPub.length = P.build.group.srvShareSz ∧
      keyShareShared P ks srvPub = .ok secret ∧
      Prog.Gets (sendServerHello P scratchLen random32 ⟨msg, ch, tc, false⟩
        ⟨.sha256, fed⟩ includePsk rng) []
          ((plainRec recHandshake (answerParts P random32 sid srvPub includePsk).encode).bytes ++
          ccsRec.bytes)
        (⟨.sha256, fed ++ (answerParts P random32 sid srvPub includePsk).encode⟩, secret,
        rng') := by
  obtain ⟨srvPub, secret, rng', hserver, hpub, hclient⟩ := keyShares_agree hP hagree hmade rng
  refine ⟨srvPub, secret, rng', hpub, hclient, ?_⟩
  obtain ⟨hsidLen, sidOff, hsidOff, hsidAt⟩ := hdecoded.sessionId
  obtain ⟨-, hgroup, hshareLen, shareOff, hshareOff, hshareAt⟩ := hdecoded.keyShare
  have hinit : keyShareInit P ch.group = .ok ⟨P.build.group.id, none, none⟩ := by
    rw [hgroup]
    exact keyShareInit_ok hP
  have hpeer : keyShareServerShare P ⟨P.build.group.id, none, none⟩
      (helloBytes msg ch.keyShare ch.keyShareLen) rng = .ok (srvPub, secret, rng') := by
    rw [helloBytes, hshareOff, hshareLen]
    have hbytes : slice msg shareOff pub.length = pub := hshareAt.2
    exact hbytes.symm ▸ hserver
  have hecho : helloBytes msg ch.sessionId ch.sessionIdLen = sid := by
    rw [helloBytes, hsidOff, hsidLen]
    exact hsidAt.2
  have hid : (UInt16.ofNat P.build.group.id).toNat = P.build.group.id :=
    UInt16.toNat_ofNat_of_lt' P.build.group.id_lt
  have hlen := @answerParts_length P random32 sid srvPub includePsk hrandom hsid hpub
  have hshareSz := srvShareSz_le P.build.group
  have hbuild : serverHelloBuild scratchLen random32 sid ch.sessionIdLen ch.cipher ch.group srvPub 0
      includePsk = .ok (answerParts P random32 sid srvPub includePsk).encode := by
    have hfits := @serverHelloBuild_fits scratchLen random32 sid srvPub 0x1301
      (UInt16.ofNat P.build.group.id) 0 includePsk hrandom (by omega) (hlen.trans hroom)
    rw [hid] at hfits
    rw [hsidLen, hdecoded.cipher, hgroup]
    exact hfits
  refine .lift_bind hinit (.lift_bind hpeer ?_)
  rw [hecho]
  refine .lift_bind hbuild (.lift_bind (hP.toHashOk.updated _ _) ?_)
  refine sendPlainRecord_gets.sends_bind ?_
  exact sendPlainRecord_gets.last Prog.gets_pure

/-- The client's checks pass on the answer. -/
theorem answer_passes (hsid : sid.length = 32) (hpub : srvPub.length = P.build.group.srvShareSz)
    {msg : Bytes} {out : ServerHello}
    (hout : (answerParts P random32 sid srvPub includePsk).Reported msg out) :
    serverHelloOk P.build sid (if includePsk then 0 else -1) msg out = true ∧
      out.share msg = srvPub := by
  obtain ⟨hgroup, hshareLen, off, hoff, hat⟩ := hout.shows
    (.keyShare (UInt16.ofNat P.build.group.id) srvPub) (List.mem_cons_of_mem _ List.mem_cons_self)
  have hversion : out.version = 0x0304 := hout.shows (.supportedVersions 0x0304) List.mem_cons_self
  have hid : (UInt16.ofNat P.build.group.id).toNat = P.build.group.id :=
    UInt16.toNat_ofNat_of_lt' P.build.group.id_lt
  have hpsk : out.pskSelected = if includePsk then 0 else -1 := by
    cases includePsk with
    | true =>
        exact hout.shows (.preShared 0)
          (List.mem_cons_of_mem _ (List.mem_cons_of_mem _ List.mem_cons_self))
    | false =>
        exact hout.lacks .preShared
          (by decide : ServerExtKind.preShared ∉ [ServerExtKind.supportedVersions, .keyShare])
  obtain ⟨sidOff, hsidOff, hsidAt⟩ := hout.sessionId
  have hsidLen : out.sessionIdLen = 32 := hout.sessionIdLen.trans hsid
  have hsidSlice : slice msg sidOff 32 = sid := by
    rw [← hsid]
    exact hsidAt.2
  have hcipher : out.cipher = cipherAes128GcmSha256 := hout.cipher
  constructor
  · unfold serverHelloOk
    rw [hoff, hshareLen, hpub, hcipher, hversion, hgroup, hid, hpsk, hsidLen, hsidOff,
      Option.map_some, hsidSlice]
    simp
  · rw [ServerHello.share, hoff, hshareLen]
    exact hat.2

/-- The client takes the answer. -/
theorem recvServerHello_gets (hP : P.HandshakeOk) {ks : KeyShare P} {secret fed : Bytes}
    {fuel cap : Nat} (hrandom : random32.length = 32) (hretry : random32 ≠ hrrRandom)
    (hsid : sid.length = 32) (hpub : srvPub.length = P.build.group.srvShareSz)
    (hshared : keyShareShared P ks srvPub = .ok secret)
    (hroom : 101 + P.build.group.srvShareSz ≤ cap) :
    Prog.Gets (recvServerHello P (fuel + 1) cap (if includePsk then 0 else -1) sid ks
      ⟨.sha256, fed⟩) (plainRec recHandshake
        (answerParts P random32 sid srvPub includePsk).encode).bytes []
      (⟨.sha256, fed ++ (answerParts P random32 sid srvPub includePsk).encode⟩, secret) := by
  have hw := @answerParts_wellFormed P random32 sid srvPub includePsk hrandom hsid hpub
  have hlen := @answerParts_length P random32 sid srvPub includePsk hrandom hsid hpub
  have hshareSz := srvShareSz_le P.build.group
  have hmax : maxPlaintext = 16384 := rfl
  obtain ⟨out, hparse, hout⟩ := hw.parsed hretry
  obtain ⟨hpasses, hshare⟩ := answer_passes hsid hpub hout
  have hpos : 0 < (answerParts P random32 sid srvPub includePsk).encode.length :=
    Nat.zero_lt_succ _
  have hfits :
    (plainRec recHandshake (answerParts P random32 sid srvPub includePsk).encode).Fits cap :=
    plainRec_fits hpos (by omega) (by omega) (by decide)
  refine (recvSkipCcs_gets hfits rfl).last (.failIf_bind (not_not.2 rfl) ?_)
  dsimp only
  rw [plainRec_fragment]
  refine .lift_bind hparse (.failIf_bind ?_
    (.lift_bind (hP.toHashOk.updated _ _) (.failIf_bind ?_ ?_)))
  · rw [hout.isHelloRetry]
    exact Bool.false_ne_true
  · rw [hpasses]
    exact Bool.noConfusion
  · rw [hshare]
    exact .lift_bind hshared Prog.gets_pure

end Answer

end Hellos

/-! ### The Finished messages -/

section Finished

variable {P : Platform} {cap finCap fuel scratchLen : Nat} {out : OutRegion} {keys : HsKeys}
  {mac : Bytes}

theorem finishedMsg_size (hmac : mac.length = 32) : (finishedMsg mac).length = 36 := by
  rw [finishedMsg, List.length_append, hmac]
  rfl

/-- The client's Finished, and the server that waits for it behind a ChangeCipherSpec. -/
theorem clientFinished_gets (hP : P.HandshakeOk) (hopens : P.OpensSealed) (hkeys : keys.Proper)
    (hmac : mac.length = 32) (hscratch : 58 ≤ scratchLen) (hcap : 37 ≤ finCap)
    (hclear : ∀ off, out.off = some off → 58 ≤ off) : ∃ rec,
      Prog.Gets (sendClientFinished P cap keys mac) [] rec () ∧
      Prog.Gets (recvClientFinished P scratchLen finCap out keys mac (fuel + 2))
        (ccsRec.bytes ++ rec) [] () := by
  have hlen := finishedMsg_size hmac
  have hmax : (finishedMsg mac).length ≤ maxPlaintext := by
    rw [hlen]
    decide
  obtain ⟨rec, hseal, hopen⟩ := sealed_opens hP.toRecordOk hopens hkeys.1 0
    (show recHandshake ≠ 0 by decide) hmax
  have hsize := sealRecord_length hseal
  have hfits : (⟨recAppdata, rec⟩ : Rec).Fits scratchLen := sealRecord_fits hseal hmax (by omega)
  have hfirst := recvRecord_gets (ccsRec_fits (show 6 ≤ scratchLen by omega))
  refine ⟨rec, (recordProtect_gets hmax hseal).sends_bind sendRecord_gets, ?_⟩
  rw [recvClientFinished]
  refine hfirst.reads_bind ?_
  rw [if_pos (show ccsRec.isCcs = true from rfl), recvClientFinished]
  refine (recvRecord_gets hfits).last ?_
  rw [if_neg (show ¬ (⟨recAppdata, rec⟩ : Rec).isCcs = true from Bool.false_ne_true)]
  refine .failIf_bind (not_not.2 rfl) (.failIf_bind ?_ ?_)
  · show ¬ rec.length > finCap + 5 + 16
    omega
  have hgap : out.gap rec = none := OutRegion.gap_eq_none fun off hoff => by
    have hfar := hclear off hoff
    omega
  rw [recordUnprotectInto_eq hgap]
  refine (recordUnprotect_gets (by omega) hopen).reads_bind (.failIf_bind ?_ (failIf_gets ?_))
  · rintro (h | h | h)
    · exact h rfl
    · exact h hlen
    · exact h rfl
  · exact not_not.2 rfl

end Finished

/-! ### The sessions -/

section Establish

variable {P : Platform} {keys : HsKeys} {emptyHash th mac b : Bytes}
  {scratchLen finCap fuel : Nat} {out : OutRegion} {sess sess' : Session}

theorem establishClient_goes (h : sessionEstablishClient P .zero keys.hs emptyHash (zeros 32) th
    scratchLen = (.ok (), sess)) :
    (establishClient P keys emptyHash th scratchLen).Goes b [] (.done (.ok (), sess)) b := by
  unfold establishClient
  rw [h]
  exact Proc.goes_emit (.start _ _)

theorem establishServer_goes (h : sessionEstablish P .server sess keys.hs emptyHash (zeros 32) th
    scratchLen = (.ok (), sess')) (hmac : tls13FinishedMac P keys.cHs th 32 .sha256 = .ok mac)
    (hfinished : Prog.Gets (recvClientFinished P scratchLen finCap out keys mac fuel) b [] ()) :
    (establishServer P fuel sess keys emptyHash th scratchLen finCap out).Goes b []
      (.done (.ok (), sess')) [] := by
  have hfin : Prog.Gets (Prog.lift (tls13FinishedMac P keys.cHs th 32 .sha256) >>= fun recvMac =>
      recvClientFinished P scratchLen finCap out keys recvMac fuel) b [] () :=
    .lift_bind hmac hfinished
  unfold establishServer
  rw [h]
  refine Proc.goes_emit ?_
  exact hfin.run_all

end Establish

/-- On every schedule of the two both calls succeed, and the sessions mirror each other. -/
def Meet (client server : Proc Ev (Ret × Session)) (scratchLen scratchLen' : Nat) : Prop :=
  ∃ (our peer : TrafficKeys) (n : Nat), our.Proper ∧ peer.Proper ∧
    Pair.EndsIn ⟨client, server, [], []⟩ n
      ⟨.done (.ok (), .fresh our peer scratchLen),
      .done (.ok (), .fresh peer our scratchLen'), [], []⟩

end WolfNano
