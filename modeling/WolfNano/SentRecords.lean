/-
What an endpoint hands to its transport: whole records, whatever the transport answers and wherever
the stream ends.  Every call returns, with as many rounds as records can stand in the stream.
-/
import WolfNano.Duplex.Monitor
import WolfNano.RetryRules
import WolfNano.HelloLoops
import WolfNano.ChainRule
import WolfNano.Turns

namespace WolfNano

open Duplex

/-- A record as it stands on the wire: one of the types that are sent, the legacy version, and a
length field that covers the rest and keeps the limit. -/
structure IsRecord (b : Bytes) : Prop where
  fits : (⟨b.getD 0 0, b⟩ : Rec).Fits b.length
  type : b.getD 0 0 ∈ [recChangeCipher, recHandshake, recAppdata]
  version : slice b 1 2 = [3, 3]

/-- A record that is sent in two pieces. -/
structure PlainRecord where
  header : Bytes
  fragment : Bytes
  header_length : header.length = 5
  isRecord : IsRecord (header ++ fragment)

/-- What was handed over last: a whole record, the header of one whose fragment is next, or a header
that was refused. -/
inductive WireState where
  | whole
  | half (p : PlainRecord)
  | cut (p : PlainRecord)

/-- What may be handed over next, and where the answer leads. -/
inductive WireStep : WireState → Bytes → Int → WireState → Prop
  | record {b : Bytes} (r : Int) (hb : IsRecord b) : WireStep .whole b r .whole
  | header (p : PlainRecord) : WireStep .whole p.header 5 (.half p)
  | refused (p : PlainRecord) {r : Int} (hr : r ≠ 5) : WireStep .whole p.header r (.cut p)
  | fragment (p : PlainRecord) (r : Int) : WireStep (.half p) p.fragment r .whole

def wire : Monitor WireState := ⟨WireStep⟩

/-- What was handed over of a record that is not whole. -/
def WireState.begun : WireState → Bytes
  | whole => []
  | half p => p.header
  | cut p => p.header

section Wire

variable {g g' : WireState} {buf : Bytes} {r : Int} {tr : List (Act Ev)}

/-- One send takes the monitor from what was begun before it to what is begun after it:
what lies between are whole records. -/
theorem WireStep.records (h : WireStep g buf r g') :
    ∃ recs : List Bytes, (∀ b ∈ recs, IsRecord b) ∧ g.begun ++ buf = recs.flatten ++ g'.begun := by
  cases h with
  | record r hb => exact ⟨[buf], by simpa using hb, by simp [WireState.begun]⟩
  | header p => exact ⟨[], by simp, rfl⟩
  | refused p hr => exact ⟨[], by simp, rfl⟩
  | fragment p r =>
      exact ⟨[p.header ++ p.fragment], by simpa using p.isRecord, by simp [WireState.begun]⟩

/-- Over a whole run, by induction on its actions: all that was handed over is whole
records and what the last state says was begun. -/
theorem follows_records (h : wire.Follows g tr g') :
    ∃ recs : List Bytes, (∀ b ∈ recs, IsRecord b) ∧
      g.begun ++ (sends tr).flatten = recs.flatten ++ g'.begun := by
  induction h with
  | nil g => exact ⟨[], by simp, by simp⟩
  | @sent g g' g'' buf r tr hsend hrest ih =>
      obtain ⟨first, hfirst, hstep⟩ := WireStep.records hsend
      obtain ⟨rest, hall, heq⟩ := ih
      refine ⟨first ++ rest, ?_, ?_⟩
      · intro b hb
        exact (List.mem_append.1 hb).elim (hfirst b) (hall b)
      · rw [sends_sent, List.flatten_cons, ← List.append_assoc, hstep, List.append_assoc, heq,
          List.flatten_append, List.append_assoc]
  | note hrest ih => exact ih
  | got hrest ih => exact ih
  | short hrest ih => exact ih

end Wire

/-- A plaintext record with a fragment that is not empty and keeps the limit. -/
theorem plainRec_isRecord {type : UInt8} {body : Bytes} (hpos : 0 < body.length)
    (hmax : body.length ≤ maxPlaintext + 256) (htype : type = recHandshake) :
    IsRecord (plainHeader type body.length ++ body) := by
  subst htype
  have hlen : (plainHeader recHandshake body.length ++ body).length = 5 + body.length :=
    plainRec_length
  exact ⟨plainRec_fits hpos hmax hlen.ge (show recHandshake ≠ recChangeCipher by decide),
    show recHandshake ∈ [recChangeCipher, recHandshake, recAppdata] by decide, rfl⟩

theorem ccs_isRecord : IsRecord (plainHeader recChangeCipher 1 ++ [1]) :=
  ⟨ccsRec_fits le_rfl, by decide, rfl⟩

/-- What the AEAD seals is a record: its length field covers the content, the type and the
tag, and the limit on the content keeps it in bounds. -/
theorem sealRecord_isRecord {P : Platform} {key iv content rec : Bytes} {seq : UInt64}
    {contentType : UInt8} (h : sealRecord P key iv seq contentType content = some rec)
    (hlen : content.length ≤ maxPlaintext) : IsRecord rec := by
  have hfits := sealRecord_fits h hlen (sealRecord_length h).ge
  obtain ⟨-, -, ct, tag, -, rfl⟩ := sealRecord_eq_some.1 h
  exact ⟨hfits, show recAppdata ∈ [recChangeCipher, recHandshake, recAppdata] by decide, rfl⟩

/-! ### Programs that stop at the first error -/

/-- Where an error may leave the wire; `c` says whether a refused header is one of these places. -/
def WireState.Stopped (c : Prop) : WireState → Prop
  | whole => True
  | half _ => False
  | cut _ => c

/-- With at most `m` bytes to read the program returns and sends whole records; it returns
with `F`. -/
def Orderly {α : Type} (c : Prop) (m : Nat) (F : α → Prop) (p : Shell α) : Prop :=
  ∀ n ≤ m, Prog.Behaves wire (fun a g n' => g = .whole ∧ n' ≤ n ∧ F a)
    (WireState.Stopped c) p .whole n

section Rules

variable {α β : Type} {c : Prop} {m m' cap : Nat} {F F' : α → Prop} {G : β → Prop} {p q : Shell α}
  {f : α → Shell β} {e : Err}

namespace Orderly

/-- One program after another, the second with what the first has left to read. -/
theorem bind (h : Orderly c m F p) (hf : ∀ a, F a → Orderly c m G (f a)) :
    Orderly c m G (p >>= f) := by
  intro n hn
  refine (h n hn).bind fun a g n' ha => ?_
  obtain ⟨rfl, hle, hF⟩ := ha
  exact (hf a hF n' (hle.trans hn)).mono
    (fun _ _ _ hb => ⟨hb.1, hb.2.1.trans hle, hb.2.2⟩) fun _ => id

theorem mono (h : Orderly c m F p) (hF : ∀ a, F a → F' a) : Orderly c m F' p :=
  fun n hn => (h n hn).mono (fun a _ _ ha => ⟨ha.1, ha.2.1, hF a ha.2.2⟩) fun _ => id

theorem pure {a : α} (h : F a) : Orderly c m F (pure a : Shell α) :=
  fun _ _ => .pure ⟨rfl, le_rfl, h⟩

theorem lift {x : Except Err α} (h : ∀ a, x = .ok a → F a) : Orderly c m F (Prog.lift x) :=
  fun _ _ => .lift (fun a ha => ⟨rfl, le_rfl, h a ha⟩) trivial

theorem lift' {x : Except Err α} : Orderly c m (fun a => x = .ok a) (Prog.lift x) :=
  lift fun _ => id

theorem orFail {x : Option α} : Orderly c m (fun a => x = some a) (Prog.orFail x e : Shell α) :=
  fun _ _ => .orFail (fun _ ha => ⟨rfl, le_rfl, ha⟩) trivial

theorem failIf {d : Prop} [Decidable d] :
    Orderly c m (fun _ => ¬ d) (Prog.failIf d e : Shell Unit) :=
  fun _ _ => .failIf (fun hd => ⟨rfl, le_rfl, hd⟩) fun _ => trivial

theorem note {o : Ev} : Orderly c m (fun _ => True) (Prog.note o : Shell Unit) :=
  fun _ _ => .note ⟨rfl, le_rfl, trivial⟩

theorem ite {d : Prop} [Decidable d] (hp : d → Orderly c m F p) (hq : ¬ d → Orderly c m F q) :
    Orderly c m F (if d then p else q) :=
  fun n hn => .ite (fun hd => hp hd n hn) fun hd => hq hd n hn

end Orderly

/-- A record takes its header from what is left to read. -/
theorem recvRecord_behaves {E : WireState → Prop} {n : Nat} (hE : E .whole) :
    Prog.Behaves wire (fun rec g n' => (g = .whole ∧ n' + 5 ≤ n) ∧ rec.Fits cap) E (recvRecord cap)
      .whole n := by
  have hbehaves : Prog.Behaves wire (fun _ g n' => g = .whole ∧ n' + 5 ≤ n) E (recvRecord cap)
      .whole n := by
    have hread : ∀ k n, Prog.Behaves wire (fun _ g n' => g = .whole ∧ n' + k ≤ n) E (ioRecvExact k)
        .whole n := fun k n => by
      refine Prog.Behaves.bind (Q := fun x g n' => g = .whole ∧ ∀ b, x = some b → n' + k ≤ n)
        (.recv (fun hk b _ => ⟨rfl, fun _ _ => by omega⟩) ⟨rfl, fun b h => absurd h (by simp)⟩)
        fun x g n' hx => ?_
      obtain ⟨rfl, hx⟩ := hx
      exact .orFail (fun b hb => ⟨rfl, hx b hb⟩) hE
    refine (hread 5 n).bind fun hdr g n' hhdr => ?_
    obtain ⟨rfl, hle⟩ := hhdr
    refine Prog.Behaves.bind (Q := fun _ g n'' => g = .whole ∧ n'' = n')
      (.failIf (fun _ => ⟨rfl, rfl⟩) fun _ => hE) fun _ g n'' h => ?_
    obtain ⟨rfl, rfl⟩ := h
    refine (hread _ n'').bind fun body g k hbody => ?_
    obtain ⟨rfl, hbody⟩ := hbody
    refine Prog.Behaves.bind (Q := fun _ g n'' => g = .whole ∧ n'' = k)
      (.failIf (fun _ => ⟨rfl, rfl⟩) fun _ => hE) fun _ g n'' h => ?_
    obtain ⟨rfl, rfl⟩ := h
    exact .pure ⟨rfl, by omega⟩
  refine hbehaves.ok.mono (fun rec g n' h => ⟨h.1, ?_⟩) fun _ => id
  obtain ⟨tr, hok⟩ := h.2
  exact (recvRecord_ok.1 hok).1

/-- Reading a record takes at least its header of five bytes from the stream, and this is
what a loop over records has to spend. -/
theorem Orderly.record {f : Rec → Shell α}
    (hf : ∀ rec m', m' + 5 ≤ m → Orderly c m' F (f rec)) :
    Orderly c m F (recvRecord cap >>= f) := by
  intro n hn
  refine (recvRecord_behaves trivial).bind fun rec g n' h => ?_
  obtain ⟨⟨rfl, hle⟩, -⟩ := h
  exact (hf rec n' (by omega) n' le_rfl).mono
    (fun _ _ _ hb => ⟨hb.1, by omega, hb.2.2⟩) fun _ => id

/-- The two sends of a plaintext record. The header alone may be refused, and the
handshake then ends with a half-sent record. -/
theorem sendPlainRecord_orderly {type : UInt8} {body : Bytes}
    (h : IsRecord (plainHeader type body.length ++ body)) :
    Orderly True m (fun _ => True) (sendPlainRecord type body) := by
  intro n hn
  let p : PlainRecord := ⟨_, _, rfl, h⟩
  -- a refused header is the last thing that is sent
  refine Prog.Behaves.bind (Q := fun r g n' => n' = n ∧ (r = 5 ∧ g = .half p ∨ r ≠ 5 ∧ g = .cut p))
    (.send fun r => ?_) fun r g n' hr => ?_
  · by_cases hr : r = 5
    · subst hr
      exact ⟨.half p, .header p, rfl, .inl ⟨rfl, rfl⟩⟩
    · exact ⟨.cut p, .refused p hr, rfl, .inr ⟨hr, rfl⟩⟩
  · obtain ⟨rfl, ⟨rfl, rfl⟩ | ⟨hr, rfl⟩⟩ := hr
    · refine Prog.Behaves.bind (Q := fun _ g k => g = .half p ∧ k = n')
        (.failIf (fun _ => ⟨rfl, rfl⟩) fun hne => absurd rfl hne) fun _ g k hg => ?_
      obtain ⟨rfl, rfl⟩ := hg
      refine Prog.Behaves.bind (Q := fun _ g k' => g = .whole ∧ k' = k)
        (.send fun r => ⟨.whole, .fragment p r, rfl, rfl⟩) fun _ g k' hg => ?_
      obtain ⟨rfl, rfl⟩ := hg
      exact .failIf (fun _ => ⟨rfl, le_rfl, trivial⟩) fun _ => trivial
    · exact Prog.Behaves.bind (Q := fun _ _ _ => False)
        (.failIf (fun hd => hd hr) fun _ => trivial) fun _ _ _ h => h.elim

theorem sendCcs_orderly : Orderly True m (fun _ => True) sendCcs :=
  sendPlainRecord_orderly ccs_isRecord

/-- A sealed record goes out in one send, so it is taken whole or not at all. -/
theorem sendRecord_orderly {rec : Bytes} (h : IsRecord rec) :
    Orderly c m (fun _ => True) (sendRecord rec) := by
  intro n hn
  refine Prog.Behaves.bind (Q := fun _ g k => g = .whole ∧ k = n)
    (.send fun r => ⟨.whole, .record r h, rfl, rfl⟩) fun _ g k hg => ?_
  obtain ⟨rfl, rfl⟩ := hg
  exact .failIf (fun _ => ⟨rfl, le_rfl, trivial⟩) fun _ => trivial

/-- `wn_Record_Protect` gives a record or fails; it sends nothing itself. -/
theorem recordProtect_orderly {P : Platform} {key iv content : Bytes} {seq : UInt64}
    {contentType : UInt8} :
    Orderly c m IsRecord (recordProtect P cap key iv seq contentType content) := by
  refine .bind .failIf fun _ hlen => .bind .note fun _ _ => .mono .orFail fun rec hseal => ?_
  exact sealRecord_isRecord hseal (Nat.not_lt.1 hlen)

theorem recordUnprotect_orderly {P : Platform} {key iv rec : Bytes} {seq : UInt64} :
    Orderly c m (fun _ => True) (recordUnprotect P cap key iv seq rec) :=
  .bind .failIf fun _ _ => .bind .note fun _ _ => .lift fun _ _ => trivial

theorem recordUnprotectInto_orderly {P : Platform} {out : OutRegion} {key iv rec : Bytes}
    {seq : UInt64} : Orderly c m (fun _ => True) (recordUnprotectInto P out key iv seq rec) :=
  recordUnprotectInto_both recordUnprotect_orderly fun _ =>
    .bind .failIf fun _ _ => .bind .note fun _ _ => .lift fun _ _ => trivial

end Rules

/-! ### The handshakes -/

section Handshakes

variable {P : Platform} {X : X509Backend} {c : Prop} {fuel m cap scratchLen : Nat} {rng : P.Rng}

/-- By induction on the fuel, a round for every record that is skipped. -/
theorem recvSkipCcs_orderly (hm : m < 5 * fuel) :
    Orderly c m (fun _ => True) (recvSkipCcs cap fuel) := by
  induction fuel generalizing m with
  | zero => omega
  | succ fuel ih =>
      exact .record fun rec m' hm' => .ite (fun _ => ih (by omega)) fun _ => .pure trivial

/-- The reassembly reads a record in every round, so a round for every five bytes of the
stream is enough. -/
theorem recvHandshake_orderly {accCap tmpCap : Nat} {acc : Bytes} (hm : m < 5 * fuel) :
    Orderly c m (fun _ => True) (recvHandshake accCap tmpCap fuel acc) := by
  induction fuel generalizing m acc with
  | zero => omega
  | succ fuel ih =>
      refine .record fun rec m' hm' => .ite (fun _ => ih (by omega)) fun _ => ?_
      refine .bind .failIf fun _ _ => .bind .failIf fun _ _ => .bind .note fun _ _ => ?_
      refine .ite (fun _ => ih (by omega)) fun _ => .bind .failIf fun _ _ => ?_
      exact .ite (fun _ => ih (by omega)) fun _ => .bind .failIf fun _ _ => .pure trivial

/-- The loop over the server's flight: a record in every round, until the parser is done
with it. -/
theorem pskFlight_orderly {keys : HsKeys} {st : PskFlight} (hm : m < 5 * fuel) :
    Orderly c m (fun _ => True) (pskFlight P scratchLen keys fuel st) := by
  induction fuel generalizing m st with
  | zero => omega
  | succ fuel ih =>
      refine .record fun rec m' hm' => .ite (fun _ => ih (by omega)) fun _ => ?_
      refine .bind .failIf fun _ _ => .bind .failIf fun _ _ =>
        .bind recordUnprotect_orderly fun x _ => ?_
      refine .bind .failIf fun _ _ => .bind .lift' fun y _ => ?_
      exact .ite (fun _ => .pure trivial) fun _ => ih (by omega)

/-- The same for the certificate flight. -/
theorem certFlight_orderly {args : CertArgs} {keys : HsKeys} {st : CertFlight} (hm : m < 5 * fuel) :
    Orderly c m (fun _ => True) (certFlight P X args keys fuel st) := by
  induction fuel generalizing m st with
  | zero => omega
  | succ fuel ih =>
      refine .record fun rec m' hm' => .ite (fun _ => ih (by omega)) fun _ => ?_
      refine .bind .failIf fun _ _ => .bind recordUnprotect_orderly fun x _ =>
        .bind .failIf fun _ _ => ?_
      refine .bind .failIf fun _ _ => .bind .note fun _ _ => .bind .lift' fun y _ => ?_
      exact .ite (fun _ => .pure trivial) fun _ => ih (by omega)

/-- A server skips ChangeCipherSpec records, each of at least five bytes, and then opens
one. -/
theorem recvClientFinished_orderly {finCap : Nat} {out : OutRegion} {keys : HsKeys}
    {recvMac : Bytes} (hm : m < 5 * fuel) :
    Orderly c m (fun _ => True)
      (recvClientFinished P scratchLen finCap out keys recvMac fuel) := by
  induction fuel generalizing m with
  | zero => omega
  | succ fuel ih =>
      refine .record fun rec m' hm' => .ite (fun _ => ih (by omega)) fun _ => ?_
      refine .bind .failIf fun _ _ => .bind .failIf fun _ _ => ?_
      refine .bind recordUnprotectInto_orderly fun x _ => ?_
      exact .bind .failIf fun _ _ => .mono .failIf fun _ _ => trivial

/-- The ClientHello of the certificate client fits one record, for a name of every length
the writer takes. -/
theorem certHello_isRecord {st : ClientStart P} {serverName : Option CStr} {msg : Bytes}
    (hst : clientStart P rng = .ok st)
    (h : clientHelloBuildEx P.build cap st.random32 st.sid 32 st.cliPub serverName = .ok msg) :
    IsRecord (plainHeader recHandshake msg.length ++ msg) := by
  obtain ⟨hrandom, hsid, hpub⟩ := clientStart_lengths hst
  obtain ⟨name, hname⟩ : ∃ name, (serverName.map Subtype.val).getD [] = name := ⟨_, rfl⟩
  obtain ⟨F, hF, hdef⟩ := @clientHelloBuildEx_appends P.build name st.cliPub st.random32
    st.sid hrandom
  have hcall := hdef cap serverName hname
  rw [hsid, h] at hcall
  split at hcall
  · cases hcall
  next hargs =>
    split at hcall
    · cases hcall
    next hok =>
      have hshort : name.length ≤ 255 := by
        by_contra hlong
        exact hargs (.inr (.inr (Nat.not_le.1 hlong)))
      have hsize := offerHello_length_le hrandom hsid hpub hshort
      have hrun := @Writer.Appends.init _ _ hF (by omega) cap
      split at hrun
      · have hmsg : msg = (offerHello P.build name st.cliPub st.random32 st.sid).encode := by
          rw [hrun] at hcall
          exact Except.ok.inj hcall
        rw [hmsg]
        refine plainRec_isRecord ?_ (hsize.trans (by decide)) rfl
        rw [HelloParts.encode_size, HelloParts.extsAt]
        omega
      · exact absurd hrun hok

/-- The ClientHello of the PSK client fits one record where its identity leaves the room.
-/
theorem pskHello_isRecord {args : PskArgs} {st : ClientStart P} {early msg : Bytes}
    (hst : clientStart P rng = .ok st) (h : pskClientHello P args st = .ok (early, msg))
    (hsize : pskHelloOverhead P.build + args.identity.val.length ≤ 2 ^ 14) :
    IsRecord (plainHeader recHandshake msg.length ++ msg) := by
  obtain ⟨hrandom, hsid, hpub⟩ := clientStart_lengths hst
  obtain ⟨hello, binder, hfits, hhello, hbinder, rfl⟩ := pskClientHello_ok h
  have hbinderLen := pskBinder_length hbinder
  have hmsg := (buildClientHello_fits hrandom hsid hpub (by unfold pskHelloOverhead at hsize; omega)
    hhello hfits hbinderLen).1
  rw [hmsg]
  have hlen := @pskOffer_length P.build st.random32 st.sid st.cliPub args.identity.val binder
    hrandom hsid hpub hbinderLen
  refine plainRec_isRecord ?_ ?_ rfl
  · rw [hlen, pskHelloOverhead]
    omega
  · rw [hlen]
    exact hsize.trans (by decide)

/-- A HelloRetryRequest is short whatever it echoes. -/
theorem retry_isRecord {b : Bytes} (h : IsRetry P.build b) :
    IsRecord (plainHeader recHandshake b.length ++ b) := by
  obtain ⟨sessionId, cipher, exts, hsid, hexts, rfl⟩ := h.form
  have hrandom : hrrRandom.length = 32 := rfl
  refine plainRec_isRecord ?_ ?_ rfl
  · rw [serverHelloBytes_length]
    omega
  · rw [serverHelloBytes_length, maxPlaintext]
    omega

/-- So is a ServerHello: the session id it echoes was bounded by the parser, and the share
by its group. -/
theorem serverHello_isRecord {hello : Hello} {random32 srvPub ecdhe sh peer : Bytes}
    {ks : KeyShare P} {rng' : P.Rng} {includePsk : Bool} (hrandom : random32.length = 32)
    (hparsed : clientHelloParse P.build hello.msg = .ok hello.ch)
    (hshare : keyShareServerShare P ks peer rng = .ok (srvPub, ecdhe, rng'))
    (hbuild : serverHelloBuild cap random32
      (helloBytes hello.msg hello.ch.sessionId hello.ch.sessionIdLen) hello.ch.sessionIdLen
      hello.ch.cipher hello.ch.group srvPub 0 includePsk = .ok sh) :
    IsRecord (plainHeader recHandshake sh.length ++ sh) := by
  obtain ⟨hlen, hmax⟩ := clientHelloParse_sid hparsed
  have hpub := keyShareServerShare_length hshare
  obtain ⟨sid, hsid⟩ : ∃ sid, helloBytes hello.msg hello.ch.sessionId hello.ch.sessionIdLen = sid :=
    ⟨_, rfl⟩
  rw [hsid] at hlen hbuild
  rw [← hlen] at hbuild hmax
  obtain ⟨exts, -, hexts, hmsg⟩ := serverHelloBuild_form hrandom hmax (by omega) hbuild
  rw [hmsg]
  refine plainRec_isRecord ?_ ?_ rfl
  · rw [serverHelloBytes_length]
    omega
  · rw [serverHelloBytes_length, maxPlaintext]
    omega

/-- The client's read of the ServerHello behind any ChangeCipherSpec. -/
theorem recvServerHello_orderly {pskSelected : Int} {sid : Bytes} {ks : KeyShare P}
    {tc : Transcript} (hm : m < 5 * fuel) :
    Orderly c m (fun _ => True) (recvServerHello P fuel cap pskSelected sid ks tc) := by
  refine .bind (recvSkipCcs_orderly hm) fun rec _ => .bind .failIf fun _ _ =>
    .bind .lift' fun sh _ => ?_
  refine .bind .failIf fun _ _ => .bind .lift' fun _ _ => .bind .failIf fun _ _ => ?_
  exact .bind .lift' fun _ _ => .pure trivial

/-- The client's Finished is one sealed record. -/
theorem sendClientFinished_orderly {keys : HsKeys} {mac : Bytes} :
    Orderly c m (fun _ => True) (sendClientFinished P cap keys mac) :=
  .bind recordProtect_orderly fun _ hrec => sendRecord_orderly hrec

-- the hello would be evaluated otherwise
seal pskClientHello in
/-- The PSK client up to its session. A refused header is possible here, as the
ClientHello goes out in two sends. -/
theorem connectPskBody_orderly {args : PskArgs} (hm : m < 5 * fuel)
    (hsize : pskHelloOverhead P.build + args.identity.val.length ≤ 2 ^ 14) :
    Orderly True m (fun _ => True) (connectPskBody P fuel rng args) := by
  refine .bind .lift' fun st hst => .bind .lift' fun hello hhello => ?_
  obtain ⟨early, msg⟩ := hello
  have hrecord := pskHello_isRecord hst hhello hsize
  refine .bind .lift' fun tc _ => .bind (sendPlainRecord_orderly hrecord) fun _ _ => ?_
  refine .bind sendCcs_orderly fun _ _ => .bind (recvServerHello_orderly hm) fun shared _ => ?_
  refine .bind .lift' fun _ _ => .bind .lift' fun keys _ => .bind .note fun _ _ => ?_
  refine .bind (pskFlight_orderly hm) fun flight _ => .bind .lift' fun _ _ =>
    .bind .lift' fun mac _ => ?_
  exact .bind sendClientFinished_orderly fun _ _ => .pure trivial

/-- The certificate client up to its keys. -/
theorem connectCertHello_orderly {args : CertArgs} (hm : m < 5 * fuel) :
    Orderly True m (fun _ => True) (connectCertHello P fuel rng args) := by
  refine .bind .lift' fun st hst => .bind .lift' fun hello hhello => .bind .lift' fun tc _ => ?_
  refine .bind (sendPlainRecord_orderly (certHello_isRecord hst hhello)) fun _ _ => ?_
  refine .bind sendCcs_orderly fun _ _ => .bind (recvServerHello_orderly hm) fun shared _ => ?_
  refine .bind .lift' fun _ _ => .bind .lift' fun _ _ => .bind .lift' fun keys _ => ?_
  exact .bind .note fun _ _ => .pure trivial

/-- The certificate client from its keys to the Finished of the server: it only reads. -/
theorem connectCertFlight_orderly {args : CertArgs} {keys : HsKeys} {tc : Transcript}
    (hm : m < 5 * fuel) :
    Orderly c m (fun _ => True) (connectCertFlight P X fuel args keys tc) :=
  .bind (certFlight_orderly hm) fun _ _ => .bind .lift' fun _ _ => .bind .lift' fun _ _ =>
    .pure trivial

/-- A server reads a ClientHello, and what it goes on with is what the parser made of it.
-/
theorem readHello_orderly (hm : m < 5 * fuel) :
    Orderly c m (fun x => clientHelloParse P.build x.1 = .ok x.2) (readHello P fuel scratchLen) :=
  .bind (recvHandshake_orderly hm) fun _ _ => .bind .lift' fun _ hparsed => .pure hparsed

/-- With a retry between the two hellos or without. -/
theorem acceptHello_orderly {tc : Transcript} (hm : m < 5 * fuel) :
    Orderly True m (fun hello => clientHelloParse P.build hello.msg = .ok hello.ch)
      (acceptHello P fuel scratchLen tc) := by
  rw [acceptHello_eq]
  refine .bind (readHello_orderly hm) fun first hfirst =>
    .bind (F := fun last => clientHelloParse P.build last.1 = .ok last.2.1) ?_ fun last hlast =>
      .pure hlast
  by_cases hshare : first.2.haveKeyShare = false
  · rw [acceptMaybeHrr_eq hshare]
    obtain ⟨hlen, hmax⟩ := clientHelloParse_sid hfirst
    refine .bind (F := fun last => clientHelloParse P.build last.1 = .ok last.2.1) ?_
      fun last hlast => .bind .failIf fun _ _ => .pure hlast
    refine .bind .lift' fun _ _ => .bind .lift' fun _ _ => .bind .lift' fun hrr hbuild => ?_
    have hretry : IsRetry P.build hrr :=
      ⟨128, helloBytes first.1 first.2.sessionId first.2.sessionIdLen, first.2.cipher, by omega,
        by rwa [hlen]⟩
    refine .bind .lift' fun _ _ => .bind (sendPlainRecord_orderly (retry_isRecord hretry))
      fun _ _ => ?_
    refine .bind sendCcs_orderly fun _ _ => .bind (readHello_orderly hm) fun second hsecond => ?_
    exact .pure hsecond
  · unfold acceptMaybeHrr
    rw [if_pos (Bool.not_eq_false _ ▸ hshare)]
    exact .pure hfirst

/-- The ServerHello, and the ChangeCipherSpec behind it unless the retry has brought one.
-/
theorem sendServerHello_orderly {random32 : Bytes} {hello : Hello} {includePsk : Bool}
    {tc : Transcript} (hrandom : random32.length = 32)
    (hparsed : clientHelloParse P.build hello.msg = .ok hello.ch) :
    Orderly True m (fun _ => True)
      (sendServerHello P scratchLen random32 hello tc includePsk rng) := by
  refine .bind .lift' fun ks _ => .bind .lift' fun share hshare => .bind .lift' fun sh hbuild => ?_
  have hrecord := serverHello_isRecord hrandom hparsed hshare hbuild
  refine .bind .lift' fun _ _ => .bind (sendPlainRecord_orderly hrecord) fun _ _ => ?_
  exact .ite (fun _ => .pure trivial) fun _ => .bind sendCcs_orderly fun _ _ => .pure trivial

/-- The PSK server's flight is one sealed record. -/
theorem sendPskFlight_orderly {keys : HsKeys} {tc : Transcript} :
    Orderly c m (fun _ => True) (sendPskFlight P scratchLen keys tc) := by
  refine .bind .lift' fun _ _ => .bind .lift' fun _ _ => .bind .lift' fun _ _ => ?_
  refine .bind .lift' fun _ _ => .bind .note fun _ _ => .bind .lift' fun _ _ => ?_
  exact .bind recordProtect_orderly fun _ hrec => .bind (sendRecord_orderly hrec) fun _ _ =>
    .pure trivial

/-- The certificate server's flight is one sealed record as well. -/
theorem sendCertFlight_orderly {args : ServerCertArgs} {keys : HsKeys} {tc : Transcript} :
    Orderly c m (fun _ => True) (sendCertFlight P args keys tc rng) := by
  refine .bind .lift' fun _ _ => .bind .lift' fun _ _ => .bind .lift' fun _ _ =>
    .bind .lift' fun _ _ => ?_
  refine .bind .lift' fun _ _ => .bind .lift' fun _ _ => .bind .lift' fun _ _ =>
    .bind .lift' fun _ _ => ?_
  refine .bind .lift' fun _ _ => .bind .failIf fun _ _ => .bind .note fun _ _ =>
    .bind .lift' fun _ _ => ?_
  exact .bind recordProtect_orderly fun _ hrec => .bind (sendRecord_orderly hrec) fun _ _ =>
    .pure trivial

/-- Both servers up to their session. -/
theorem serverBody_orderly {srv : Server} (hm : m < 5 * fuel) :
    Orderly True m (fun _ => True) (srv.body P fuel rng) := by
  cases srv with
  | psk args =>
      refine .bind .lift' fun start hstart => .bind (acceptHello_orderly hm) fun hello hhello => ?_
      refine .bind .lift' fun _ _ =>
        .bind (sendServerHello_orderly (serverStart_random hstart) hhello) fun _ _ => ?_
      refine .bind .lift' fun _ _ => .bind .lift' fun _ _ => .bind .note fun _ _ => ?_
      exact .bind sendPskFlight_orderly fun _ _ => .bind .lift' fun _ _ => .pure trivial
  | cert args =>
      refine .bind .lift' fun start hstart => .bind (acceptHello_orderly hm) fun hello hhello => ?_
      refine .bind .failIf fun _ _ => .bind .lift' fun _ _ =>
        .bind (sendServerHello_orderly (serverStart_random hstart) hhello) fun _ _ => ?_
      refine .bind .lift' fun _ _ => .bind .lift' fun _ _ => .bind .lift' fun _ _ => ?_
      refine .bind .note fun _ _ => .bind sendCertFlight_orderly fun _ _ => ?_
      exact .bind .lift' fun _ _ => .pure trivial

end Handshakes

/-! ### Calls -/

/-- Where a call may leave the wire: a refused header is the last thing of a call that failed. -/
def Ended (ret : Ret) (g : WireState) : Prop := g = .whole ∨ ret ≠ .ok () ∧ ∃ p, g = .cut p

theorem WireState.Stopped.ended {c : Prop} {g : WireState} {e : Err} (h : g.Stopped c) :
    Ended (.error e) g := by
  cases g with
  | whole => exact .inl rfl
  | half p => exact h.elim
  | cut p => exact .inr ⟨by simp, p, rfl⟩

theorem WireState.Stopped.eq_whole {g : WireState} (h : g.Stopped False) : g = .whole := by
  cases g with
  | whole => rfl
  | half p => exact h.elim
  | cut p => exact h.elim

section Calls

variable {P : Platform} {X : X509Backend} {fuel n scratchLen : Nat} {rng : P.Rng} {s sess : Session}

/-- A protected record is sent in one piece. -/
theorem protected_behaves {α : Type} {Q : α → WireState → Nat → Prop} {cap : Nat}
    {key iv content : Bytes} {seq : UInt64} {contentType : UInt8} {k : Except Err Bytes → Proc Ev α}
    {f : Bytes → Int → Proc Ev α} (hsend : ∀ rec, k (.ok rec) = Proc.write rec >>= f rec)
    (hfail : ∀ e n', (k (.error e)).Behaves wire Q .whole n')
    (hsent : ∀ rec r n', n' ≤ n → (f rec r).Behaves wire Q .whole n') :
    ((recordProtect P cap key iv seq contentType content).run >>= k).Behaves wire Q .whole n := by
  refine Prog.Behaves.run (recordProtect_orderly (c := False) n le_rfl) (fun rec g n' h => ?_)
    fun e g n' h => h.eq_whole ▸ hfail e n'
  obtain ⟨rfl, hle, hrec⟩ := h
  rw [hsend]
  exact fun r => ⟨.whole, .record r hrec, hsent rec r n' hle⟩

/-- An alert is a sealed record, and whether it was taken does not matter. -/
theorem sendAlert_behaves {keys : HsKeys} {seq : UInt64} {e : Err} :
    (sendAlert P keys seq e).Behaves wire (fun _ g _ => g = .whole) .whole n := by
  unfold sendAlert
  split
  · exact protected_behaves (fun _ => rfl) (fun _ _ => rfl) fun _ _ _ _ => rfl
  · rfl

/-- What a client does at the end sends nothing. -/
theorem establishClient_behaves {keys : HsKeys} {emptyHash th : Bytes} :
    (establishClient P keys emptyHash th scratchLen).Behaves wire (fun _ g _ => g = .whole)
      .whole n := by
  unfold establishClient
  split
  · rfl
  · rfl

/-- The PSK client over its whole run: with a round for every five bytes of the stream it
returns, and it sends whole records but for a header that was refused. -/
theorem connectPskEx_behaves {args : PskArgs} (hn : n < 5 * fuel)
    (hsize : pskHelloOverhead P.build + args.identity.val.length ≤ 2 ^ 14) :
    (connectPskEx P fuel rng args sess).Behaves wire (fun x g _ => Ended x.1 g) .whole n := by
  unfold connectPskEx
  split
  · exact .inl rfl
  · refine Prog.Behaves.run (connectPskBody_orderly hn hsize n le_rfl) (fun x g n' h => ?_)
      fun e g n' h => h.ended
    obtain ⟨rfl, -, -⟩ := h
    exact establishClient_behaves.mono fun _ _ _ h => .inl h

/-- The same for the certificate client, which sends an alert when its flight fails. -/
theorem connectCertImpl_behaves {args : CertArgs} (hn : n < 5 * fuel) :
    (connectCertImpl P X fuel rng args sess).Behaves wire (fun x g _ => Ended x.1 g) .whole n := by
  have halert : ∀ {keys : HsKeys} {seq : UInt64} {e : Err} {ret : Ret} {sess : Session} {n : Nat},
      (sendAlert P keys seq e >>= fun _ => pure (ret, sess)).Behaves wire (fun x g _ => Ended x.1 g)
        .whole n :=
    sendAlert_behaves.bind fun _ _ _ h => .inl h
  unfold connectCertImpl
  split
  · exact .inl rfl
  · refine Prog.Behaves.run (connectCertHello_orderly hn n le_rfl) (fun x g n' h => ?_)
      fun e g n' h => h.ended
    obtain ⟨rfl, hle, -⟩ := h
    have hflight : Orderly False n' (fun _ => True) (connectCertFlight P X fuel args x.1 x.2.2) :=
      connectCertFlight_orderly (hle.trans_lt hn)
    refine Prog.Behaves.run (hflight n' le_rfl) (fun y g n'' h => ?_) fun e g n'' h =>
      h.eq_whole ▸ halert
    obtain ⟨rfl, -, -⟩ := h
    have hfin : Orderly False n'' (fun _ => True) (sendClientFinished P args.scratchLen x.1 y.2) :=
      sendClientFinished_orderly
    refine Prog.Behaves.run (hfin n'' le_rfl) (fun _ g k h => ?_) fun e g k h => h.eq_whole ▸ halert
    obtain ⟨rfl, -, -⟩ := h
    refine establishClient_behaves.bind fun z g k' h => ?_
    subst h
    obtain ⟨e | _, sess'⟩ := z
    · exact halert
    · exact .inl rfl

/-- A server at the end reads the client's Finished and sends nothing. -/
theorem establishServer_behaves {keys : HsKeys} {emptyHash th : Bytes} {finCap : Nat}
    {out : OutRegion} (hn : n < 5 * fuel) :
    (establishServer P fuel sess keys emptyHash th scratchLen finCap out).Behaves wire
      (fun _ g _ => g = .whole) .whole n := by
  unfold establishServer
  split
  · rfl
  · have hfin : Orderly False n (fun _ => True)
        (Prog.lift (tls13FinishedMac P keys.cHs th 32 .sha256) >>=
        fun recvMac => recvClientFinished P scratchLen finCap out keys recvMac fuel) :=
      .bind .lift' fun _ _ => recvClientFinished_orderly hn
    exact Prog.Behaves.run (hfin n le_rfl) (fun _ _ _ h => h.1) fun _ _ _ h => h.eq_whole

/-- Both servers over their whole runs. -/
theorem accept_behaves {srv : Server} (hn : n < 5 * fuel) :
    (srv.accept P fuel rng sess).Behaves wire (fun x g _ => Ended x.1 g) .whole n := by
  have hbody : ∀ {k : Except Err (HsKeys × Bytes × Bytes) → Proc Ev (Ret × Session)},
      (∀ e, k (.error e) = pure (.error e, .zero)) →
      (∀ x, ∃ scratchLen finCap out, k (.ok x) =
        establishServer P fuel sess x.1 x.2.1 x.2.2 scratchLen finCap out) →
      ((srv.body P fuel rng).run >>= k).Behaves wire (fun x g _ => Ended x.1 g) .whole n := by
    intro k herr hok
    refine Prog.Behaves.run (serverBody_orderly hn n le_rfl) (fun x g n' h => ?_) fun e g n' h => ?_
    · obtain ⟨rfl, hle, -⟩ := h
      obtain ⟨scratchLen, finCap, out, heq⟩ := hok x
      rw [heq]
      exact (establishServer_behaves (hle.trans_lt hn)).mono fun _ _ _ h => .inl h
    · rw [herr]
      exact h.ended
  cases srv with
  | psk args =>
      show (acceptPskEx P fuel rng args sess).Behaves wire (fun x g _ => Ended x.1 g) .whole n
      unfold acceptPskEx
      split
      · exact .inl rfl
      · exact hbody (fun _ => rfl) fun _ => ⟨_, _, _, rfl⟩
  | cert args =>
      show (acceptCertEx P fuel rng args sess).Behaves wire (fun x g _ => Ended x.1 g) .whole n
      unfold acceptCertEx
      split
      · exact .inl rfl
      · exact hbody (fun _ => rfl) fun _ => ⟨_, _, _, rfl⟩

/-- The rotation of the write key neither reads nor sends. -/
theorem rotateWrite_behaves :
    (rotateWrite P s).Behaves wire (fun _ g n' => g = .whole ∧ n' = n) .whole n := by
  unfold rotateWrite
  split
  · exact ⟨rfl, rfl⟩
  · split
    · exact ⟨rfl, rfl⟩
    · exact ⟨rfl, rfl⟩

/-- The answer to a KeyUpdate is one sealed record, before the rotation. -/
theorem sendKeyUpdate_behaves :
    (sendKeyUpdate P s).Behaves wire (fun x g n' => g = .whole ∧ (x.1 = .ok () → n' ≤ n))
      .whole n := by
  refine protected_behaves (fun _ => rfl) (fun _ _ => ⟨rfl, fun hok => by cases hok⟩)
    fun rec r n' hle => ?_
  split
  · exact ⟨rfl, fun hok => by cases hok⟩
  · exact rotateWrite_behaves.mono fun _ _ _ h => ⟨h.1, fun _ => h.2.trans_le hle⟩

theorem Reader.u24_value {r : Reader} : r.u24.1 < 2 ^ 24 := by
  unfold u24 uint
  split
  · calc ofBE (slice r.buf r.pos 3) < 256 ^ (slice r.buf r.pos 3).length := ofBE_lt _
      _ ≤ 256 ^ 3 := Nat.pow_le_pow_right (by decide) (List.length_take_le 3 _)
  · exact Nat.two_pow_pos 24

/-- One post-handshake message: the reader moves behind its header and body, and a
KeyUpdate that asks for it is answered. -/
theorem posthsMsg_behaves {msg : Bytes} {r : Reader} (hmsg : msg.length < 2 ^ 31)
    (hr : r.Inside msg) :
    (posthsMsg P s r).Behaves wire (fun x g n' => g = .whole ∧
      ∀ r', x.1 = .ok r' → n' ≤ n ∧ r.Moves msg 1 r') .whole n := by
  have hhdr := (Reader.u8_moves hr).trans
    (Reader.uint_moves hmsg (Reader.u8_moves hr).inside (by decide : 3 < 2 ^ 24))
  have hreq := (hhdr.trans (Reader.u8_moves hhdr.inside)).weaken (k := 1) (by omega)
  unfold posthsMsg
  dsimp only
  split
  · refine ⟨rfl, fun r' h => ?_⟩
    cases h
    exact ⟨le_rfl, (hhdr.trans (Reader.bytes_moves hmsg hhdr.inside Reader.u24_value)).weaken
      (by omega)⟩
  · split
    · split
      · exact ⟨rfl, fun r' h => by cases h⟩
      · split
        · exact ⟨rfl, fun r' h => by cases h⟩
        · split
          · refine sendKeyUpdate_behaves.bind fun x g n' h => ?_
            obtain ⟨e | _, s'⟩ := x
            · exact ⟨h.1, fun r' h => by cases h⟩
            · refine ⟨h.1, fun r' hr' => ?_⟩
              cases hr'
              exact ⟨h.2 rfl, hreq⟩
          · refine ⟨rfl, fun r' h => ?_⟩
            cases h
            exact ⟨le_rfl, hreq⟩
    · exact ⟨rfl, fun r' h => by cases h⟩

/-- Every message takes a byte, so there are enough rounds for a record. -/
theorem posthsLoop_behaves {msg : Bytes} {r : Reader} (hmsg : msg.length < 2 ^ 31)
    (hr : r.Inside msg) (hfuel : msg.length - r.pos < fuel) :
    (posthsLoop P fuel s r).Behaves wire (fun x g n' => g = .whole ∧ (x.1 = .ok () → n' ≤ n))
      .whole n := by
  induction fuel generalizing s r n with
  | zero => omega
  | succ fuel ih =>
      unfold posthsLoop
      split
      · refine (posthsMsg_behaves hmsg hr).bind fun x g n' h => ?_
        obtain ⟨rfl, hmoves⟩ := h
        obtain ⟨e | r', s'⟩ := x
        · exact ⟨rfl, fun hok => by cases hok⟩
        · obtain ⟨hle, hnext⟩ := hmoves r' rfl
          change Proc.Behaves wire _ (if r'.err then _ else _) .whole n'
          split
          · exact ⟨rfl, fun hok => by cases hok⟩
          · rename_i herr
            have hgain := (hnext.gain (Bool.eq_false_iff.2 herr)).2
            have hlen := congrArg List.length hr.1
            exact (ih hnext.inside (by omega)).mono fun _ _ _ h =>
              ⟨h.1, fun hok => (h.2 hok).trans hle⟩
      · exact ⟨rfl, fun _ => le_rfl⟩

/-- A record that was dealt with takes its header from what is left to read. -/
theorem recvOne_behaves {outCap : Nat} :
    (recvOne P s outCap).Behaves wire (fun x g n' => g = .whole ∧ (x.1 = .ok none → n' + 5 ≤ n))
      .whole n := by
  refine Prog.Behaves.run (recvRecord_behaves (E := fun g => g = .whole) rfl) (fun rec g n' h => ?_)
    fun e g n' h => ⟨h, fun hok => by cases hok⟩
  obtain ⟨⟨rfl, hle⟩, hfits⟩ := h
  change Proc.Behaves wire _ (if rec.isCcs then _ else _) .whole n'
  split
  · exact ⟨rfl, fun hok => by cases hok⟩
  · have hopen : Orderly False n' (fun _ => True) (recordUnprotect P (s.scratchLen - recordHeaderSz)
        s.sKey s.sIv s.sSeq rec.bytes) := recordUnprotect_orderly
    refine Prog.Behaves.run (hopen n' le_rfl).ok (fun x g k h => ?_) fun e g k h =>
      ⟨h.eq_whole, fun hok => by cases hok⟩
    obtain ⟨⟨rfl, hk, -⟩, tr, hok⟩ := h
    obtain ⟨contentType, plain⟩ := x
    have hplain := openRecord_length (recordUnprotect_ok.1 hok).2.1
    have hmax := hfits.le_max
    have hmsg : plain.length < 2 ^ 31 := by
      rw [maxPlaintext] at hmax
      dsimp only at hplain hmax
      omega
    change Proc.Behaves wire _ (if contentType = recAppdata then _ else _) .whole k
    split
    · split
      · exact ⟨rfl, fun hok => by cases hok⟩
      · exact ⟨rfl, fun hok => by cases hok⟩
    · split
      · refine (posthsLoop_behaves hmsg ⟨rfl, Nat.zero_le _⟩ (by omega)).bind fun y g k' h => ?_
        obtain ⟨rfl, hy⟩ := h
        obtain ⟨e | _, s'⟩ := y
        · exact ⟨rfl, fun hok => by cases hok⟩
        · have hk' := hy rfl
          exact ⟨rfl, fun _ => by omega⟩
      · split
        · split
          · exact ⟨rfl, fun hok => by cases hok⟩
          · exact ⟨rfl, fun hok => by cases hok⟩
        · exact ⟨rfl, fun hok => by cases hok⟩

/-- The loop of `wn_Recv` reads a record in every round, so it ends on a stream that ends.
-/
theorem recvLoop_behaves {outCap : Nat} (hn : n < 5 * fuel) :
    (recvLoop P fuel s outCap).Behaves wire (fun _ g _ => g = .whole) .whole n := by
  induction fuel generalizing s n with
  | zero => omega
  | succ fuel ih =>
      refine recvOne_behaves.bind fun x g n' h => ?_
      obtain ⟨rfl, hx⟩ := h
      obtain ⟨e | _ | plain, s'⟩ := x
      · rfl
      · have hle := hx rfl
        exact ih (by omega)
      · rfl

/-- `wn_Send` hands over one sealed record or nothing. -/
theorem wnSend_behaves {data : Option Bytes} :
    (wnSend P s data).Behaves wire (fun _ g _ => g = .whole) .whole n := by
  unfold wnSend
  split
  · rfl
  · rfl
  · split
    · rfl
    · refine protected_behaves (fun _ => rfl) (fun _ _ => rfl) fun rec r n' _ => ?_
      split
      · rfl
      · rfl

/-- `wn_Recv` hands over nothing but answers to KeyUpdates. -/
theorem wnRecv_behaves {out : Option Bytes} {outCap : Nat} {outLen : Option Nat}
    (hn : n < 5 * fuel) :
    (wnRecv P fuel s out outCap outLen).Behaves wire (fun _ g _ => g = .whole) .whole n := by
  unfold wnRecv
  split
  · refine (recvLoop_behaves hn).bind fun x g n' h => ?_
    obtain ⟨e | plain, s'⟩ := x
    · exact h
    · exact h
  · rfl
  · rfl

/-- `wn_Close` hands over at most the record of its alert. -/
theorem wnClose_behaves : (wnClose P s).Behaves wire (fun _ g _ => g = .whole) .whole n := by
  unfold wnClose
  split
  · exact protected_behaves (fun _ => rfl) (fun _ _ => rfl) fun _ _ _ _ => rfl
  · rfl

end Calls

/-- On the bytes of `t` and whatever the transport answers, the call returns, and what it
handed over is whole records and, after them, what `Rest` allows. -/
def SendsRecords {α σ : Type} (answer : σ → Bytes → Int × σ) (t : Tape σ) (Rest : α → Bytes → Prop)
    (p : Proc Ev α) : Prop :=
  ∃ (a : α) (t' : Tape σ) (tr : List (Act Ev)) (recs : List Bytes) (rest : Bytes),
    p.exec (Tape.handler answer) t = some (a, t', tr) ∧ (∀ b ∈ recs, IsRecord b) ∧
      (sends tr).flatten = recs.flatten ++ rest ∧ Rest a rest

/-- Nothing, or after an error the header of a record. -/
def RefusedHeader (x : Ret × Session) (rest : Bytes) : Prop :=
  rest = [] ∨ x.1 ≠ .ok () ∧ rest.length = 5 ∧ ∃ fragment, IsRecord (rest ++ fragment)

theorem Ended.refusedHeader {x : Ret × Session} {g : WireState} (h : Ended x.1 g) :
    RefusedHeader x g.begun := by
  obtain rfl | ⟨hret, p, rfl⟩ := h
  · exact .inl rfl
  · exact .inr ⟨hret, p.header_length, p.fragment, p.isRecord⟩

/-- From the monitor to the bytes: a program that behaves hands over whole records. -/
theorem sendsRecords {α σ : Type} {answer : σ → Bytes → Int × σ} {t : Tape σ} {p : Proc Ev α}
    {Q : α → WireState → Nat → Prop} {Rest : α → Bytes → Prop}
    (h : p.Behaves wire Q .whole t.bytes.length) (hQ : ∀ a g n, Q a g n → Rest a g.begun) :
    SendsRecords answer t Rest p := by
  obtain ⟨a, t', tr, g, hexec, hfollows, ha⟩ := h.exec
  obtain ⟨recs, hrecs, hsent⟩ := follows_records hfollows
  exact ⟨a, t', tr, recs, g.begun, hexec, hrecs, hsent, hQ a g _ ha⟩

/-- Every call returns on a stream that ends, with a round for every five bytes of it, and
hands over whole records.  A handshake that fails may stop after a header that was refused; a
session never does. -/
theorem sent_records (P : Platform) (X : X509Backend) {σ : Type} (answer : σ → Bytes → Int × σ)
    (t : Tape σ) (fuel : Nat) (hfuel : t.bytes.length < 5 * fuel) :
    (∀ rng args sess, pskHelloOverhead P.build + args.identity.val.length ≤ 2 ^ 14 →
      SendsRecords answer t RefusedHeader (connectPskEx P fuel rng args sess)) ∧
    (∀ rng args sess, SendsRecords answer t RefusedHeader
      (connectCertImpl P X fuel rng args sess)) ∧
    (∀ (srv : Server) rng sess, SendsRecords answer t RefusedHeader (srv.accept P fuel rng sess)) ∧
    (∀ s data, SendsRecords answer t (fun _ rest => rest = []) (wnSend P s data)) ∧
    (∀ s out outCap outLen,
      SendsRecords answer t (fun _ rest => rest = []) (wnRecv P fuel s out outCap outLen)) ∧
    ∀ s, SendsRecords answer t (fun _ rest => rest = []) (wnClose P s) := by
  have hwhole : ∀ {α : Type} (_ : α) (g : WireState) (_ : Nat), g = .whole → g.begun = [] :=
    fun _ _ _ hg => hg ▸ rfl
  refine ⟨fun rng args sess hsize => ?_, fun rng args sess => ?_, fun srv rng sess => ?_,
    fun s data => ?_, fun s out outCap outLen => ?_, fun s => ?_⟩
  · exact sendsRecords (connectPskEx_behaves hfuel hsize) fun _ _ _ => Ended.refusedHeader
  · exact sendsRecords (connectCertImpl_behaves hfuel) fun _ _ _ => Ended.refusedHeader
  · exact sendsRecords (accept_behaves hfuel) fun _ _ _ => Ended.refusedHeader
  · exact sendsRecords wnSend_behaves hwhole
  · exact sendsRecords (wnRecv_behaves hfuel) hwhole
  · exact sendsRecords wnClose_behaves hwhole

theorem sent_records_sample :
    SendsRecords (fun (_ : Unit) buf => (buf.length, ())) ⟨Sample.pskReply, ()⟩ RefusedHeader
      (connectPskEx Sample.platform 100 (7 : Nat) Sample.pskArgs .zero) :=
  (sent_records Sample.platform (nativeBackend Sample.x509Build fun _ _ => false)
    (fun (_ : Unit) buf => (buf.length, ())) ⟨Sample.pskReply, ()⟩ 100 (by decide +kernel)).1 _ _ _
      (by decide)

/-! ### The servers and their retries -/

/-- The rules hold in every run of both servers; and a server that gets a stream that ends
has such a run, whatever the transport answers to its sends. -/
theorem retry_rules (P : Platform) (srv : Server) (rng : P.Rng) (sess : Session) :
    (∀ {fuel : Nat} {s : Session} {tr : List (Act Ev)} {ret : Ret},
      (srv.accept P fuel rng sess).Runs tr (ret, s) → RetryRules P fuel rng srv tr ret) ∧
    ∀ {σ : Type} (answer : σ → Bytes → Int × σ) (t : Tape σ) (fuel : Nat),
      t.bytes.length < 5 * fuel → ∃ ret s t' tr,
        (srv.accept P fuel rng sess).exec (Tape.handler answer) t = some ((ret, s), t', tr) ∧
          RetryRules P fuel rng srv tr ret := by
  refine ⟨fun h => Server.accept_rules h, fun answer t fuel hfuel => ?_⟩
  have hbehaves : (srv.accept P fuel rng sess).Behaves wire (fun x g _ => Ended x.1 g) .whole
      t.bytes.length := accept_behaves hfuel
  obtain ⟨⟨ret, s⟩, t', tr, -, hexec, -⟩ := hbehaves.exec
  exact ⟨ret, s, t', tr, hexec, Server.accept_rules (Proc.exec_runs _ hexec)⟩

namespace Sample

/-- A ClientHello that offers the group and no share. -/
def shareless : Bytes :=
  HelloParts.encode ⟨zeros 32, [7], [0x13, 0x01],
    [⟨extSupportedVer, [2, 3, 4]⟩, ⟨extSupportedGrp, [0, 2, 0, 29]⟩, ⟨extSigAlgs, [0, 2, 8, 7]⟩]⟩

/-- A server that asks for a share and gets it. -/
theorem askingServer_plays :
    (play certServer (plainHeader recHandshake shareless.length ++ shareless ++ certHello)
        false).map (fun x => (x.1.1, (sends x.2.2).length)) = some (.error .crypto, 7) := by
  decide +kernel

end Sample

theorem retry_rules_sample :
    ∃ tr, (sends tr).length = 7 ∧
      RetryRules Sample.platform 4 (100 : Nat) (.cert Sample.serverCertArgs) tr
        (.error .crypto) := by
  obtain ⟨⟨⟨ret, s⟩, left, tr⟩, hruns, hshown⟩ := Sample.play_shows Sample.askingServer_plays
  obtain ⟨rfl, hsent⟩ := Prod.mk.inj hshown
  exact ⟨tr, hsent,
    (retry_rules Sample.platform (.cert Sample.serverCertArgs) (100 : Nat) .zero).1 hruns⟩

end WolfNano
