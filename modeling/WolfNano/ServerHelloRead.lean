/-
`wn_ServerHello_Parse` on whole messages, and the messages of the two encoders: what parses
is the format, field by field, and what an encoder writes is parsed to what it was given.
-/
import WolfNano.ServerHelloForm

namespace WolfNano

open Duplex

/-! ### The format -/

/-- The body of a ServerHello with these extensions. -/
def serverHelloBody (random sessionId : Bytes) (cipher : Nat) (exts : Bytes) : Bytes :=
  u16 0x0303 ++ (random ++ (vec8 sessionId ++ (u16 cipher ++ ([0] ++ vec16 exts))))

def serverHelloBytes (random sessionId : Bytes) (cipher : Nat) (exts : Bytes) : Bytes :=
  [2] ++ (u24 (serverHelloBody random sessionId cipher exts).length ++
    serverHelloBody random sessionId cipher exts)

structure ServerHelloParts where
  random : Bytes
  sessionId : Bytes
  cipher : UInt16
  exts : List ServerExt

namespace ServerHelloParts

def encode (h : ServerHelloParts) : Bytes :=
  serverHelloBytes h.random h.sessionId h.cipher.toNat (h.exts.flatMap ServerExt.encode)

/-- Every part has a length its field can hold, and no kind of extension is there twice. -/
structure WellFormed (h : ServerHelloParts) : Prop where
  random : h.random.length = 32
  sessionId : h.sessionId.length < 2 ^ 8
  exts : (h.exts.flatMap ServerExt.encode).length < 2 ^ 16
  once : (h.exts.map ServerExt.kind).Nodup

/-- The parsed fields are the parts, and the fields of absent extensions are the defaults. -/
structure Reported (h : ServerHelloParts) (msg : Bytes) (out : ServerHello) : Prop where
  random : ∃ off, out.random = some off ∧ At msg off h.random
  sessionId : ∃ off, out.sessionId = some off ∧ At msg off h.sessionId
  sessionIdLen : out.sessionIdLen = h.sessionId.length
  cipher : out.cipher = h.cipher.toNat
  shows : ∀ e ∈ h.exts, e.Shows msg out
  lacks : ∀ k, k ∉ h.exts.map ServerExt.kind → k.Lacks out
  isHelloRetry : out.isHelloRetry = false

end ServerHelloParts

theorem serverHelloBody_length (random sessionId : Bytes) (cipher : Nat) (exts : Bytes) :
    (serverHelloBody random sessionId cipher exts).length =
      random.length + sessionId.length + exts.length + 8 := by
  simp only [serverHelloBody, List.length_append, u16_length, vec8_length, vec16_length,
    List.length_singleton]
  omega

theorem serverHelloBytes_length (random sessionId : Bytes) (cipher : Nat) (exts : Bytes) :
    (serverHelloBytes random sessionId cipher exts).length =
      random.length + sessionId.length + exts.length + 12 := by
  simp only [serverHelloBytes, List.length_append, u24_length, List.length_singleton,
    serverHelloBody_length]
  omega

theorem ServerHelloParts.WellFormed.bodies {h : ServerHelloParts} (hw : h.WellFormed) :
    ∀ e ∈ h.exts, e.body.length < 2 ^ 16 := by
  intro e he
  have hle := @length_le_flatMap _ ServerExt.encode _ _ he
  rw [e.encode_length] at hle
  exact Nat.lt_of_le_of_lt (Nat.le_of_add_left_le hle) hw.exts

/-! ### The parser step by step -/

/-- The extensions of a message of which everything before them has been read. -/
def ServerHelloExts.start (msg : Bytes) (sidLen cipher : Nat) : ServerHelloExts where
  r := .upTo msg (44 + sidLen)
  out := { random := some 6, sessionId := some 39, sessionIdLen := sidLen, cipher := cipher }
  seenKs := false
  seenVer := false
  seenPsk := false

section Message

variable {msg : Bytes} (hmsg : msg.length < 2 ^ 31)

include hmsg

/-- The four fields before the session id. -/
theorem serverHello_front {n v : Nat} {random rest : Bytes} (hn : n < 2 ^ 24) (hv : v < 2 ^ 16)
    (hrandom : random.length = 32)
    (hat : At msg 0 ([2] ++ (u24 n ++ (u16 v ++ (random ++ rest))))) :
    (Reader.init msg).u8 = (2, .upTo msg 1) ∧ (Reader.upTo msg 1).u24 = (n, .upTo msg 4) ∧
      (Reader.upTo msg 4).u16 = (v, .upTo msg 6) ∧
      (Reader.upTo msg 6).bytes 32 = (some 6, .upTo msg 38) ∧ At msg 6 random ∧
      At msg 38 rest := by
  have hafter := hat.right.right.right.right
  rw [hrandom] at hafter
  exact ⟨Reader.u8_at (by decide) hat.left, Reader.u24_at (by decide) hn hat.right.left,
    Reader.u16_at hmsg hv hat.right.right.left,
    Reader.bytes_at hmsg hrandom hat.right.right.right.left, hat.right.right.right.left, hafter⟩

/-- The parser gets to the extensions of a message that is not a retry. -/
theorem serverHelloParse_bytes {random sessionId exts : Bytes} {cipher : Nat}
    (hbytes : serverHelloBytes random sessionId cipher exts = msg) (hrandom : random.length = 32)
    (hsid : sessionId.length < 2 ^ 8) (hcipher : cipher < 2 ^ 16) (hexts : exts.length < 2 ^ 16)
    (hne : random ≠ hrrRandom) :
    serverHelloParse msg =
      if (serverHelloExts msg.length (.start msg sessionId.length cipher) msg.length).r.err = true
      then .error .invalidArg
      else .ok (serverHelloExts msg.length (.start msg sessionId.length cipher)
        msg.length).out := by
  have hsize := serverHelloBytes_length random sessionId cipher exts
  have hbodySize := serverHelloBody_length random sessionId cipher exts
  rw [hbytes] at hsize
  have hat : At msg 0 (serverHelloBytes random sessionId cipher exts) := by
    rw [hbytes]
    exact ⟨by omega, List.take_length⟩
  have ⟨htype, hlen, hver, hrnd, hrndAt, hrest⟩ :=
    serverHello_front hmsg (by omega) (by decide) hrandom hat
  generalize hsidLen : sessionId.length = n at *
  have hsidRead : (Reader.upTo msg 38).u8 = (n, .upTo msg 39) := by
    apply Reader.u8_at hsid
    rw [← hsidLen]
    exact At.left (b := [UInt8.ofNat sessionId.length]) hrest.left
  have hsessAt : At msg 39 sessionId :=
    At.right (b := [UInt8.ofNat sessionId.length]) hrest.left
  have hsessRead := Reader.bytes_at hmsg hsidLen hsessAt
  have hafter : At msg (39 + n) (u16 cipher ++ ([0] ++ vec16 exts)) := by
    have hright := hrest.right
    rw [vec8_length, hsidLen, ← Nat.add_assoc] at hright
    exact hright
  have hcipherRead := Reader.u16_at hmsg hcipher hafter.left
  have hcompRead : (Reader.upTo msg (39 + n + 2)).u8 = (0, .upTo msg (39 + n + 3)) :=
    Reader.u8_at (by decide) hafter.right.left
  have hvecRead : (Reader.upTo msg (39 + n + 3)).u16 = (exts.length, .upTo msg (39 + n + 5)) :=
    Reader.u16_at hmsg hexts hafter.right.right.left
  have hend : add32 (39 + n + 5) exts.length = msg.length := by
    rw [add32_eq (by omega)]
    omega
  have hnotRetry : ¬ ((Reader.upTo msg 38).err = false ∧ True ∧
      (some 6).map (fun off => slice msg off 32) = some hrrRandom) := by
    rintro ⟨_, _, heq⟩
    apply hne
    rw [← hrndAt.2, hrandom]
    exact Option.some.inj heq
  have hstart : (⟨.upTo msg (39 + n + 5),
      { random := some 6, sessionId := some 39, sessionIdLen := n, cipher := cipher }, false,
      false, false⟩ : ServerHelloExts) = .start msg n cipher := by
    rw [ServerHelloExts.start, show 44 + n = 39 + n + 5 by omega]
  rw [serverHelloParse, htype]
  simp only [hlen, hver, hrnd]
  rw [if_neg hnotRetry]
  simp only [hsidRead, hsessRead, hcipherRead, hcompRead, hvecRead, Reader.upTo_pos, hend,
    Nat.min_self, gt_iff_lt, Nat.lt_irrefl, decide_false, Reader.failWhen_false, hstart]
  have hbodyLen : (serverHelloBody random sessionId cipher exts).length = msg.length - 4 := by
    omega
  simp [hbodyLen]

end Message

/-- A message that parses, and whose random is not the sentinel, has the format up to its
extensions. -/
theorem serverHelloParse_read {msg : Bytes} {out : ServerHello}
    (h : serverHelloParse msg = .ok out) (hne : slice msg 6 32 ≠ hrrRandom) :
    msg.length < 2 ^ 31 ∧ ∃ (random sessionId exts : Bytes) (cipher : UInt16),
      serverHelloBytes random sessionId cipher.toNat exts = msg ∧ random.length = 32 ∧
        random ≠ hrrRandom ∧ sessionId.length < 2 ^ 8 ∧ exts.length < 2 ^ 16 := by
  let type := (Reader.init msg).u8
  let hsLen := type.2.u24
  let lver := hsLen.2.u16
  let random := lver.2.bytes 32
  let sidLen := random.2.u8
  let sid := sidLen.2.bytes sidLen.1
  let cipher := sid.2.u16
  let comp := cipher.2.u8
  let vec := comp.2.u16
  let vecEnd := add32 vec.2.pos vec.1
  let r := vec.2.failWhen (vecEnd > msg.length)
  let st := serverHelloExts msg.length
    ⟨r, { random := random.1, sessionId := sid.1, sessionIdLen := sidLen.1, cipher := cipher.1 },
      false, false, false⟩ (min vecEnd msg.length)
  have hdef : serverHelloParse msg =
      if random.2.err = false ∧ type.1 = 2 ∧
          random.1.map (fun off => slice msg off 32) = some hrrRandom then
        .ok { random := random.1, isHelloRetry := true }
      else if st.r.err = true ∨ type.1 ≠ 2 ∨ hsLen.1 ≠ msg.length - 4 ∨ random.1 = none ∨
          lver.1 ≠ 0x0303 ∨ comp.1 ≠ 0 ∨ min vecEnd msg.length ≠ msg.length then
        .error .invalidArg
      else .ok st.out := rfl
  rw [hdef] at h
  have hretry : ¬ (random.2.err = false ∧ type.1 = 2 ∧
      random.1.map (fun off => slice msg off 32) = some hrrRandom) := by
    rintro ⟨herr, _, heq⟩
    have ⟨hlverErr, _, hrnd⟩ := Reader.bytes_noErr herr
    have ⟨hlenErr, _, hver⟩ := Reader.uint_noErr hlverErr
    have ⟨htypeErr, _, hlen⟩ := Reader.uint_noErr hlenErr
    have ⟨_, _, htype⟩ := Reader.u8_noErr htypeErr
    have htypePos : type.2.pos = 1 := congrArg (fun x => x.2.pos) htype
    have hlenPos : hsLen.2.pos = add32 type.2.pos 3 := congrArg (fun x => x.2.pos) hlen
    have hverPos : lver.2.pos = add32 hsLen.2.pos 2 := congrArg (fun x => x.2.pos) hver
    have hplace : random.1 = some lver.2.pos := congrArg Prod.fst hrnd
    rw [hplace, hverPos, hlenPos, htypePos] at heq
    exact hne (Option.some.inj heq)
  rw [if_neg hretry] at h
  by_cases hbad : st.r.err = true ∨ type.1 ≠ 2 ∨ hsLen.1 ≠ msg.length - 4 ∨ random.1 = none ∨
      lver.1 ≠ 0x0303 ∨ comp.1 ≠ 0 ∨ min vecEnd msg.length ≠ msg.length
  · rw [if_pos hbad] at h
    cases h
  simp only [not_or, not_not, Bool.not_eq_true] at hbad
  obtain ⟨hok, htypeTwo, hlength, -, hversion, hcompZero, hvecEnd⟩ := hbad
  -- no read has failed
  have hrErr : r.err = false := by
    cases hr : r.err with
    | false => rfl
    | true =>
        have hstuck : st = _ := serverHelloExts_stuck hr
        rw [hstuck, hr] at hok
        exact hok
  have ⟨hinside, hsame⟩ := Reader.failWhen_noErr hrErr
  have hvecErr : vec.2.err = false := hsame ▸ hrErr
  have hcompErr : comp.2.err = false := (Reader.uint_noErr hvecErr).1
  have hcipherErr : cipher.2.err = false := (Reader.u8_noErr hcompErr).1
  have hsidErr : sid.2.err = false := (Reader.uint_noErr hcipherErr).1
  have hsidLenErr : sidLen.2.err = false := (Reader.bytes_noErr hsidErr).1
  have hrandomErr : random.2.err = false := (Reader.u8_noErr hsidLenErr).1
  have hlverErr : lver.2.err = false := (Reader.bytes_noErr hrandomErr).1
  have hhsLenErr : hsLen.2.err = false := (Reader.uint_noErr hlverErr).1
  have htypeErr : type.2.err = false := (Reader.uint_noErr hhsLenErr).1
  -- forward, with the place each part stands at
  obtain ⟨t, -, htAt, htRead⟩ := @Reader.u8_read msg 0 htypeErr
  have htypeEq : type = (t, .upTo msg 1) := htRead
  have hhsLenEq : hsLen = (Reader.upTo msg 1).u24 := congrArg (fun x => x.2.u24) htypeEq
  obtain ⟨n, hn, hnAt, hnRead⟩ := @Reader.u24_read msg 1 (by decide) (hhsLenEq ▸ hhsLenErr)
  replace hhsLenEq := hhsLenEq.trans hnRead
  have hfour : 4 ≤ msg.length := hnAt.1
  rw [hhsLenEq] at hlength
  have hlen : n = msg.length - 4 := hlength
  have hmsg : msg.length < 2 ^ 31 := by omega
  have hlverEq : lver = (Reader.upTo msg 4).u16 := congrArg (fun x => x.2.u16) hhsLenEq
  obtain ⟨l, hl, hlAt, hlRead⟩ := Reader.u16_read hmsg (by omega) (hlverEq ▸ hlverErr)
  replace hlverEq := hlverEq.trans hlRead
  have hrandomEq : random = (Reader.upTo msg 6).bytes 32 := congrArg (fun x => x.2.bytes 32) hlverEq
  obtain ⟨rnd, hrnd, hrndAt, hrndRead⟩ :=
    Reader.bytes_read hmsg hlAt.1 (by decide) (hrandomEq ▸ hrandomErr)
  rw [hrnd] at hrndRead
  replace hrandomEq := hrandomEq.trans hrndRead
  have hsidLenEq : sidLen = (Reader.upTo msg 38).u8 := congrArg (fun x => x.2.u8) hrandomEq
  obtain ⟨s, hs, hsAt, hsRead⟩ := Reader.u8_read (hsidLenEq ▸ hsidLenErr)
  replace hsidLenEq := hsidLenEq.trans hsRead
  have hsidEq : sid = (Reader.upTo msg 39).bytes s := congrArg (fun x => x.2.bytes x.1) hsidLenEq
  obtain ⟨sess, hsess, hsessAt, hsessRead⟩ :=
    Reader.bytes_read hmsg hsAt.1 (Nat.lt_trans hs (by decide)) (hsidEq ▸ hsidErr)
  replace hsidEq := hsidEq.trans hsessRead
  have hcipherEq : cipher = (Reader.upTo msg (39 + sess.length)).u16 :=
    congrArg (fun x => x.2.u16) hsidEq
  obtain ⟨cs, hcs, hcsAt, hcsRead⟩ := Reader.u16_read hmsg hsessAt.1 (hcipherEq ▸ hcipherErr)
  replace hcipherEq := hcipherEq.trans hcsRead
  have hcompEq : comp = (Reader.upTo msg (39 + sess.length + 2)).u8 :=
    congrArg (fun x => x.2.u8) hcipherEq
  obtain ⟨cm, hcm, hcmAt, hcmRead⟩ := Reader.u8_read (hcompEq ▸ hcompErr)
  replace hcompEq := hcompEq.trans hcmRead
  have hvecEq : vec = (Reader.upTo msg (39 + sess.length + 3)).u16 :=
    congrArg (fun x => x.2.u16) hcompEq
  obtain ⟨v, hv, hvAt, hvRead⟩ := Reader.u16_read hmsg hcmAt.1 (hvecEq ▸ hvecErr)
  replace hvecEq := hvecEq.trans hvRead
  have hroom : 39 + sess.length + 5 ≤ msg.length := hvAt.1
  have hvecEndEq : vecEnd = 39 + sess.length + 5 + v := by
    have hsum : vecEnd = add32 (39 + sess.length + 5) v :=
      congrArg (fun x => add32 x.2.pos x.1) hvecEq
    rw [hsum, add32_eq (by omega)]
  rw [decide_eq_false_iff_not] at hinside
  have hend : 39 + sess.length + 5 + v = msg.length := by omega
  -- the parts together
  obtain ⟨exts, hextsAt, hextsLen⟩ :
      ∃ exts : Bytes, At msg (39 + sess.length + 5) exts ∧ exts.length = v :=
    ⟨_, At.of_slice (n := v) (by omega), slice_length (by omega)⟩
  obtain rfl : t = 2 := by
    rw [htypeEq] at htypeTwo
    exact htypeTwo
  obtain rfl : l = 0x0303 := by
    rw [hlverEq] at hversion
    exact hversion
  obtain rfl : cm = 0 := by
    rw [hcompEq] at hcompZero
    exact hcompZero
  refine ⟨hmsg, rnd, sess, exts, UInt16.ofNat cs, ?_, hrnd, ?_, hsess ▸ hs, hextsLen ▸ hv⟩
  · rw [UInt16.toNat_ofNat', Nat.mod_eq_of_lt hcs]
    have hbodyLen := serverHelloBody_length rnd sess cs exts
    have hbodyAt : At msg 4 (serverHelloBody rnd sess cs exts) := by
      have hvecAt : At msg (39 + sess.length + 3) (vec16 exts) := by
        rw [vec16, hextsLen]
        exact hvAt.append hextsAt
      have hsessVec : At msg 38 (vec8 sess) := by
        rw [vec8, hsess]
        exact hsAt.append_at hsessAt rfl
      have hcompAt := hcmAt.append_at hvecAt (q := 39 + sess.length + 3) rfl
      have hcipherAt := hcsAt.append_at hcompAt rfl
      have hafter := hsessVec.append_at hcipherAt (by
        rw [vec8_length, List.length_singleton]
        omega)
      have hrandomAt := hrndAt.append_at hafter (by rw [hrnd]; rfl)
      exact hlAt.append_at hrandomAt rfl
    apply At.eq_self
    · rw [serverHelloBytes, hbodyLen, show rnd.length + sess.length + exts.length + 8 = n by omega]
      exact htAt.append_at (hnAt.append_at hbodyAt rfl) rfl
    · rw [serverHelloBytes_length]
      omega
  · intro heq
    apply hne
    calc slice msg 6 32 = slice msg 6 rnd.length := by rw [hrnd]
      _ = rnd := hrndAt.2
      _ = hrrRandom := heq

/-! ### What parses, and to what -/

/-- Where the parts of a message stand. -/
theorem serverHelloBytes_places {random sessionId exts : Bytes} (cipher : Nat)
    (hrandom : random.length = 32) :
    At (serverHelloBytes random sessionId cipher exts) 6 random ∧
      At (serverHelloBytes random sessionId cipher exts) 39 sessionId ∧
      At (serverHelloBytes random sessionId cipher exts) (44 + sessionId.length) exts := by
  have hat : At (serverHelloBytes random sessionId cipher exts) 0
      (serverHelloBytes random sessionId cipher exts) :=
    ⟨Nat.le_of_eq (Nat.zero_add _), List.take_length⟩
  have hbody : At _ 4 (serverHelloBody random sessionId cipher exts) := hat.right.right
  have hafter := hbody.right.right
  rw [hrandom, u16_length] at hafter
  have hsid : At _ 39 sessionId :=
    At.right (b := [UInt8.ofNat sessionId.length]) hafter.left
  have hexts := hafter.right.right.right.right
  rw [vec8_length, u16_length, u16_length, List.length_singleton] at hexts
  have hplace : 4 + 2 + 32 + (1 + sessionId.length) + 2 + 1 + 2 = 44 + sessionId.length := by
    omega
  rw [hplace] at hexts
  exact ⟨hbody.right.left, hsid, hexts⟩

namespace ServerHelloParts

variable {h : ServerHelloParts}

theorem WellFormed.encode_lt (hw : h.WellFormed) : h.encode.length < 2 ^ 31 := by
  have hsize := serverHelloBytes_length h.random h.sessionId h.cipher.toNat
    (h.exts.flatMap ServerExt.encode)
  have hrandom := hw.random
  have hsid := hw.sessionId
  have hexts := hw.exts
  rw [encode, hsize]
  omega

/-- The extensions of a message are there for the loop. -/
theorem WellFormed.extensions (hw : h.WellFormed) :
    ServerExts h.encode (44 + h.sessionId.length)
      (.start h.encode h.sessionId.length h.cipher.toNat) h.exts where
  inMsg := (serverHelloBytes_places h.cipher.toNat hw.random).2.2
  ends := by
    have hrandom := hw.random
    rw [encode, serverHelloBytes_length]
    omega
  bodies := hw.bodies
  once := hw.once
  fresh e _ := by
    cases e.kind <;> rfl

/-- A message of the format parses to its parts. -/
theorem WellFormed.parsed (hw : h.WellFormed) (hne : h.random ≠ hrrRandom) :
    ∃ out, serverHelloParse h.encode = .ok out ∧ h.Reported h.encode out := by
  have hmsg := hw.encode_lt
  have hplaces := @serverHelloBytes_places h.random h.sessionId (h.exts.flatMap ServerExt.encode)
    h.cipher.toNat hw.random
  have hloop := @serverHelloExts_took h.encode hmsg h.exts h.encode.length _ _
    (show (ServerHelloExts.start h.encode h.sessionId.length h.cipher.toNat).r = _ from rfl)
    (Nat.le_add_left _ _) hw.extensions
  have hparse := serverHelloParse_bytes hmsg rfl hw.random hw.sessionId h.cipher.toNat_lt hw.exts
    hne
  have hend := @ServerHelloExts.tookAll_r h.encode h.exts _ _
    (show (ServerHelloExts.start h.encode h.sessionId.length h.cipher.toNat).r = _ from rfl)
  rw [hloop, hend] at hparse
  refine ⟨_, hparse, ?_⟩
  have ⟨hrandom, hsid, hsidLen, hcipher, hretry⟩ := @ServerHelloExts.tookAll_rest h.encode h.exts
    (44 + h.sessionId.length) (.start h.encode h.sessionId.length h.cipher.toNat)
  constructor
  · exact ⟨6, hrandom, hplaces.1⟩
  · exact ⟨39, hsid, hplaces.2.1⟩
  · exact hsidLen
  · exact hcipher
  · intro e he
    exact ServerHelloExts.tookAll_shows hplaces.2.2 hw.once he
  · intro k hk
    apply ServerHelloExts.tookAll_lacks
    · intro e he hkind
      exact hk (hkind ▸ List.mem_map_of_mem he)
    · cases k with
      | keyShare => exact ⟨rfl, rfl, rfl⟩
      | supportedVersions => rfl
      | preShared => rfl
  · exact hretry

end ServerHelloParts

/-- A message that parses, and is not a retry, has the format. -/
theorem serverHelloParse_form {msg : Bytes} {out : ServerHello}
    (h : serverHelloParse msg = .ok out) (hne : slice msg 6 32 ≠ hrrRandom) :
    ∃ parts : ServerHelloParts, parts.WellFormed ∧ parts.encode = msg := by
  have ⟨hmsg, random, sessionId, exts, cipher, hbytes, hrandom, hnotRetry, hsid, hexts⟩ :=
    serverHelloParse_read h hne
  have hplace := (@serverHelloBytes_places random sessionId exts cipher.toNat hrandom).2.2
  have hsize := serverHelloBytes_length random sessionId cipher.toNat exts
  rw [hbytes] at hplace hsize
  rw [serverHelloParse_bytes hmsg hbytes hrandom hsid cipher.toNat_lt hexts hnotRetry] at h
  split at h
  · cases h
  next hok =>
    rw [Bool.not_eq_true] at hok
    have ⟨list, hlist⟩ := serverHelloExts_read hmsg
      (show (ServerHelloExts.start msg sessionId.length cipher.toNat).r = _ from rfl)
      (Nat.le_of_add_right_le hplace.1) (Nat.le_add_left _ _) hok
    have hlen := hlist.ends
    have heq : exts = list.flatMap ServerExt.encode := hplace.eq hlist.inMsg (by omega)
    refine ⟨⟨random, sessionId, cipher, list⟩, ⟨hrandom, hsid, ?_, hlist.once⟩, ?_⟩
    · rw [← heq]
      exact hexts
    · rw [ServerHelloParts.encode, ← heq]
      exact hbytes

/-! ### The encoders -/

section Encoders

variable {cap cipher : Nat} {random sessionId msg b : Bytes} {share : Writer → Writer}

/-- The extensions of a message that both encoders write: the version, then the given ones. -/
def withVersion (exts : Bytes) : Bytes :=
  u16 extSupportedVer ++ u16 2 ++ u16 0x0304 ++ exts

theorem withVersion_flatMap (exts : List ServerExt) :
    withVersion (exts.flatMap ServerExt.encode) =
      (.supportedVersions 0x0304 :: exts).flatMap ServerExt.encode := by
  have hfirst : (ServerExt.supportedVersions 0x0304).encode = [0, 43, 0, 2, 3, 4] := by decide
  rw [List.flatMap_cons, hfirst]
  rfl

open Writer.Appends in
/-- What the calls of both encoders write. -/
theorem writeServerHello_appends (hrandom : random.length = 32)
    (hshare : Writer.Appends share b) :
    ∃ F : Writer → Writer,
      Writer.Appends F (serverHelloBytes random sessionId cipher (withVersion b)) ∧
        writeServerHello cap random sessionId sessionId.length cipher share =
          if (F (.init cap)).err then .error .crypto else .ok (F (.init cap)).buf := by
  have hrandomBytes := bytes random
  rw [hrandom] at hrandomBytes
  have hexts := block 2 ((((Writer.Appends.u16 extSupportedVer).comp (u16 2)).comp
    (u16 0x0304)).comp hshare)
  have hbody := block 3 (((((((Writer.Appends.u16 0x0303).comp hrandomBytes).comp
    (u8 sessionId.length)).comp (bytes sessionId)).comp (u16 cipher)).comp (u8 0)).comp hexts)
  have hall := ((u8 2).comp hbody).of_eq
    (b := serverHelloBytes random sessionId cipher (withVersion b)) (by
    rw [be_two, be_three, serverHelloBytes, serverHelloBody]
    simp only [vec8, vec16, List.append_assoc]
    rfl)
  exact ⟨_, hall, rfl⟩

/-- A message that both encoders return is all of it. -/
theorem writeServerHello_ok (hrandom : random.length = 32) (hshare : Writer.Appends share b)
    (hsize : sessionId.length + b.length < 2 ^ 31)
    (h : writeServerHello cap random sessionId sessionId.length cipher share = .ok msg) :
    msg = serverHelloBytes random sessionId cipher (withVersion b) := by
  have ⟨F, hF, hdef⟩ := @writeServerHello_appends cap cipher random sessionId b share hrandom hshare
  have hlt : (serverHelloBytes random sessionId cipher (withVersion b)).length < 2 ^ 32 := by
    rw [serverHelloBytes_length, hrandom]
    simp only [withVersion, List.length_append, u16_length]
    omega
  have hrun := @Writer.Appends.init _ _ hF hlt cap
  rw [hdef] at h
  split at h
  · cases h
  next hok =>
    split at hrun
    · rw [hrun] at h
      exact (Except.ok.inj h).symm
    · exact absurd hrun hok

/-- The extensions `wn_ServerHello_Build` writes. -/
def builtExts (group index : UInt16) (srvPub : Bytes) (includePsk : Bool) : List ServerExt :=
  [.supportedVersions 0x0304, .keyShare group srvPub] ++
    if includePsk then [.preShared index] else []

theorem builtExts_once (group index : UInt16) (srvPub : Bytes) (includePsk : Bool) :
    ((builtExts group index srvPub includePsk).map ServerExt.kind).Nodup := by
  cases includePsk with
  | false => exact (by decide : [ServerExtKind.supportedVersions, .keyShare].Nodup)
  | true => exact (by decide : [ServerExtKind.supportedVersions, .keyShare, .preShared].Nodup)

theorem builtExts_length (group index : UInt16) (srvPub : Bytes) (includePsk : Bool) :
    ((builtExts group index srvPub includePsk).flatMap ServerExt.encode).length =
      14 + srvPub.length + if includePsk then 6 else 0 := by
  have hshare := ServerExt.keyShare_body_length group srvPub
  have hone := ServerExt.encode_length (.keyShare group srvPub)
  cases includePsk with
  | false =>
      change ((ServerExt.supportedVersions 0x0304).encode ++
        ((ServerExt.keyShare group srvPub).encode ++ [])).length = 14 + srvPub.length + 0
      rw [List.append_nil, List.length_append, hone, hshare]
      change 6 + (4 + (4 + srvPub.length)) = _
      omega
  | true =>
      change ((ServerExt.supportedVersions 0x0304).encode ++
        ((ServerExt.keyShare group srvPub).encode ++
        ((ServerExt.preShared index).encode ++ []))).length =
          14 + srvPub.length + 6
      rw [List.append_nil, List.length_append, List.length_append, hone, hshare]
      change 6 + (4 + (4 + srvPub.length) + 6) = _
      omega

open Writer.Appends in
/-- The calls of `wn_ServerHello_Build` after the version write the other extensions. -/
theorem builtExts_appends (group index : UInt16) (srvPub : Bytes) (includePsk : Bool) :
    ∃ b : Bytes, Writer.Appends (fun w =>
        let w := w.u16 extKeyShare
        let w := w.u16 (4 + srvPub.length)
        let w := w.u16 group.toNat
        let w := w.u16 srvPub.length
        let w := w.bytes (some srvPub) srvPub.length
        if includePsk then
          let w := w.u16 extPreShared
          let w := w.u16 2
          w.u16 index.toNat
        else
          w) b ∧
      withVersion b = (builtExts group index srvPub includePsk).flatMap ServerExt.encode ∧
      b.length = 8 + srvPub.length + if includePsk then 6 else 0 := by
  have hshare := ServerExt.keyShare_body_length group srvPub
  have hone := ServerExt.encode_length (.keyShare group srvPub)
  have hkeyEq : Duplex.u16 extKeyShare ++ Duplex.u16 (4 + srvPub.length) ++
      Duplex.u16 group.toNat ++
      Duplex.u16 srvPub.length ++ srvPub = (ServerExt.keyShare group srvPub).encode := by
    rw [ServerExt.encode, vec16, hshare]
    simp only [ServerExt.body, vec16, List.append_assoc]
    rfl
  have hkey := (((((Writer.Appends.u16 extKeyShare).comp (u16 (4 + srvPub.length))).comp
    (u16 group.toNat)).comp (u16 srvPub.length)).comp (bytes srvPub)).of_eq hkeyEq
  cases includePsk with
  | false =>
      have hflat : (ServerExt.keyShare group srvPub).encode =
          [ServerExt.keyShare group srvPub].flatMap ServerExt.encode := (List.append_nil _).symm
      refine ⟨_, hkey, ?_, ?_⟩
      · rw [hflat, withVersion_flatMap]
        rfl
      · rw [hone, hshare]
        show _ = 8 + srvPub.length + 0
        omega
  | true =>
      have hall := ((hkey.comp (u16 extPreShared)).comp (u16 2)).comp (u16 index.toNat)
      have hflat : (ServerExt.keyShare group srvPub).encode ++ Duplex.u16 extPreShared ++
          Duplex.u16 2 ++ Duplex.u16 index.toNat =
            [ServerExt.keyShare group srvPub, .preShared index].flatMap ServerExt.encode := by
        rw [List.flatMap_cons, List.append_assoc, List.append_assoc]
        rfl
      refine ⟨_, hall, ?_, ?_⟩
      · rw [hflat, withVersion_flatMap]
        rfl
      · simp only [List.length_append, u16_length, hone, hshare]
        show _ = 8 + srvPub.length + 6
        omega

/-- A message of `wn_ServerHello_Build` is the encoding of its arguments. -/
theorem serverHelloBuild_ok {srvPub : Bytes} {c group index : UInt16} {includePsk : Bool}
    (hrandom : random.length = 32) (hsize : sessionId.length + srvPub.length < 2 ^ 30)
    (h : serverHelloBuild cap random sessionId sessionId.length c.toNat group.toNat srvPub
      index.toNat includePsk = .ok msg) :
    msg = ServerHelloParts.encode ⟨random, sessionId, c,
    builtExts group index srvPub includePsk⟩ := by
  have ⟨b, hshare, hexts, hlen⟩ := builtExts_appends group index srvPub includePsk
  have hmsg := writeServerHello_ok hrandom hshare (by
    rw [hlen]
    split <;> omega) h
  rw [hmsg, hexts]
  rfl

/-- It is returned when it fits. -/
theorem serverHelloBuild_fits {srvPub : Bytes} {c group index : UInt16} {includePsk : Bool}
    (hrandom : random.length = 32) (hsize : sessionId.length + srvPub.length < 2 ^ 30)
    (hcap : (ServerHelloParts.encode
      ⟨random, sessionId, c, builtExts group index srvPub includePsk⟩).length ≤ cap) :
    serverHelloBuild cap random sessionId sessionId.length c.toNat group.toNat srvPub index.toNat
        includePsk =
      .ok (ServerHelloParts.encode
        ⟨random, sessionId, c, builtExts group index srvPub includePsk⟩) := by
  have ⟨b, hshare, hexts, _⟩ := builtExts_appends group index srvPub includePsk
  have ⟨F, hF, hdef⟩ := @writeServerHello_appends cap c.toNat random sessionId b _ hrandom hshare
  have hsame : serverHelloBytes random sessionId c.toNat (withVersion b) =
      ServerHelloParts.encode ⟨random, sessionId, c, builtExts group index srvPub includePsk⟩ := by
    rw [hexts]
    rfl
  have hlt : (ServerHelloParts.encode
      ⟨random, sessionId, c, builtExts group index srvPub includePsk⟩).length < 2 ^ 32 := by
    have hextsLen := builtExts_length group index srvPub includePsk
    rw [ServerHelloParts.encode, serverHelloBytes_length, hrandom, hextsLen]
    dsimp only
    split <;> omega
  rw [hsame] at hF
  have hrun := @Writer.Appends.init _ _ hF hlt cap
  rw [if_pos hcap] at hrun
  refine hdef.trans ?_
  rw [hrun]
  rfl

open Writer.Appends in
/-- A message of `wn_HelloRetryRequest_Build` carries the sentinel. -/
theorem helloRetryRequestBuild_ok {group : Nat} (hsid : sessionId.length < 2 ^ 8)
    (h : helloRetryRequestBuild cap sessionId sessionId.length cipher group = .ok msg) :
    ∃ exts : Bytes, exts.length = 12 ∧ msg = serverHelloBytes hrrRandom sessionId cipher exts := by
  have hshare := ((Writer.Appends.u16 extKeyShare).comp (u16 2)).comp (u16 group)
  have hmsg := writeServerHello_ok rfl hshare (by
    simp only [List.length_append, u16_length]
    omega) h
  exact ⟨_, rfl, hmsg⟩

end Encoders

/-- A message with the sentinel is a retry, whatever its extensions are. -/
theorem serverHelloParse_retry {sessionId exts : Bytes} {cipher : Nat}
    (hsid : sessionId.length < 2 ^ 8) (hexts : exts.length < 2 ^ 16) :
    ∃ out, serverHelloParse (serverHelloBytes hrrRandom sessionId cipher exts) = .ok out ∧
      out.isHelloRetry = true := by
  have hrandom : hrrRandom.length = 32 := rfl
  have hsize := serverHelloBytes_length hrrRandom sessionId cipher exts
  have hbodySize := serverHelloBody_length hrrRandom sessionId cipher exts
  have hplace := (@serverHelloBytes_places hrrRandom sessionId exts cipher hrandom).1
  generalize hmsg : serverHelloBytes hrrRandom sessionId cipher exts = msg at hsize hplace ⊢
  have hat : At msg 0 (serverHelloBytes hrrRandom sessionId cipher exts) := by
    rw [hmsg]
    exact ⟨by omega, List.take_length⟩
  have ⟨htype, hlen, hver, hrnd, hrndAt, _⟩ :=
    serverHello_front (by omega) (by omega) (by decide) hrandom hat
  have hretry : (Reader.upTo msg 38).err = false ∧ True ∧
      (some 6).map (fun off => slice msg off 32) = some hrrRandom :=
    ⟨rfl, trivial, congrArg some hrndAt.2⟩
  rw [serverHelloParse, htype]
  simp only [hlen, hver, hrnd]
  rw [if_pos hretry]
  exact ⟨_, rfl, rfl⟩

/-- A message whose random is not the sentinel parses exactly when it has the format, and to
its parts.  What `wn_ServerHello_Build` writes parses to its arguments, and what
`wn_HelloRetryRequest_Build` writes to a retry. -/
theorem serverHello_exact :
    (∀ msg : Bytes, slice msg 6 32 ≠ hrrRandom →
      ((∃ out, serverHelloParse msg = .ok out) ↔
        ∃ h : ServerHelloParts, h.WellFormed ∧ h.encode = msg) ∧
      ∀ h : ServerHelloParts, h.WellFormed → h.encode = msg →
        ∃ out, serverHelloParse msg = .ok out ∧ h.Reported msg out) ∧
    (∀ (cap : UInt32) (random sessionId srvPub msg : Bytes) (cipher group index : UInt16)
      (includePsk : Bool), random.length = 32 → random ≠ hrrRandom → sessionId.length < 2 ^ 8 →
        14 + srvPub.length + (if includePsk then 6 else 0) < 2 ^ 16 →
        serverHelloBuild cap.toNat random sessionId sessionId.length cipher.toNat group.toNat
          srvPub index.toNat includePsk = .ok msg →
        ∃ out, serverHelloParse msg = .ok out ∧
          (ServerHelloParts.mk random sessionId cipher
            (builtExts group index srvPub includePsk)).Reported msg out) ∧
    ∀ (cap : UInt32) (sessionId msg : Bytes) (cipher group : UInt16), sessionId.length < 2 ^ 8 →
      helloRetryRequestBuild cap.toNat sessionId sessionId.length cipher.toNat group.toNat =
        .ok msg →
      ∃ out, serverHelloParse msg = .ok out ∧ out.isHelloRetry = true := by
  refine ⟨fun msg hne => ?_, ?_, ?_⟩
  · have hforward : ∀ h : ServerHelloParts, h.WellFormed → h.encode = msg →
        ∃ out, serverHelloParse msg = .ok out ∧ h.Reported msg out := by
      rintro h hw rfl
      apply hw.parsed
      intro heq
      apply hne
      have hplace := (@serverHelloBytes_places h.random h.sessionId
        (h.exts.flatMap ServerExt.encode) h.cipher.toNat hw.random).1
      rw [← heq, ← hw.random]
      exact hplace.2
    refine ⟨⟨?_, ?_⟩, hforward⟩
    · rintro ⟨out, hparse⟩
      exact serverHelloParse_form hparse hne
    · rintro ⟨h, hw, hmsg⟩
      have ⟨out, hparse, _⟩ := hforward h hw hmsg
      exact ⟨out, hparse⟩
  · intro cap random sessionId srvPub msg cipher group index includePsk hrandom hne hsid hexts
      hbuild
    have hmsg := serverHelloBuild_ok hrandom (by omega) hbuild
    have hw : (ServerHelloParts.mk random sessionId cipher
        (builtExts group index srvPub includePsk)).WellFormed := by
      refine ⟨hrandom, hsid, ?_, builtExts_once group index srvPub includePsk⟩
      rw [builtExts_length]
      exact hexts
    rw [hmsg]
    exact hw.parsed hne
  · intro cap sessionId msg cipher group hsid hbuild
    have ⟨exts, hlen, hmsg⟩ := helloRetryRequestBuild_ok hsid hbuild
    rw [hmsg]
    exact serverHelloParse_retry hsid (by omega)

/-- A ServerHello with a pre-shared key, built and parsed. -/
theorem serverHello_exact_sample : ∃ msg out,
    serverHelloBuild 512 (zeros 32) [7] 1 0x1301 0x1d [5, 6] 0 true = .ok msg ∧
      serverHelloParse msg = .ok out ∧
      (ServerHelloParts.mk (zeros 32) [7] 0x1301 (builtExts 0x1d 0 [5, 6] true)).Reported msg
        out := by
  have hsome : (serverHelloBuild 512 (zeros 32) [7] 1 0x1301 0x1d [5, 6] 0 true).isOk = true := by
    decide
  cases hbuild : serverHelloBuild 512 (zeros 32) [7] 1 0x1301 0x1d [5, 6] 0 true with
  | error e =>
      rw [hbuild] at hsome
      cases hsome
  | ok msg =>
      obtain ⟨out, hparse, hreported⟩ := serverHello_exact.2.1 512 (zeros 32) [7] [5, 6] msg
        0x1301 0x1d 0 true (by decide) (by decide) (by decide) (by decide) hbuild
      exact ⟨msg, out, rfl, hparse, hreported⟩

end WolfNano
