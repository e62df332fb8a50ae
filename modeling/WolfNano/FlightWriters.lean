/-
The messages of the server's certificate flight are written into what is left of a region
of the scratch.  They stay there, except that the length of a certificate close to 2^32
wraps in the guard of `wn_Write_Bytes`.
-/
import WolfNano.CertMsg
import WolfNano.ServerHello
import WolfNano.Writing

namespace WolfNano

open Duplex

/-- Nothing was written at or beyond `cap`, and what is left is not negative. -/
structure Writer.Inside (w : Writer) (cap : Nat) : Prop where
  cap_eq : w.cap = cap
  buf_le : w.buf.length ≤ cap
  len_le : w.len ≤ cap

theorem splice_length_le {buf v : Bytes} {off cap : Nat} (hbuf : buf.length ≤ cap)
    (hoff : off + v.length ≤ cap) : (splice buf off v).length ≤ cap := by
  simp only [splice, List.length_append, List.length_take, List.length_drop]
  omega

theorem length_le_splice (buf v : Bytes) (off : Nat) : buf.length ≤ (splice buf off v).length := by
  simp only [splice, List.length_append, List.length_take, List.length_drop]
  omega

namespace Writer

/-! ### The operations keep to the capacity -/

namespace Inside

variable {w : Writer} {cap : Nat}

theorem init (cap : Nat) : (Writer.init cap).Inside cap := ⟨rfl, Nat.zero_le _, Nat.zero_le _⟩

theorem fail (h : w.Inside cap) : w.fail.Inside cap := ⟨h.cap_eq, h.buf_le, h.len_le⟩

theorem put {v : Bytes} (h : w.Inside cap) (hsize : w.len + v.length < 2 ^ 32)
    (hroom : add32 w.len v.length ≤ cap) : (w.put v).Inside cap := by
  have hsum := add32_eq hsize
  exact ⟨h.cap_eq, splice_length_le h.buf_le (hsum ▸ hroom), hroom⟩

theorem u8 (h : w.Inside cap) (hcap : cap < 2 ^ 32) (v : Nat) : (w.u8 v).Inside cap := by
  unfold Writer.u8
  split
  · rename_i hguard
    simp only [Bool.and_eq_true, decide_eq_true_eq, h.cap_eq] at hguard
    have hsum : add32 w.len 1 = w.len + 1 := add32_eq (by omega)
    refine h.put (Nat.lt_of_le_of_lt hguard.2 hcap) ?_
    change add32 w.len 1 ≤ cap
    omega
  · exact h.fail

theorem u16 (h : w.Inside cap) (hcap : cap + 2 < 2 ^ 32) (v : Nat) : (w.u16 v).Inside cap := by
  have hlen := h.len_le
  unfold Writer.u16
  split
  · rename_i hguard
    simp only [Bool.and_eq_true, decide_eq_true_eq, h.cap_eq] at hguard
    exact h.put (by rw [u16_length]; omega) (by rw [u16_length]; exact hguard.2)
  · exact h.fail

theorem bytes {p : Bytes} (h : w.Inside cap) (hsize : w.len + p.length < 2 ^ 32) :
    (w.bytes (some p) p.length).Inside cap := by
  unfold Writer.bytes
  split
  · rename_i hguard
    simp only [Bool.and_eq_true, decide_eq_true_eq, h.cap_eq] at hguard
    rw [Option.getD_some, List.take_length]
    exact h.put hsize hguard.1.2
  · exact h.fail

theorem lenStart {n : Nat} (h : w.Inside cap) (hcap : cap < 2 ^ 32) :
    (w.lenStart n).1.Inside cap := by
  induction n generalizing w with
  | zero => exact h
  | succ n ih => exact ih (h.u8 hcap 0)

theorem lenEnd (h : w.Inside cap) (off n : Nat) (hoff : off < 2 ^ 32) (hn : n ≤ off)
    (hcap : off ≤ cap) : (w.lenEnd off n).Inside cap := by
  unfold Writer.lenEnd
  split
  · exact h
  · refine ⟨h.cap_eq, splice_length_le h.buf_le ?_, h.len_le⟩
    rw [sub32_eq hoff hn, be_length]
    omega

end Inside

/-! ### No operation takes bytes back -/

variable {w : Writer}

theorem buf_le_u16 (v : Nat) : w.buf.length ≤ (w.u16 v).buf.length := by
  unfold u16
  split
  · exact length_le_splice ..
  · exact Nat.le_refl _

theorem buf_le_lenEnd (off n : Nat) : w.buf.length ≤ (w.lenEnd off n).buf.length := by
  unfold lenEnd
  split
  · exact Nat.le_refl _
  · exact length_le_splice ..

end Writer

/-! ### EncryptedExtensions -/

/-- The writer of `wn_EncExt_Build`. -/
def encExtWriter (outCap : Nat) : Writer :=
  let w := Writer.init outCap
  let w := w.u8 8
  let (w, body) := w.lenStart 3
  let w := w.u16 0
  w.lenEnd body 3

theorem encExtBuild_writer (outCap : Nat) :
    encExtBuild outCap =
      if (encExtWriter outCap).err then .error .crypto else .ok (encExtWriter outCap).buf := rfl

theorem encExt_appends : Writer.Appends
    (fun w => (((w.u8 8).lenStart 3).1.u16 0).lenEnd ((w.u8 8).lenStart 3).2 3)
    [8, 0, 0, 2, 0, 0] :=
  (Writer.Appends.u8 8).comp ((Writer.Appends.u16 0).block 3)

theorem encExtBuild_length {outCap : Nat} {ee : Bytes} (h : encExtBuild outCap = .ok ee) :
    ee.length = 6 ∧ 6 ≤ outCap := by
  by_cases hroom : 6 ≤ outCap
  · have hwriter : encExtWriter outCap = .wrote outCap [8, 0, 0, 2, 0, 0] :=
      encExt_appends.fits outCap [] (by decide) hroom
    rw [encExtBuild_writer, hwriter] at h
    cases h
    exact ⟨rfl, hroom⟩
  · have herr : (encExtWriter outCap).err = true :=
      encExt_appends.full outCap [] (by decide) (Nat.zero_le _) (Nat.not_le.1 hroom)
    rw [encExtBuild_writer, herr] at h
    cases h

theorem encExtWriter_inside {outCap : Nat} (hroom : 6 ≤ outCap) :
    (encExtWriter outCap).Inside outCap := by
  have hwriter : encExtWriter outCap = .wrote outCap [8, 0, 0, 2, 0, 0] :=
    encExt_appends.fits outCap [] (by decide) hroom
  rw [hwriter]
  exact ⟨rfl, hroom, hroom⟩

/-! ### Certificate -/

/-- The writer of `wn_ServerCert_Build`. -/
def serverCertWriter (outCap : Nat) (certDer : Bytes) : Writer :=
  let w := Writer.init outCap
  let w := w.u8 hsCertificate.toNat
  let (w, body) := w.lenStart 3
  let w := w.u8 0
  let (w, list) := w.lenStart 3
  let (w, entry) := w.lenStart 3
  let w := w.bytes (some certDer) certDer.length
  let w := w.lenEnd entry 3
  let w := w.u16 0
  let w := w.lenEnd list 3
  w.lenEnd body 3

theorem serverCertBuild_writer (outCap : Nat) (certDer : Bytes) :
    serverCertBuild outCap certDer =
      if (serverCertWriter outCap certDer).err then .error .crypto
      else .ok (serverCertWriter outCap certDer).buf := rfl

/-- What stands before the certificate: the type, two blank lengths with the empty context
between them, and the blank length of the entry. -/
def certHead : Bytes := [11] ++ zeros 10

section Certificate

variable {outCap : Nat} {certDer : Bytes} (hroom : 11 ≤ outCap) (hcap : outCap + 2 < 2 ^ 32)

include hroom hcap

theorem serverCertWriter_eq :
    serverCertWriter outCap certDer =
      ((((((Writer.wrote outCap certHead).bytes (some certDer) certDer.length).lenEnd 11 3).u16
        0).lenEnd 8 3).lenEnd 4 3) := by
  have hsize : outCap < 2 ^ 32 := by omega
  have htype : (Writer.init outCap).u8 hsCertificate.toNat = .wrote outCap [11] :=
    Writer.u8_wrote (b := []) hsize (Nat.le_trans (by decide) hroom)
  have hbody : (Writer.wrote outCap [11]).lenStart 3 = (.wrote outCap ([11] ++ zeros 3), 4) :=
    Writer.lenStart_wrote hsize (Nat.le_trans (by decide) hroom)
  have hcontext : (Writer.wrote outCap ([11] ++ zeros 3)).u8 0 = .wrote outCap ([11] ++ zeros 4) :=
    Writer.u8_wrote hsize (Nat.le_trans (by decide) hroom)
  have hlist : (Writer.wrote outCap ([11] ++ zeros 4)).lenStart 3 =
      (.wrote outCap ([11] ++ zeros 7), 8) :=
    Writer.lenStart_wrote hsize (Nat.le_trans (by decide) hroom)
  have hentry : (Writer.wrote outCap ([11] ++ zeros 7)).lenStart 3 =
      (.wrote outCap certHead, 11) :=
    Writer.lenStart_wrote hsize hroom
  unfold serverCertWriter
  simp only [htype, hbody, hcontext, hlist, hentry]

/-- The certificate is written inside the region, or not at all, unless its end is beyond
2^32 from the start. -/
theorem serverCertWriter_inside (hcert : certDer.length + 11 < 2 ^ 32) :
    (serverCertWriter outCap certDer).Inside outCap := by
  have hhead : (Writer.wrote outCap certHead).Inside outCap := ⟨rfl, hroom, hroom⟩
  have hsum : (Writer.wrote outCap certHead).len + certDer.length < 2 ^ 32 := by
    change 11 + certDer.length < 2 ^ 32
    omega
  have hentry := (hhead.bytes hsum).lenEnd 11 3 (by decide) (by decide) hroom
  have hlist := (hentry.u16 hcap 0).lenEnd 8 3 (by decide) (by decide) (by omega)
  rw [serverCertWriter_eq hroom hcap]
  exact hlist.lenEnd 4 3 (by decide) (by decide) (by omega)

/-- Past that the guard lets the whole certificate through. -/
theorem serverCertWriter_overruns (hcert : 2 ^ 32 ≤ certDer.length + 11)
    (hword : certDer.length < 2 ^ 32) : ¬ (serverCertWriter outCap certDer).Inside outCap := by
  have hsum : add32 11 certDer.length = certDer.length + 11 - 2 ^ 32 := by
    rw [add32, Nat.add_comm, Nat.mod_eq_sub_mod hcert, Nat.mod_eq_of_lt (by omega)]
  have hguard : add32 11 certDer.length ≤ outCap := by omega
  have hbytes : (Writer.wrote outCap certHead).bytes (some certDer) certDer.length =
      (Writer.wrote outCap certHead).put certDer := by
    unfold Writer.bytes
    rw [if_pos, Option.getD_some, List.take_length]
    simpa [Writer.wrote, certHead] using hguard
  have hlong : ((Writer.wrote outCap certHead).put certDer).buf.length = 11 + certDer.length := by
    change (splice certHead certHead.length certDer).length = _
    rw [splice_at_end, List.length_append]
    rfl
  have hgrows : 11 + certDer.length ≤ (serverCertWriter outCap certDer).buf.length := by
    rw [serverCertWriter_eq hroom hcap, hbytes, ← hlong]
    calc ((Writer.wrote outCap certHead).put certDer).buf.length
        ≤ _ := Writer.buf_le_lenEnd 11 3
      _ ≤ _ := Writer.buf_le_u16 0
      _ ≤ _ := Writer.buf_le_lenEnd 8 3
      _ ≤ _ := Writer.buf_le_lenEnd 4 3
  intro h
  have hbuf := h.buf_le
  omega

end Certificate

/-! ### CertificateVerify -/

/-- The writer of `wn_ServerCertVerify_Sign` when the signature is made. -/
def certVerifyWriter (outCap scheme : Nat) : Writer :=
  let w := Writer.init outCap
  let w := w.u8 hsCertVerify.toNat
  let (w, _) := w.lenStart 3
  let w := w.u16 scheme
  (w.lenStart 2).1

theorem certVerifyWriter_inside {outCap scheme : Nat} (hcap : outCap + 2 < 2 ^ 32) :
    (certVerifyWriter outCap scheme).Inside outCap := by
  have hsize : outCap < 2 ^ 32 := by omega
  have htype := (Writer.Inside.init outCap).u8 hsize hsCertVerify.toNat
  have hscheme := (htype.lenStart (n := 3) hsize).u16 hcap scheme
  exact hscheme.lenStart (n := 2) hsize

theorem certVerify_appends (scheme : Nat) : Writer.Appends
    (fun w => ((((w.u8 hsCertVerify.toNat).lenStart 3).1.u16 scheme).lenStart 2).1)
    ([15] ++ zeros 3 ++ u16 scheme ++ zeros 2) :=
  (((Writer.Appends.u8 _).comp (.lenStart 3)).comp (.u16 scheme)).comp (.lenStart 2)

/-- The signer is given what is left behind the eight bytes of the head. -/
theorem certVerifyWriter_len {outCap scheme : Nat}
    (h : (certVerifyWriter outCap scheme).err = false) :
    (certVerifyWriter outCap scheme).len = 8 ∧
      (certVerifyWriter outCap scheme).buf.length = 8 ∧ 8 ≤ outCap := by
  have hsize : ([] : Bytes).length + ([15] ++ zeros 3 ++ u16 scheme ++ zeros 2).length <
      2 ^ 32 := by
    change 8 < 2 ^ 32
    decide
  by_cases hroom : 8 ≤ outCap
  · have hwriter : certVerifyWriter outCap scheme =
        .wrote outCap ([15] ++ zeros 3 ++ u16 scheme ++ zeros 2) :=
      (certVerify_appends scheme).fits outCap [] hsize hroom
    rw [hwriter]
    exact ⟨rfl, rfl, hroom⟩
  · have herr : (certVerifyWriter outCap scheme).err = true :=
      (certVerify_appends scheme).full outCap [] hsize (Nat.zero_le _) (Nat.not_le.1 hroom)
    rw [herr] at h
    cases h

/-- A signature is not longer than the buffer the signer is given. -/
def Platform.SignsWithin (P : Platform) : Prop :=
  ∀ alg key input cap rng sig rng', P.sign alg key input cap rng = some (sig, rng') →
    sig.length ≤ cap

section Sign

variable {P : Platform} (hsign : P.SignsWithin) {outCap scheme : Nat} {keyDer th : Bytes}
  {rng : P.Rng}

include hsign

theorem signCv_length {tbs sig : Bytes} {cap : Nat} {rng' : P.Rng}
    (h : signCv P scheme keyDer tbs cap rng = .ok (sig, rng')) : sig.length ≤ cap := by
  unfold signCv at h
  split at h
  · cases h
  · unfold cvSign at h
    obtain ⟨input, -, h⟩ := except_bind_eq_ok.1 h
    obtain ⟨_, -, h⟩ := except_bind_eq_ok.1 h
    obtain ⟨key, -, h⟩ := except_bind_eq_ok.1 h
    exact hsign _ _ _ _ _ _ _ (orCrypto_eq_ok.1 h)

theorem serverCertVerifySign_inside {cv : Bytes} (hcap : outCap + 2 < 2 ^ 32)
    (h : serverCertVerifySign P outCap scheme keyDer th rng = .ok cv) : cv.length ≤ outCap := by
  have hsize : outCap < 2 ^ 32 := by omega
  unfold serverCertVerifySign at h
  dsimp only at h
  obtain ⟨_, herr, h⟩ := except_bind_eq_ok.1 h
  have hnoErr : (certVerifyWriter outCap scheme).err = false := by
    rw [failIf_eq_ok] at herr
    exact Bool.eq_false_iff.2 herr
  have hroom := (certVerifyWriter_len hnoErr).2.2
  have htype : (Writer.init outCap).u8 hsCertVerify.toNat = .wrote outCap [15] :=
    Writer.u8_wrote (b := []) hsize (Nat.le_trans (by decide) hroom)
  have hbody : (Writer.wrote outCap [15]).lenStart 3 = (.wrote outCap ([15] ++ zeros 3), 4) :=
    Writer.lenStart_wrote hsize (Nat.le_trans (by decide) hroom)
  have hscheme : (Writer.wrote outCap ([15] ++ zeros 3)).u16 scheme =
      .wrote outCap ([15] ++ zeros 3 ++ u16 scheme) :=
    Writer.u16_wrote hsize (Nat.le_trans (by decide) hroom)
  have hsig : (Writer.wrote outCap ([15] ++ zeros 3 ++ u16 scheme)).lenStart 2 =
      (.wrote outCap ([15] ++ zeros 3 ++ u16 scheme ++ zeros 2), 8) :=
    Writer.lenStart_wrote hsize hroom
  rw [htype, hbody, hscheme, hsig] at h
  obtain ⟨⟨sig, rng'⟩, hsigned, h⟩ := except_bind_eq_ok.1 h
  have hlen : sig.length ≤ outCap - 8 := signCv_length hsign hsigned
  have hsum : add32 8 sig.length = 8 + sig.length := add32_eq (by omega)
  have hmade : (⟨[15] ++ zeros 3 ++ u16 scheme ++ zeros 2 ++ sig, outCap, add32 8 sig.length,
      false⟩ : Writer).Inside outCap := by
    refine ⟨rfl, ?_, ?_⟩
    · change (_ ++ sig).length ≤ outCap
      rw [List.length_append]
      change 8 + sig.length ≤ outCap
      omega
    · change add32 8 sig.length ≤ outCap
      omega
  have hinner := hmade.lenEnd 8 2 (by decide) (by decide) hroom
  have houter := hinner.lenEnd 4 3 (by decide) (by decide) (by omega)
  dsimp only at h
  obtain ⟨_, -, h⟩ := except_bind_eq_ok.1 h
  cases h
  exact houter.buf_le

end Sign

end WolfNano
