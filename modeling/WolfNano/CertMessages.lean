/-
The formats of Certificate and CertificateVerify: what the client's readers accept, and what
the server's encoders write.
-/
import WolfNano.CertMsg
import WolfNano.HelloWalk
import WolfNano.HelloBuild

namespace WolfNano

open Duplex

/-- A vector with a three-octet length. -/
def vec24 (b : Bytes) : Bytes := u24 b.length ++ b

theorem vec24_length (b : Bytes) : (vec24 b).length = 3 + b.length := by
  rw [vec24, List.length_append, u24_length]

/-! ### The certificate list -/

/-- A CertificateEntry: a certificate and its extensions. -/
structure CertEntry where
  cert : Bytes
  exts : Bytes
  deriving DecidableEq

namespace CertEntry

def encode (e : CertEntry) : Bytes := vec24 e.cert ++ vec16 e.exts

/-- The lengths fit their fields. -/
def Sized (e : CertEntry) : Prop := e.cert.length < 2 ^ 24 ∧ e.exts.length < 2 ^ 16

theorem encode_length (e : CertEntry) : e.encode.length = 5 + e.cert.length + e.exts.length := by
  rw [encode, List.length_append, vec24_length, vec16_length]
  omega

end CertEntry

/-- The body of a Certificate message with an empty context. -/
def certListBody (entries : List CertEntry) : Bytes :=
  [0] ++ vec24 (entries.flatMap CertEntry.encode)

section Entries

variable {n listEnd : Nat} {certs : List Bytes} {r : Reader}

/-- A loop that ends without an error began without one. -/
theorem readCertEntries_noErr {body : Bytes}
    (h : (readCertEntries n body listEnd certs r).2.err = false) :
    r.err = false := by
  induction n generalizing certs r with
  | zero => exact h
  | succ n ih =>
      rw [readCertEntries] at h
      split at h
      · rename_i hmore
        exact hmore.2
      · exact h

variable {pre rest : Bytes}

/-- One entry at the front. -/
theorem readCertEntries_entry {e : CertEntry} (he : e.Sized)
    (hsize : (pre ++ (e.encode ++ rest)).length < 2 ^ 31)
    (hend : (pre ++ (e.encode ++ rest)).length = listEnd) :
    readCertEntries (n + 1) (pre ++ (e.encode ++ rest)) listEnd certs
      (.here pre (e.encode ++ rest)) =
      readCertEntries n (pre ++ (e.encode ++ rest)) listEnd (certs ++ [e.cert])
        (.here (pre ++ e.encode) rest) := by
  have hlen := e.encode_length
  simp only [List.length_append] at hsize hend
  have hmore : (Reader.here pre (e.encode ++ rest)).pos < listEnd ∧
      (Reader.here pre (e.encode ++ rest)).err = false := ⟨by
    show pre.length < listEnd
    omega, rfl⟩
  have hsplit : e.encode ++ rest =
      u24 e.cert.length ++ (e.cert ++ (u16 e.exts.length ++ (e.exts ++ rest))) := by
    simp only [CertEntry.encode, vec24, vec16, List.append_assoc]
  have hbody : pre ++ (e.encode ++ rest) =
      pre ++ u24 e.cert.length ++ e.cert ++ (u16 e.exts.length ++ (e.exts ++ rest)) := by
    rw [hsplit]
    simp only [List.append_assoc]
  have hcert : slice (pre ++ (e.encode ++ rest)) (pre ++ u24 e.cert.length).length e.cert.length =
      e.cert := slice_eq_of_eq_append _ _ hbody rfl rfl
  have hdone : pre ++ u24 e.cert.length ++ e.cert ++ u16 e.exts.length ++ e.exts = pre ++
      e.encode := by
    simp only [CertEntry.encode, vec24, vec16, List.append_assoc]
  rw [readCertEntries, if_pos hmore]
  rw [hsplit, Reader.here_u24 he.1 (by omega)]
  dsimp only
  rw [Reader.here_bytes (by simp only [List.length_append, u24_length]; omega)]
  dsimp only
  rw [Reader.here_u16 he.2 (by simp only [List.length_append, u24_length]; omega)]
  dsimp only
  rw [Reader.here_bytes (by simp only [List.length_append, u24_length, u16_length]; omega)]
  dsimp only
  rw [hdone]
  congr 2
  rw [← hsplit]
  exact congrArg (fun c => [c]) hcert

/-- A round without an error has read an entry. -/
theorem readCertEntries_round (hsize : (pre ++ rest).length < 2 ^ 31)
    (hend : (pre ++ rest).length = listEnd) (hne : rest ≠ [])
    (hok : (readCertEntries (n + 1) (pre ++ rest) listEnd certs (.here pre rest)).2.err = false) :
    ∃ (e : CertEntry) (more : Bytes), e.Sized ∧ rest = e.encode ++ more := by
  have hpos := List.length_pos_of_ne_nil hne
  have hmore : (Reader.here pre rest).pos < listEnd ∧ (Reader.here pre rest).err = false := ⟨by
    rw [List.length_append] at hend
    show pre.length < listEnd
    omega, rfl⟩
  generalize hr : Reader.here pre rest = r at hmore hok
  have hround : readCertEntries (n + 1) (pre ++ rest) listEnd certs r =
      readCertEntries n (pre ++ rest) listEnd (certs ++ [slice (pre ++ rest) r.u24.2.pos r.u24.1])
        ((r.u24.2.bytes r.u24.1).2.u16.2.bytes (r.u24.2.bytes r.u24.1).2.u16.1).2 := by
    rw [readCertEntries, if_pos hmore]
  rw [hround] at hok
  have hfourth : ((r.u24.2.bytes r.u24.1).2.u16.2.bytes
    (r.u24.2.bytes r.u24.1).2.u16.1).2.err = false := readCertEntries_noErr hok
  have hthird : (r.u24.2.bytes r.u24.1).2.u16.2.err = false := (Reader.bytes_noErr hfourth).1
  have hsecond : (r.u24.2.bytes r.u24.1).2.err = false := (Reader.uint_noErr hthird).1
  have hfirst : r.u24.2.err = false := (Reader.bytes_noErr hsecond).1
  clear hround hok hmore
  subst hr
  rcases @Reader.u24_here pre rest (by omega) with ⟨v, more, hv, rfl, hread⟩ | hbad
  · rw [hread] at hsecond hthird hfourth
    dsimp only at hsecond hthird hfourth
    simp only [List.length_append, u24_length] at hsize
    rcases @Reader.bytes_here (pre ++ u24 v) more v (by
      simp only [List.length_append, u24_length]
      omega) with ⟨cert, more₂, rfl, rfl, hread₂⟩ | hbad
    · rw [hread₂] at hthird hfourth
      dsimp only at hthird hfourth
      simp only [List.length_append] at hsize
      rcases @Reader.uint_here (pre ++ u24 cert.length ++ cert) more₂ 2 (by
        simp only [List.length_append, u24_length]
        omega) with ⟨field, more₃, rfl, hfield, hread₃⟩ | hbad
      · have hread₃' : (Reader.here (pre ++ u24 cert.length ++ cert) (field ++ more₃)).u16 =
            _ := hread₃
        rw [hread₃'] at hfourth
        dsimp only at hfourth
        have hlt := ofBE_lt_u16 hfield
        simp only [List.length_append] at hsize
        rcases @Reader.bytes_here (pre ++ u24 cert.length ++ cert ++ field) more₃ (ofBE field) (by
          simp only [List.length_append, u24_length]
          omega) with ⟨exts, more₄, rfl, hexts, -⟩ | hbad
        · refine ⟨⟨cert, exts⟩, more₄, ⟨hv, hexts.trans_lt hlt⟩, ?_⟩
          have hlen : u16 exts.length = field := by
            rw [hexts]
            exact u16_ofBE hfield
          simp only [CertEntry.encode, vec24, vec16, List.append_assoc, hlen]
        · exact absurd hfourth (by rw [hbad.2]; exact Bool.noConfusion)
      · have hthird' : ((Reader.here (pre ++ u24 cert.length ++ cert) more₂).uint 2).2.err =
            false := hthird
        exact absurd hthird' (by rw [hbad.2]; exact Bool.noConfusion)
    · exact absurd hsecond (by rw [hbad.2]; exact Bool.noConfusion)
  · exact absurd hfirst (by rw [hbad.2]; exact Bool.noConfusion)

/-- The loop on entries that all fit: they are all read, when there are not too many. -/
theorem readCertEntries_all {entries : List CertEntry} (hentries : ∀ e ∈ entries, e.Sized)
    (hcount : entries.length ≤ n)
    (hsize : (pre ++ entries.flatMap CertEntry.encode).length < 2 ^ 31)
    (hend : (pre ++ entries.flatMap CertEntry.encode).length = listEnd) :
    readCertEntries n (pre ++ entries.flatMap CertEntry.encode) listEnd certs
        (.here pre (entries.flatMap CertEntry.encode)) =
      (certs ++ entries.map CertEntry.cert, .here (pre ++ entries.flatMap CertEntry.encode)
        []) := by
  induction entries generalizing n pre certs with
  | nil =>
      simp only [List.flatMap_nil, List.append_nil, List.map_nil] at hend ⊢
      have hstop : ¬ ((Reader.here pre []).pos < listEnd ∧ (Reader.here pre []).err = false) := by
        rintro ⟨hlt, -⟩
        exact absurd hend (Nat.ne_of_lt hlt)
      cases n with
      | zero => rfl
      | succ n => rw [readCertEntries, if_neg hstop]
  | cons e entries ih =>
      obtain ⟨n, rfl⟩ := Nat.exists_eq_add_of_le' (Nat.le_of_add_left_le hcount)
      have hassoc : pre ++ (e.encode ++ entries.flatMap CertEntry.encode) =
          pre ++ e.encode ++ entries.flatMap CertEntry.encode := (List.append_assoc ..).symm
      rw [List.flatMap_cons] at hsize hend ⊢
      rw [readCertEntries_entry (hentries e List.mem_cons_self) hsize hend]
      rw [hassoc] at hsize hend ⊢
      rw [ih (fun e' he' => hentries e' (List.mem_cons_of_mem _ he'))
        (Nat.le_of_succ_le_succ hcount) hsize hend, List.map_cons, List.append_assoc certs]
      rfl

/-- What a loop without an error has read. -/
theorem readCertEntries_ok (hsize : (pre ++ rest).length < 2 ^ 31)
    (hend : (pre ++ rest).length = listEnd)
    (hok : (readCertEntries n (pre ++ rest) listEnd certs (.here pre rest)).2.err = false)
    (hall : (readCertEntries n (pre ++ rest) listEnd certs (.here pre rest)).2.pos = listEnd) :
    ∃ entries : List CertEntry, (∀ e ∈ entries, e.Sized) ∧ entries.length ≤ n ∧
      rest = entries.flatMap CertEntry.encode := by
  induction n generalizing pre rest certs with
  | zero =>
      have hpos : pre.length = listEnd := hall
      rw [List.length_append] at hend
      have hnil : rest = [] := List.eq_nil_of_length_eq_zero (by omega)
      exact ⟨[], by simp, Nat.le_refl 0, hnil⟩
  | succ n ih =>
      by_cases hne : rest = []
      · exact ⟨[], by simp, Nat.zero_le _, hne⟩
      · obtain ⟨e, more, he, rfl⟩ := readCertEntries_round hsize hend hne hok
        rw [readCertEntries_entry he hsize hend] at hok hall
        rw [← List.append_assoc] at hsize hend hok hall
        obtain ⟨entries, hentries, hcount, rfl⟩ := ih hsize hend hok hall
        refine ⟨e :: entries, ?_, Nat.succ_le_succ hcount, (List.flatMap_cons ..).symm⟩
        intro e' he'
        rcases List.mem_cons.1 he' with rfl | hmem
        · exact he
        · exact hentries e' hmem

end Entries

/-! ### The readers -/

/-- Past the empty context and the length of the list. -/
theorem parseCertList_list {v : Nat} {more : Bytes} (hv : v < 2 ^ 24) :
    parseCertList ([0] ++ (u24 v ++ more)) =
      (do
        failIf (4 + v ≠ ([0] ++ (u24 v ++ more)).length) .decode
        let result := readCertEntries maxChain ([0] ++ (u24 v ++ more)) (4 + v) []
          (.here ([0] ++ u24 v) more)
        failIf (result.2.err = true ∨ result.2.pos ≠ 4 + v) .decode
        pure result.1) := by
  have hu8 : (Reader.init ([0] ++ (u24 v ++ more))).u8 = (0, .here [0] (u24 v ++ more)) :=
    Reader.here_u8 [] _ 0
  have hbytes : (Reader.here [0] (u24 v ++ more)).bytes 0 = (some 1, .here [0] (u24 v ++ more)) :=
    @Reader.here_bytes [0] [] (u24 v ++ more) (by decide)
  have hu24 : (Reader.here [0] (u24 v ++ more)).u24 = (v, .here ([0] ++ u24 v) more) :=
    Reader.here_u24 hv (by decide)
  have hend : add32 (Reader.here ([0] ++ u24 v) more).pos v = 4 + v := by
    show add32 4 v = 4 + v
    exact add32_eq (by omega)
  unfold parseCertList
  dsimp only
  rw [hu8]
  dsimp only
  rw [hbytes]
  dsimp only
  rw [hu24]
  dsimp only
  rw [hend]
  have hcond : ((Reader.here ([0] ++ u24 v) more).err = true ∨ (0 : Nat) ≠ 0 ∨
      4 + v ≠ ([0] ++ (u24 v ++ more)).length) ↔ 4 + v ≠ ([0] ++ (u24 v ++ more)).length := by
    simp
  have hsame : ∀ {c d : Prop} [Decidable c] [Decidable d], (c ↔ d) →
      (failIf c Err.decode : Ret) = failIf d .decode := by
    intro c d _ _ h
    unfold failIf
    by_cases hc : c
    · rw [if_pos hc, if_pos (h.1 hc)]
    · rw [if_neg hc, if_neg (fun hd => hc (h.2 hd))]
  rw [hsame hcond]

/-- A list that is read begins with an empty context and a length. -/
theorem parseCertList_front {body : Bytes} {certs : List Bytes} (hsize : body.length < 2 ^ 31)
    (h : parseCertList body = .ok certs) :
    ∃ (v : Nat) (more : Bytes), v < 2 ^ 24 ∧ body = [0] ++ (u24 v ++ more) := by
  have hdef : ∃ k : Unit → Except Err (List Bytes), parseCertList body =
      failIf (((Reader.init body).u8.2.bytes (Reader.init body).u8.1).2.u24.2.err = true ∨
        (Reader.init body).u8.1 ≠ 0 ∨
        add32 ((Reader.init body).u8.2.bytes (Reader.init body).u8.1).2.u24.2.pos
          ((Reader.init body).u8.2.bytes (Reader.init body).u8.1).2.u24.1 ≠ body.length) .decode >>=
        k := ⟨_, rfl⟩
  obtain ⟨k, hk⟩ := hdef
  rw [hk] at h
  obtain ⟨_, hchecks, -⟩ := except_bind_eq_ok.1 h
  rw [failIf_eq_ok, not_or, not_or, not_not] at hchecks
  obtain ⟨herr, hctx, -⟩ := hchecks
  clear hk
  have hthird : ((Reader.init body).u8.2.bytes (Reader.init body).u8.1).2.u24.2.err = false :=
    Bool.eq_false_iff.2 herr
  have hsecond : ((Reader.init body).u8.2.bytes (Reader.init body).u8.1).2.err = false :=
    (Reader.uint_noErr hthird).1
  have hfirst : (Reader.init body).u8.2.err = false := (Reader.bytes_noErr hsecond).1
  cases body with
  | nil => exact absurd (Reader.u8_noErr hfirst).2.1 (Nat.not_lt_zero _)
  | cons b rest =>
      have hu8 : (Reader.init (b :: rest)).u8 = (b.toNat, .here [b] rest) :=
        Reader.here_u8 [] rest b
      rw [hu8] at hctx hthird
      dsimp only at hctx hthird
      have hb : b = 0 := UInt8.toNat_inj.1 hctx
      have hbytes : (Reader.here [b] rest).bytes 0 = (some 1, .here [b] rest) :=
        @Reader.here_bytes [b] [] rest (show 1 < 2 ^ 32 by decide)
      rw [hctx, hbytes] at hthird
      dsimp only at hthird
      rcases @Reader.u24_here [b] rest (by simp at hsize ⊢; omega) with ⟨v, more, hv, rfl, -⟩ | hbad
      · exact ⟨v, more, hv, by rw [hb]; rfl⟩
      · exact absurd hthird (by rw [hbad.2]; exact Bool.noConfusion)

/-- A list of this form is read. -/
theorem parseCertList_body {entries : List CertEntry} (hcount : entries.length ≤ maxChain)
    (hentries : ∀ e ∈ entries, e.Sized) (hlist : (entries.flatMap CertEntry.encode).length < 2 ^ 24)
    (hsize : (certListBody entries).length < 2 ^ 31) :
    parseCertList (certListBody entries) = .ok (entries.map CertEntry.cert) := by
  have hbody : certListBody entries = [0] ++ (u24 (entries.flatMap CertEntry.encode).length ++
    entries.flatMap CertEntry.encode) := rfl
  have hassoc := (List.append_assoc [0] (u24 (entries.flatMap CertEntry.encode).length)
    (entries.flatMap CertEntry.encode)).symm
  have hend : ([0] ++ u24 (entries.flatMap CertEntry.encode).length ++
      entries.flatMap CertEntry.encode).length =
        4 + (entries.flatMap CertEntry.encode).length := by
    simp only [List.length_append, u24_length, List.length_singleton]
  rw [hbody] at hsize ⊢
  rw [parseCertList_list hlist, hassoc]
  rw [hassoc] at hsize
  refine except_bind_eq_ok.2 ⟨(), failIf_eq_ok.2 (not_not.2 hend.symm), ?_⟩
  dsimp only
  rw [readCertEntries_all hentries hcount hsize hend]
  refine except_bind_eq_ok.2 ⟨(), failIf_eq_ok.2 ?_, ?_⟩
  · rintro (herr | hpos)
    · cases herr
    · exact hpos hend
  · rfl

/-- The client reads exactly the certificate lists with an empty context, of at most four entries,
and takes the certificates of them. -/
theorem certList_exact (body : Bytes) (hsize : body.length < 2 ^ 31) (certs : List Bytes) :
    parseCertList body = .ok certs ↔
      ∃ entries : List CertEntry, entries.length ≤ maxChain ∧ (∀ e ∈ entries, e.Sized) ∧
        (entries.flatMap CertEntry.encode).length < 2 ^ 24 ∧ body = certListBody entries ∧
        certs = entries.map CertEntry.cert := by
  constructor
  · intro h
    obtain ⟨v, more, hv, rfl⟩ := parseCertList_front hsize h
    rw [parseCertList_list hv] at h
    obtain ⟨_, hend, h⟩ := except_bind_eq_ok.1 h
    obtain ⟨_, hall, heq⟩ := except_bind_eq_ok.1 h
    rw [failIf_eq_ok, not_not] at hend
    rw [failIf_eq_ok, not_or, not_not] at hall
    have hassoc : [0] ++ (u24 v ++ more) = [0] ++ u24 v ++ more := (List.append_assoc ..).symm
    rw [hassoc] at hsize hend hall heq
    obtain ⟨entries, hentries, hcount, rfl⟩ :=
      readCertEntries_ok hsize hend.symm (Bool.eq_false_iff.2 hall.1) hall.2
    have hlen : (entries.flatMap CertEntry.encode).length = v := by
      simp only [List.length_append, u24_length, List.length_singleton] at hend
      omega
    refine ⟨entries, hcount, hentries, hlen.trans_lt hv, ?_, ?_⟩
    · rw [certListBody, vec24, hlen]
    · rw [readCertEntries_all hentries hcount hsize hend.symm, List.nil_append] at heq
      exact (Except.ok.inj heq).symm
  · rintro ⟨entries, hcount, hentries, hlist, rfl, rfl⟩
    exact parseCertList_body hcount hentries hlist hsize

theorem certList_exact_sample : ([0, 0, 0, 8, 0, 0, 2, 48, 0, 0, 1, 7] : Bytes).length < 2 ^ 31 ∧
    parseCertList [0, 0, 0, 8, 0, 0, 2, 48, 0, 0, 1, 7] = .ok [[48, 0]] := by
  refine ⟨by decide, (certList_exact _ (by decide) _).2 ⟨[⟨[48, 0], [7]⟩], by decide, ?_, by decide,
    by decide, rfl⟩⟩
  exact List.forall_mem_singleton.2 ⟨by decide, by decide⟩

/-- The body of a CertificateVerify message. -/
def certVerifyBody (scheme : Nat) (sig : Bytes) : Bytes := u16 scheme ++ vec16 sig

theorem parseCertVerify_eq (body : Bytes) : parseCertVerify body =
    failIf ((Reader.init body).u16.2.u16.2.err = true ∨
      add32 (Reader.init body).u16.2.u16.2.pos (Reader.init body).u16.2.u16.1 ≠ body.length)
        .decode >>=
      fun _ => pure ((Reader.init body).u16.1,
        slice body (Reader.init body).u16.2.u16.2.pos (Reader.init body).u16.2.u16.1) := rfl

/-- A body of this form is read. -/
theorem parseCertVerify_body {scheme : Nat} {sig : Bytes} (hscheme : scheme < 2 ^ 16)
    (hsig : sig.length < 2 ^ 16) :
    parseCertVerify (certVerifyBody scheme sig) = .ok (scheme, sig) := by
  have hfirst : (Reader.init (certVerifyBody scheme sig)).u16 =
      (scheme, .here (u16 scheme) (u16 sig.length ++ sig)) :=
    @Reader.here_u16 [] (u16 sig.length ++ sig) scheme hscheme (by decide)
  have hsecond : (Reader.here (u16 scheme) (u16 sig.length ++ sig)).u16 =
      (sig.length, .here (u16 scheme ++ u16 sig.length) sig) :=
    Reader.here_u16 hsig (by rw [u16_length]; decide)
  have hlen : (certVerifyBody scheme sig).length = 4 + sig.length := by
    rw [certVerifyBody, List.length_append, vec16_length, u16_length]
    omega
  have hslice : slice (certVerifyBody scheme sig) 4 sig.length = sig := by
    refine slice_eq_of_eq_append (u16 scheme ++ u16 sig.length) [] ?_ rfl rfl
    rw [List.append_nil, certVerifyBody, vec16, List.append_assoc]
  rw [parseCertVerify_eq, hfirst]
  dsimp only
  rw [hsecond]
  refine except_bind_eq_ok.2 ⟨(), failIf_eq_ok.2 ?_, congrArg (fun b => Except.ok (scheme, b))
    hslice⟩
  rintro (herr | hend)
  · cases herr
  · refine hend ?_
    show add32 4 sig.length = _
    rw [add32_eq (by omega), hlen]

/-- The client reads exactly the scheme and a signature that fills the rest. -/
theorem certVerify_exact (body : Bytes) (hsize : body.length < 2 ^ 31) (scheme : Nat)
    (sig : Bytes) :
    parseCertVerify body = .ok (scheme, sig) ↔
      scheme < 2 ^ 16 ∧ sig.length < 2 ^ 16 ∧ body = certVerifyBody scheme sig := by
  constructor
  · intro h
    rw [parseCertVerify_eq] at h
    obtain ⟨_, hchecks, heq⟩ := except_bind_eq_ok.1 h
    rw [failIf_eq_ok, not_or, not_not] at hchecks
    obtain ⟨herr, hend⟩ := hchecks
    have hsecond := Bool.eq_false_iff.2 herr
    have hfirst : (Reader.init body).u16.2.err = false := (Reader.uint_noErr hsecond).1
    rcases @Reader.uint_here [] body 2
      (by simp; omega) with ⟨field, more, rfl, hfield, hread⟩ | hbad
    · have hread₁ : (Reader.init (field ++ more)).u16 = (ofBE field, .here field more) := hread
      rw [hread₁] at hend heq hsecond
      dsimp only at hend heq hsecond
      rw [List.length_append] at hsize
      rcases @Reader.uint_here field more 2 (by rw [List.length_append]; omega) with
        ⟨len, rest, rfl, hlen, hread⟩ | hbad
      · have hread₂ : (Reader.here field (len ++ rest)).u16 =
            (ofBE len, .here (field ++ len) rest) :=
          hread
        have hscheme := ofBE_lt_u16 hfield
        have hshort := ofBE_lt_u16 hlen
        rw [hread₂] at hend heq
        dsimp only at hend heq
        have hpos : (Reader.here (field ++ len) rest).pos = 4 := by
          show (field ++ len).length = 4
          rw [List.length_append, hfield, hlen]
        rw [hpos, add32_eq (by omega)] at hend
        rw [hpos] at heq
        obtain ⟨rfl, rfl⟩ := Prod.mk.inj (Except.ok.inj heq)
        simp only [List.length_append, hfield, hlen] at hend
        have hrest : slice (field ++ (len ++ rest)) 4 (ofBE len) = rest := by
          refine slice_eq_of_eq_append (field ++ len) [] ?_ ?_ (by omega)
          · rw [List.append_nil, List.append_assoc]
          · rw [List.length_append, hfield, hlen]
        have hrestLen : rest.length = ofBE len := by omega
        refine ⟨hscheme, ?_, ?_⟩
        · rw [hrest, hrestLen]
          exact hshort
        · rw [hrest, certVerifyBody, vec16, hrestLen, u16_ofBE hfield, u16_ofBE hlen]
      · exact absurd hsecond (by
          have hbad' : (Reader.here field more).u16.2.err = true := hbad.2
          rw [hbad']
          exact Bool.noConfusion)
    · exact absurd hfirst (by
        have hbad' : (Reader.init body).u16.2.err = true := hbad.2
        rw [hbad']
        exact Bool.noConfusion)
  · rintro ⟨hscheme, hsig, rfl⟩
    exact parseCertVerify_body hscheme hsig

theorem certVerify_exact_sample : ([4, 3, 0, 2, 48, 0] : Bytes).length < 2 ^ 31 ∧
    parseCertVerify [4, 3, 0, 2, 48, 0] = .ok (0x0403, [48, 0]) := by
  refine ⟨by decide, (certVerify_exact _ (by decide) _ _).2 ?_⟩
  decide +kernel

/-! ### The encoders -/

/-- A Certificate message with one certificate and no extensions. -/
def certMessage (certDer : Bytes) : Bytes := [hsCertificate] ++ vec24 (certListBody [⟨certDer, []⟩])

theorem certMessage_length (certDer : Bytes) :
    (certMessage certDer).length = 13 + certDer.length := by
  simp only [certMessage, certListBody, List.length_append, vec24_length, List.length_singleton,
    List.flatMap_singleton, CertEntry.encode_length, List.length_nil]
  omega

open Writer.Appends in
/-- The server writes its certificate as such a message when it fits. -/
theorem serverCertBuild_fits {cap : Nat} {certDer : Bytes} (hcap : cap < 2 ^ 32)
    (hroom : 13 + certDer.length ≤ cap) :
    serverCertBuild cap certDer = .ok (certMessage certDer) := by
  have hentry := ((block 3 (bytes certDer)).comp (Writer.Appends.u16 0)).of_eq
    (b := CertEntry.encode ⟨certDer, []⟩) (by
      rw [be_three]
      rfl)
  have hall := ((u8 hsCertificate.toNat).comp (block 3 ((u8 0).comp (block 3 hentry)))).of_eq
    (b := certMessage certDer) (by
      rw [be_three, be_three, certMessage, certListBody, List.flatMap_singleton]
      rfl)
  have hlen := certMessage_length certDer
  have hwritten := @Writer.Appends.init _ _ hall (by omega) cap
  rw [if_pos (by omega)] at hwritten
  unfold serverCertBuild
  dsimp only
  exact (congrArg (fun w : Writer => if w.err then Except.error Err.crypto else .ok w.buf)
    hwritten).trans rfl

/-- A CertificateVerify message. -/
def certVerifyMessage (scheme : Nat) (sig : Bytes) : Bytes :=
  [hsCertVerify] ++ vec24 (certVerifyBody scheme sig)

theorem certVerifyMessage_length (scheme : Nat) (sig : Bytes) :
    (certVerifyMessage scheme sig).length = 8 + sig.length := by
  simp only [certVerifyMessage, certVerifyBody, List.length_append, vec24_length, vec16_length,
    u16_length, List.length_singleton]
  omega

/-- The server puts the signature it makes into such a message. -/
theorem serverCertVerifySign_fits {P : Platform} {cap scheme : Nat} {keyDer th sig : Bytes}
    {rng rng' : P.Rng} (hcap : cap < 2 ^ 32) (hroom : 8 + sig.length ≤ cap)
    (hsigned : signCv P scheme keyDer (buildCvTbs th) (cap - 8) rng = .ok (sig, rng')) :
    serverCertVerifySign P cap scheme keyDer th rng = .ok (certVerifyMessage scheme sig) := by
  have htype : (Writer.init cap).u8 hsCertVerify.toNat = .wrote cap [15] :=
    @Writer.u8_wrote cap [] _ hcap (by simp; omega)
  have hbody : (Writer.wrote cap [15]).lenStart 3 = (.wrote cap ([15] ++ zeros 3), 4) :=
    Writer.lenStart_wrote hcap (show 4 ≤ cap by omega)
  have hscheme : (Writer.wrote cap ([15] ++ zeros 3)).u16 scheme =
      .wrote cap ([15] ++ zeros 3 ++ u16 scheme) :=
    Writer.u16_wrote hcap (show 6 ≤ cap by omega)
  have hsig : (Writer.wrote cap ([15] ++ zeros 3 ++ u16 scheme)).lenStart 2 =
      (.wrote cap ([15] ++ zeros 3 ++ u16 scheme ++ zeros 2), 8) :=
    Writer.lenStart_wrote hcap (show 8 ≤ cap by omega)
  have hmade :
    (⟨[15] ++ zeros 3 ++ u16 scheme ++ zeros 2 ++ sig, cap, add32 8 sig.length, false⟩ : Writer) =
      .wrote cap ([15] ++ zeros 3 ++ u16 scheme ++ zeros 2 ++ sig) := by
    rw [add32_eq (by omega), Writer.wrote, List.length_append]
    rfl
  have hinner : (Writer.wrote cap ([15] ++ zeros 3 ++ u16 scheme ++ zeros 2 ++ sig)).lenEnd 8 2 =
      .wrote cap ([15] ++ zeros 3 ++ u16 scheme ++ be 2 sig.length ++ sig) :=
    @Writer.lenEnd_wrote cap ([15] ++ zeros 3 ++ u16 scheme) sig 2
      (show 6 + 2 + sig.length < 2 ^ 32 by omega)
  have houter :
    (Writer.wrote cap ([15] ++ zeros 3 ++ u16 scheme ++ be 2 sig.length ++ sig)).lenEnd 4 3 =
      .wrote cap (certVerifyMessage scheme sig) := by
    have hsplit : [15] ++ zeros 3 ++ u16 scheme ++ be 2 sig.length ++ sig =
        [15] ++ zeros 3 ++ certVerifyBody scheme sig := by
      rw [be_two, certVerifyBody, vec16]
      simp only [List.append_assoc]
    have hlen : (certVerifyBody scheme sig).length = 4 + sig.length := by
      rw [certVerifyBody, List.length_append, vec16_length, u16_length]
      omega
    have hend := @Writer.lenEnd_wrote cap [15] (certVerifyBody scheme sig) 3
      (show 1 + 3 + (certVerifyBody scheme sig).length < 2 ^ 32 by omega)
    rw [be_three] at hend
    rw [hsplit]
    refine hend.trans ?_
    rw [certVerifyMessage, vec24, List.append_assoc]
    rfl
  unfold serverCertVerifySign
  dsimp only
  rw [htype, hbody, hscheme, hsig]
  refine except_bind_eq_ok.2 ⟨(), failIf_eq_ok.2 Bool.false_ne_true, ?_⟩
  refine except_bind_eq_ok.2 ⟨(sig, rng'), hsigned, ?_⟩
  have hwriter : ({ Writer.wrote cap ([15] ++ zeros 3 ++ u16 scheme ++ zeros 2) with
      buf := (Writer.wrote cap ([15] ++ zeros 3 ++ u16 scheme ++ zeros 2)).buf ++ sig
      len := add32 (Writer.wrote cap ([15] ++ zeros 3 ++ u16 scheme ++ zeros 2)).len
        sig.length } : Writer) =
        .wrote cap ([15] ++ zeros 3 ++ u16 scheme ++ zeros 2 ++ sig) := hmade
  dsimp only at hwriter ⊢
  rw [hwriter, hinner, houter]
  exact except_bind_eq_ok.2 ⟨(), failIf_eq_ok.2 Bool.false_ne_true, rfl⟩

end WolfNano
