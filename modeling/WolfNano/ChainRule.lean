/-
The path-validation rule and `wn_VerifyChain`.  The loop walks the list up to the
first certificate with the anchor's key; what it asks on the way is stated index
by index, and what stands behind that certificate is not looked at.
-/
import WolfNano.CertChain
import WolfNano.Sample

namespace WolfNano

open Duplex

/-- The SubjectPublicKeyInfo of a certificate, if it parses. -/
def spkiOf (B : X509Build) (der : Bytes) : Option Bytes :=
  (x509Parse B der).toOption.map X509Cert.spkiBytes

/-- A certificate with the anchor's key. -/
def carriesAnchorKey (B : X509Build) (anchor der : Bytes) : Bool :=
  (spkiOf B anchor).isSome && spkiOf B der == spkiOf B anchor

/-- The index of the first certificate with the anchor's key, or the length of the
list. -/
def stopIndex (B : X509Build) (anchor : Bytes) (certs : List Bytes) : Nat :=
  certs.findIdx (carriesAnchorKey B anchor)

/-- What is asked of a presented issuer. -/
structure IntermediateRule (B : X509Build) (now : Int) (issuer : X509Cert) : Prop where
  ca : issuer.exts.flags.ca = true
  certSign : issuer.exts.flags.kuSet = true → issuer.exts.keyCertSign = true
  time : x509TimeValid B issuer now = .ok ()

/-- What is asked of the certificate at an index and of its issuer. -/
structure LinkRule (B : X509Build) (signedBy : SignedBy) (anchor : Bytes) (now : Int)
    (certs : List Bytes) (i : Nat) : Prop where
  signed : ∃ child issuer, x509Parse B (certs.getD i []) = .ok child ∧
    x509Parse B (certs.getD (i + 1) anchor) = .ok issuer ∧ signedBy child issuer = true
  intermediate : i + 1 < certs.length → certs.getD (i + 1) anchor ≠ anchor →
    ∃ issuer, x509Parse B (certs.getD (i + 1) anchor) = .ok issuer ∧
      IntermediateRule B now issuer

/-- What is asked of the leaf. -/
structure LeafRule (B : X509Build) (serverName : Option CStr) (pinnedKey : Option Bytes)
    (now : Int) (spkiCap : Nat) (leaf : X509Cert) : Prop where
  fits : leaf.spki.len ≤ spkiCap
  digitalSignature : leaf.exts.flags.kuSet = true → leaf.exts.digitalSignature = true
  serverAuth : leaf.exts.flags.ekuSet = true → leaf.exts.serverAuth = true
  pin : ∀ pin ∈ pinnedKey,
    pin = if leaf.keyAlg = .ecdsa then leaf.spkiBytes else leaf.pubKey.bytes leaf.der
  name : ∀ host ∈ serverName, checkServerName B leaf host.1 = true
  time : x509TimeValid B leaf now = .ok ()

/-- The path-validation rule. -/
structure PathRule (B : X509Build) (signedBy : SignedBy) (certs : List Bytes)
    (anchor : Bytes) (serverName : Option CStr) (pinnedKey : Option Bytes) (now : Int)
    (spkiCap : Nat) (spki : Bytes) : Prop where
  nonempty : 1 ≤ certs.length
  parses : ∀ i ≤ min (stopIndex B anchor certs) (certs.length - 1),
    ∃ cert, x509Parse B (certs.getD i []) = .ok cert
  links : ∀ i < stopIndex B anchor certs, LinkRule B signedBy anchor now certs i
  leaf : ∃ leaf, x509Parse B (certs.getD 0 []) = .ok leaf ∧
    LeafRule B serverName pinnedKey now spkiCap leaf ∧ spki = leaf.spkiBytes

section Chain

variable {B : X509Build} {signedBy : SignedBy} {anchor der : Bytes} {now : Int}
  {certs rest : List Bytes}

/-! ### One certificate -/

theorem timeRet_ok {r : Asn Unit} : timeRet r = .ok () ↔ r = .ok () := by
  match r with
  | .ok () => exact Iff.intro (fun _ => rfl) (fun _ => rfl)
  | .error .invalidArg => exact Iff.intro (fun h => nomatch h) (fun h => nomatch h)
  | .error .x509Decode => exact Iff.intro (fun h => nomatch h) (fun h => nomatch h)
  | .error .x509CritExt => exact Iff.intro (fun h => nomatch h) (fun h => nomatch h)
  | .error .badCert => exact Iff.intro (fun h => nomatch h) (fun h => nomatch h)
  | .error .fault => exact Iff.intro (fun h => nomatch h) (fun h => nomatch h)

theorem checkIntermediate_ok {issuer : X509Cert} :
    checkIntermediate B issuer now = .ok () ↔ IntermediateRule B now issuer := by
  unfold checkIntermediate
  constructor
  · intro h
    split at h
    · cases h
    · rename_i hca
      split at h
      · cases h
      · rename_i hku
        rw [Bool.not_eq_false] at hca
        refine ⟨hca, fun hset => ?_, timeRet_ok.1 h⟩
        rw [not_and, Bool.not_eq_false] at hku
        exact hku hset
  · rintro ⟨hca, hku, htime⟩
    rw [if_neg (by simp [hca]), if_neg, timeRet_ok]
    · exact htime
    · rintro ⟨hset, hno⟩
      rw [hku hset] at hno
      cases hno

theorem carriesAnchorKey_iff {child : X509Cert} (hchild : x509Parse B der = .ok child) :
    carriesAnchorKey B anchor der = true ↔ spkiOf B anchor = some child.spkiBytes := by
  have hspki : spkiOf B der = some child.spkiBytes := by
    rw [spkiOf, hchild]
    rfl
  unfold carriesAnchorKey
  rw [hspki, Bool.and_eq_true, beq_iff_eq]
  constructor
  · rintro ⟨-, heq⟩
    exact heq.symm
  · intro heq
    rw [heq]
    exact ⟨rfl, rfl⟩

theorem carriesAnchorKey_parses (h : carriesAnchorKey B anchor der = true) :
    ∃ cert, x509Parse B der = .ok cert := by
  unfold carriesAnchorKey at h
  rw [Bool.and_eq_true, beq_iff_eq] at h
  obtain ⟨hsome, heq⟩ := h
  rw [← heq] at hsome
  cases hparse : x509Parse B der with
  | ok cert => exact ⟨cert, rfl⟩
  | error e =>
      rw [spkiOf, hparse] at hsome
      cases hsome

/-! ### The loop -/

/-- The loop on one certificate. -/
theorem chainLoop_cons :
    chainLoop B signedBy anchor (spkiOf B anchor) now (der :: rest) = .ok () ↔
      carriesAnchorKey B anchor der = true ∨
        LinkRule B signedBy anchor now (der :: rest) 0 ∧
          chainLoop B signedBy anchor (spkiOf B anchor) now rest = .ok () := by
  have hnext : (der :: rest).getD (0 + 1) anchor = rest.headD anchor := by
    cases rest <;> rfl
  have hfirst : (der :: rest).getD 0 [] = der := rfl
  have hmore : 0 + 1 < (der :: rest).length ↔ rest ≠ [] := by
    cases rest <;> simp
  rw [chainLoop]
  cases hparse : x509Parse B der with
  | error e =>
      refine iff_of_false (fun h => nomatch h) ?_
      rintro (hstop | ⟨hlink, -⟩)
      · obtain ⟨cert, hcert⟩ := carriesAnchorKey_parses hstop
        cases hparse.symm.trans hcert
      · obtain ⟨child, issuer, hchild, -⟩ := hlink.signed
        cases hparse.symm.trans hchild
  | ok child =>
      rw [carriesAnchorKey_iff hparse]
      dsimp only
      by_cases hstop : spkiOf B anchor = some child.spkiBytes
      · rw [if_pos hstop]
        exact iff_of_true rfl (.inl hstop)
      · rw [if_neg hstop]
        cases hissuer : x509Parse B (rest.headD anchor) with
        | error e =>
            refine iff_of_false (fun h => nomatch h) ?_
            rintro (hstop' | ⟨hlink, -⟩)
            · exact hstop hstop'
            · obtain ⟨_, issuer, -, hparse', -⟩ := hlink.signed
              rw [hnext] at hparse'
              cases hissuer.symm.trans hparse'
        | ok issuer =>
            dsimp only
            by_cases hsig : signedBy child issuer = false
            · rw [if_pos hsig]
              refine iff_of_false (fun h => nomatch h) ?_
              rintro (hstop' | ⟨hlink, -⟩)
              · exact hstop hstop'
              · obtain ⟨child', issuer', hchild, hparse', hsig'⟩ := hlink.signed
                rw [hnext] at hparse'
                cases hparse.symm.trans hchild
                cases hissuer.symm.trans hparse'
                rw [hsig] at hsig'
                cases hsig'
            · rw [if_neg hsig]
              rw [Bool.not_eq_false] at hsig
              have hsigned : ∃ child' issuer',
                  x509Parse B ((der :: rest).getD 0 []) = .ok child' ∧
                  x509Parse B ((der :: rest).getD (0 + 1) anchor) = .ok issuer' ∧
                    signedBy child' issuer' = true :=
                ⟨child, issuer, hparse, by rw [hnext]; exact hissuer, hsig⟩
              by_cases hpresented : rest ≠ [] ∧ rest.headD anchor ≠ anchor
              · rw [if_pos hpresented]
                cases hcheck : checkIntermediate B issuer now with
                | error e =>
                    refine iff_of_false (fun h => nomatch h) ?_
                    rintro (hstop' | ⟨hlink, -⟩)
                    · exact hstop hstop'
                    · obtain ⟨issuer', hparse', hrule⟩ := hlink.intermediate
                        (hmore.2 hpresented.1) (by rw [hnext]; exact hpresented.2)
                      rw [hnext] at hparse'
                      cases hissuer.symm.trans hparse'
                      rw [checkIntermediate_ok.2 hrule] at hcheck
                      cases hcheck
                | ok u =>
                    have hlink : LinkRule B signedBy anchor now (der :: rest) 0 :=
                      ⟨hsigned, fun _ _ => ⟨issuer, by rw [hnext]; exact hissuer,
                        checkIntermediate_ok.1 hcheck⟩⟩
                    exact ⟨fun h => .inr ⟨hlink, h⟩, fun h => (h.resolve_left hstop).2⟩
              · rw [if_neg hpresented]
                have hlink : LinkRule B signedBy anchor now (der :: rest) 0 := by
                  refine ⟨hsigned, fun hlen hne => absurd ⟨hmore.1 hlen, ?_⟩ hpresented⟩
                  rw [← hnext]
                  exact hne
                exact ⟨fun h => .inr ⟨hlink, h⟩, fun h => (h.resolve_left hstop).2⟩

theorem linkRule_succ {i : Nat} :
    LinkRule B signedBy anchor now (der :: rest) (i + 1) ↔
      LinkRule B signedBy anchor now rest i := by
  constructor
  · rintro ⟨hsigned, hinter⟩
    exact ⟨hsigned, fun hlen => hinter (Nat.succ_lt_succ hlen)⟩
  · rintro ⟨hsigned, hinter⟩
    exact ⟨hsigned, fun hlen => hinter (Nat.lt_of_succ_lt_succ hlen)⟩

/-- The loop accepts a list exactly when every certificate before the one with the
anchor's key is linked to its issuer. -/
theorem chainLoop_ok :
    chainLoop B signedBy anchor (spkiOf B anchor) now certs = .ok () ↔
      ∀ i < stopIndex B anchor certs, LinkRule B signedBy anchor now certs i := by
  induction certs with
  | nil => exact iff_of_true rfl (fun i hi => nomatch hi)
  | cons der rest ih =>
      rw [chainLoop_cons, ih]
      by_cases hstop : carriesAnchorKey B anchor der = true
      · have hindex : stopIndex B anchor (der :: rest) = 0 := by
          rw [stopIndex, List.findIdx_cons, hstop]
          rfl
        rw [hindex]
        exact iff_of_true (.inl hstop) (fun i hi => nomatch hi)
      · have hindex : stopIndex B anchor (der :: rest) = stopIndex B anchor rest + 1 := by
          rw [Bool.not_eq_true] at hstop
          rw [stopIndex, List.findIdx_cons, hstop]
          rfl
        rw [hindex]
        constructor
        · intro h i hi
          obtain ⟨hfirst, hrest⟩ := h.resolve_left hstop
          cases i with
          | zero => exact hfirst
          | succ i => exact linkRule_succ.2 (hrest i (Nat.lt_of_succ_lt_succ hi))
        · intro h
          exact .inr ⟨h 0 (Nat.succ_pos _), fun i hi =>
            linkRule_succ.1 (h (i + 1) (Nat.succ_lt_succ hi))⟩

/-- What stands behind a certificate with the anchor's key is not looked at. -/
theorem chainLoop_append {signedBy : SignedBy} {before more more' : List Bytes}
    (hstop : carriesAnchorKey B anchor der = true) :
    chainLoop B signedBy anchor (spkiOf B anchor) now (before ++ der :: more) =
      chainLoop B signedBy anchor (spkiOf B anchor) now (before ++ der :: more') := by
  induction before with
  | nil =>
      have hboth : ∀ more, chainLoop B signedBy anchor (spkiOf B anchor) now (der :: more)
          = .ok () := fun more => chainLoop_cons.2 (.inl hstop)
      exact (hboth more).trans (hboth more').symm
  | cons first before ih =>
      have hhead : (before ++ der :: more).headD anchor =
          (before ++ der :: more').headD anchor := by
        cases before <;> rfl
      have hne : (before ++ der :: more ≠ []) = (before ++ der :: more' ≠ []) := by
        simp
      rw [List.cons_append, List.cons_append, chainLoop, chainLoop, hhead, ih]
      simp only [hne]

/-- Every certificate up to the one with the anchor's key parses. -/
theorem links_parse (h : ∀ i < stopIndex B anchor certs, LinkRule B signedBy anchor now certs i)
    {i : Nat} (hi : i ≤ min (stopIndex B anchor certs) (certs.length - 1))
    (hne : 1 ≤ certs.length) : ∃ cert, x509Parse B (certs.getD i []) = .ok cert := by
  rw [Nat.le_min] at hi
  rcases Nat.lt_or_eq_of_le hi.1 with hlt | heq
  · obtain ⟨child, issuer, hchild, -⟩ := (h i hlt).signed
    exact ⟨child, hchild⟩
  · have hlen : i < certs.length := by omega
    have hfound : carriesAnchorKey B anchor certs[i] = true := by
      subst heq
      exact List.findIdx_getElem
    rw [List.getD_eq_getElem _ _ hlen]
    exact carriesAnchorKey_parses hfound

/-! ### The leaf -/

theorem failIf_bind_ok {α : Type} {c : Prop} [Decidable c] {e : Err}
    {p : Unit → Except Err α} {a : α} :
    (failIf c e >>= p) = .ok a ↔ ¬ c ∧ p () = .ok a := by
  unfold failIf
  by_cases hc : c
  · rw [if_pos hc]
    exact iff_of_false (fun h => nomatch h) (fun h => h.1 hc)
  · rw [if_neg hc]
    exact ⟨fun h => ⟨hc, h⟩, fun h => h.2⟩

theorem checkKeyPin_eq_false {leaf : X509Cert} {pin : Bytes} :
    ¬ checkKeyPin leaf pin = false ↔ pin ≠ [] ∧
      pin = if leaf.keyAlg = .ecdsa then leaf.spkiBytes else leaf.pubKey.bytes leaf.der := by
  unfold checkKeyPin
  rw [Bool.not_eq_false, decide_eq_true_iff]

theorem checkLeaf_ok {leaf : X509Cert} {serverName : Option CStr} {pinnedKey : Option Bytes}
    {spkiCap : Nat} {spki : Bytes} :
    checkLeaf B leaf serverName pinnedKey now spkiCap = .ok spki ↔
      LeafRule B serverName pinnedKey now spkiCap leaf ∧ pinnedKey ≠ some [] ∧
        (serverName.isSome = true → B.hostname = true) ∧ spki = leaf.spkiBytes := by
  unfold checkLeaf
  simp only [failIf_bind_ok]
  constructor
  · rintro ⟨hfits, hku, heku, hpin, hhost, hname, hrest⟩
    cases htime : timeRet (x509TimeValid B leaf now) with
    | error e =>
        rw [htime] at hrest
        cases hrest
    | ok u =>
        rw [htime] at hrest
        cases hrest
        have hpins : ∀ pin ∈ pinnedKey, pin ≠ [] ∧ pin =
            if leaf.keyAlg = .ecdsa then leaf.spkiBytes else leaf.pubKey.bytes leaf.der := by
          intro pin hmem
          exact checkKeyPin_eq_false.1 fun hno => hpin ⟨pin, hmem, hno⟩
        refine ⟨⟨Nat.le_of_not_lt hfits, ?_, ?_, fun pin hmem => (hpins pin hmem).2, ?_,
          timeRet_ok.1 htime⟩, ?_, ?_, rfl⟩
        · intro hset
          rw [not_and, Bool.not_eq_false] at hku
          exact hku hset
        · intro hset
          rw [not_and, Bool.not_eq_false] at heku
          exact heku hset
        · intro host hmem
          by_contra hno
          exact hname ⟨host, hmem, Bool.not_eq_true _ ▸ hno⟩
        · rintro rfl
          exact (hpins [] rfl).1 rfl
        · intro hsome
          rw [not_and, Bool.not_eq_false] at hhost
          exact hhost hsome
  · rintro ⟨⟨hfits, hku, heku, hpin, hname, htime⟩, hempty, hhost, rfl⟩
    refine ⟨Nat.not_lt.2 hfits, ?_, ?_, ?_, ?_, ?_, ?_⟩
    · rintro ⟨hset, hno⟩
      rw [hku hset] at hno
      cases hno
    · rintro ⟨hset, hno⟩
      rw [heku hset] at hno
      cases hno
    · rintro ⟨pin, hmem, hno⟩
      refine checkKeyPin_eq_false.2 ⟨?_, hpin pin hmem⟩ hno
      rintro rfl
      exact hempty hmem
    · rintro ⟨hsome, hno⟩
      rw [hhost hsome] at hno
      cases hno
    · rintro ⟨host, hmem, hno⟩
      rw [hname host hmem] at hno
      cases hno
    · rw [timeRet_ok.2 htime]
      rfl

/-! ### `wn_VerifyChain` -/

/-- A chain is accepted when the loop and the checks on the leaf accept it. -/
theorem verifyChain_ok {serverName : Option CStr} {pinnedKey : Option Bytes} {spkiCap : Nat}
    {spki : Bytes} :
    verifyChain B signedBy certs anchor serverName pinnedKey now spkiCap = .ok spki ↔
      1 ≤ certs.length ∧ chainLoop B signedBy anchor (spkiOf B anchor) now certs = .ok () ∧
        ∃ leaf, x509Parse B (certs.getD 0 []) = .ok leaf ∧
          checkLeaf B leaf serverName pinnedKey now spkiCap = .ok spki := by
  cases certs with
  | nil => exact iff_of_false (fun h => nomatch h) (fun h => nomatch h.1)
  | cons der rest =>
      have hleaf : (der :: rest).getD 0 [] = der := rfl
      rw [hleaf]
      unfold verifyChain
      cases hloop : chainLoop B signedBy anchor (spkiOf B anchor) now (der :: rest) with
      | error e =>
          refine iff_of_false (fun h => ?_) (fun h => nomatch h.2.1)
          change (chainLoop B signedBy anchor (spkiOf B anchor) now (der :: rest) >>= _) = _ at h
          rw [hloop] at h
          cases h
      | ok u =>
          change (chainLoop B signedBy anchor (spkiOf B anchor) now (der :: rest) >>= _) = _ ↔ _
          rw [hloop]
          cases hparse : x509Parse B der with
          | error e =>
              exact iff_of_false (fun h => nomatch h) (fun ⟨_, _, leaf, h, _⟩ => nomatch h)
          | ok leaf =>
              constructor
              · intro h
                exact ⟨by simp, rfl, leaf, rfl, h⟩
              · rintro ⟨-, -, leaf', hleaf', h⟩
                cases hleaf'
                exact h

/-- Certificates behind one with the anchor's key have no influence. -/
theorem verifyChain_behind {serverName : Option CStr} {pinnedKey : Option Bytes}
    {spkiCap i : Nat} (hi : i < certs.length) (hstop : carriesAnchorKey B anchor certs[i] = true)
    (more : List Bytes) :
    verifyChain B signedBy (certs.take (i + 1) ++ more) anchor serverName pinnedKey now spkiCap =
      verifyChain B signedBy certs anchor serverName pinnedKey now spkiCap := by
  have hcerts : certs = certs.take i ++ certs[i] :: certs.drop (i + 1) := by
    rw [List.getElem_cons_drop, List.take_append_drop]
  have htake : certs.take (i + 1) ++ more = certs.take i ++ certs[i] :: more := by
    rw [List.take_succ_eq_append_getElem hi, List.append_assoc, List.singleton_append]
  have hloop := @chainLoop_append _ _ _ now signedBy (certs.take i) more (certs.drop (i + 1))
    hstop
  rw [htake]
  conv_rhs => rw [hcerts]
  cases hbefore : certs.take i with
  | nil =>
      rw [hbefore] at hloop
      simp only [List.nil_append] at hloop ⊢
      unfold verifyChain
      change (chainLoop B signedBy anchor (spkiOf B anchor) now _ >>= _) =
        (chainLoop B signedBy anchor (spkiOf B anchor) now _ >>= _)
      rw [hloop]
  | cons first before =>
      rw [hbefore] at hloop
      simp only [List.cons_append] at hloop ⊢
      unfold verifyChain
      change (chainLoop B signedBy anchor (spkiOf B anchor) now _ >>= _) =
        (chainLoop B signedBy anchor (spkiOf B anchor) now _ >>= _)
      rw [hloop]

/-- `wn_VerifyChain` accepts by the path-validation rule, where an empty pin is never
matched and a host name needs a build that supports it.  Certificates behind the
first with the anchor's key have no influence. -/
theorem verify_chain_rule (B : X509Build) (signedBy : SignedBy) (certs : List Bytes)
    (anchor : Bytes) (serverName : Option CStr) (pinnedKey : Option Bytes) (now : Int)
    (spkiCap : Nat) :
    (∀ spki, verifyChain B signedBy certs anchor serverName pinnedKey now spkiCap = .ok spki ↔
      PathRule B signedBy certs anchor serverName pinnedKey now spkiCap spki ∧
        pinnedKey ≠ some [] ∧ (serverName.isSome = true → B.hostname = true)) ∧
    ∀ more, stopIndex B anchor certs < certs.length →
      verifyChain B signedBy (certs.take (stopIndex B anchor certs + 1) ++ more) anchor
          serverName pinnedKey now spkiCap =
        verifyChain B signedBy certs anchor serverName pinnedKey now spkiCap := by
  constructor
  · intro spki
    rw [verifyChain_ok, chainLoop_ok]
    constructor
    · rintro ⟨hne, hlinks, leaf, hparse, hcheck⟩
      obtain ⟨hleaf, hpin, hhost, hspki⟩ := checkLeaf_ok.1 hcheck
      exact ⟨⟨hne, fun i hi => links_parse hlinks hi hne, hlinks, leaf, hparse, hleaf, hspki⟩,
        hpin, hhost⟩
    · rintro ⟨⟨hne, -, hlinks, leaf, hparse, hleaf, hspki⟩, hpin, hhost⟩
      exact ⟨hne, hlinks, leaf, hparse, checkLeaf_ok.2 ⟨hleaf, hpin, hhost, hspki⟩⟩
  · intro more hstop
    have hfound : carriesAnchorKey B anchor certs[stopIndex B anchor certs] = true :=
      List.findIdx_getElem
    exact verifyChain_behind hstop hfound more

/-- The leaf is the anchor, or its signature verifies under the next certificate of the
list or under the anchor. -/
def LeafSigned (B : X509Build) (signedBy : SignedBy) (certs : List Bytes) (anchor : Bytes) :
    Prop :=
  certs.head? = some anchor ∨ ∃ leaf issuerDer issuer,
    x509Parse B (certs.getD 0 []) = .ok leaf ∧
      (certs[1]? = some issuerDer ∨ issuerDer = anchor) ∧
        x509Parse B issuerDer = .ok issuer ∧ signedBy leaf issuer = true

/-- A leaf without the anchor's key was signed. -/
theorem linkRule_signed {certs : List Bytes}
    (h : LinkRule B signedBy anchor now certs 0) : LeafSigned B signedBy certs anchor := by
  obtain ⟨leaf, issuer, hleaf, hissuer, hsig⟩ := h.signed
  refine .inr ⟨leaf, certs.getD 1 anchor, issuer, hleaf, ?_, hissuer, hsig⟩
  rw [List.getD_eq_getElem?_getD]
  cases certs[1]? with
  | none => exact .inr rfl
  | some der => exact .inl rfl

/-- Whoever signs what, no leaf is accepted that nobody signed, exactly when the leaf
does not carry the anchor's key, or is the anchor, or is refused for what it says. -/
theorem accepted_leaf_signed (B : X509Build) (der : Bytes) (rest : List Bytes) (anchor : Bytes)
    (serverName : Option CStr) (pinnedKey : Option Bytes) (now : Int) (spkiCap : Nat) :
    (∀ signedBy spki,
      verifyChain B signedBy (der :: rest) anchor serverName pinnedKey now spkiCap = .ok spki →
        LeafSigned B signedBy (der :: rest) anchor) ↔
      (carriesAnchorKey B anchor der = true → der = anchor ∨
        ∀ leaf spki, x509Parse B der = .ok leaf →
          checkLeaf B leaf serverName pinnedKey now spkiCap ≠ .ok spki) := by
  constructor
  · intro hall hkey
    by_contra hno
    rw [not_or] at hno
    obtain ⟨hother, haccepts⟩ := hno
    simp only [not_forall, not_not] at haccepts
    obtain ⟨leaf, spki, hleaf, hcheck⟩ := haccepts
    have hsigned := hall (fun _ _ => false) spki (verifyChain_ok.2
      ⟨by simp, chainLoop_cons.2 (.inl hkey), leaf, hleaf, hcheck⟩)
    rcases hsigned with hanchor | ⟨_, _, _, -, -, -, hsig⟩
    · exact hother (Option.some.inj hanchor)
    · cases hsig
  · intro hkey signedBy spki haccepted
    obtain ⟨-, hloop, leaf, hleaf, hcheck⟩ := verifyChain_ok.1 haccepted
    rcases chainLoop_cons.1 hloop with hstop | ⟨hlink, -⟩
    · rcases hkey hstop with rfl | hrefused
      · exact .inl rfl
      · exact absurd hcheck (hrefused leaf spki hleaf)
    · exact linkRule_signed hlink

end Chain

namespace Sample

/-- A TLV with a short length. -/
def tlv (tag : UInt8) (contents : Bytes) : Bytes :=
  tag :: UInt8.ofNat contents.length :: contents

/-- An Ed25519 certificate with this serial number and key, valid in 2020. -/
def cert (serial : UInt8) (key : Bytes) : Bytes :=
  let alg := tlv 0x30 (tlv 0x06 oidEd25519)
  let time (s : String) := tlv 0x17 (ascii s)
  let tbs := tlv 0x30 (tlv 0x02 [serial] ++ alg ++ tlv 0x30 [] ++
    tlv 0x30 (time "200101000000Z" ++ time "210101000000Z") ++ tlv 0x30 [] ++
      tlv 0x30 (alg ++ tlv 0x03 (0 :: key)))
  tlv 0x30 (tbs ++ alg ++ tlv 0x03 [0, 7])

def x509Build : X509Build := ⟨platform.build, true, true, true, true⟩

/-- The parsed certificate. -/
def parsed (der : Bytes) : Option X509Cert := (x509Parse x509Build der).toOption

theorem parsed_eq {der : Bytes} {c : X509Cert} (h : parsed der = some c) :
    x509Parse x509Build der = .ok c := by
  unfold parsed at h
  cases hparse : x509Parse x509Build der with
  | error e =>
      rw [hparse] at h
      cases h
  | ok c' =>
      rw [hparse] at h
      cases h
      rfl

/-- A certificate with an empty key. -/
def keyless : Bytes := cert 1 []

theorem keyless_isSome : (parsed keyless).isSome = true := by
  decide +kernel

end Sample

/-- A leaf that the anchor signed; what follows the anchor is not read. -/
theorem verify_chain_rule_sample : ∃ spki,
    PathRule Sample.x509Build (fun _ _ => true) [Sample.cert 1 [8], Sample.cert 2 [9]]
      (Sample.cert 2 [9]) none none 1590969600 100 spki ∧
    verifyChain Sample.x509Build (fun _ _ => true) [Sample.cert 1 [8], Sample.cert 2 [9], [7]]
      (Sample.cert 2 [9]) none none 1590969600 100 = .ok spki := by
  have hsome : (verifyChain Sample.x509Build (fun _ _ => true)
      [Sample.cert 1 [8], Sample.cert 2 [9]] (Sample.cert 2 [9]) none none 1590969600
        100).toOption.isSome = true := by
    decide +kernel
  have hstop : stopIndex Sample.x509Build (Sample.cert 2 [9])
      [Sample.cert 1 [8], Sample.cert 2 [9]] = 1 := by
    decide +kernel
  cases haccepted : verifyChain Sample.x509Build (fun _ _ => true)
      [Sample.cert 1 [8], Sample.cert 2 [9]] (Sample.cert 2 [9]) none none 1590969600 100 with
  | error e =>
      rw [haccepted] at hsome
      cases hsome
  | ok spki =>
      have ⟨hrule, hbehind⟩ := verify_chain_rule Sample.x509Build (fun _ _ => true)
        [Sample.cert 1 [8], Sample.cert 2 [9]] (Sample.cert 2 [9]) none none 1590969600 100
      refine ⟨spki, ((hrule spki).1 haccepted).1, ?_⟩
      have hmore := hbehind [[7]] (hstop ▸ by decide)
      rw [hstop, haccepted] at hmore
      exact hmore

/-- The empty pin equals the empty key of a leaf and is refused all the same. -/
theorem empty_pin_refused :
    ¬ ∀ (B : X509Build) (signedBy : SignedBy) (certs : List Bytes) (anchor : Bytes)
      (serverName : Option CStr) (pinnedKey : Option Bytes) (now : Int) (spkiCap : Nat)
      (spki : Bytes),
      verifyChain B signedBy certs anchor serverName pinnedKey now spkiCap = .ok spki ↔
        PathRule B signedBy certs anchor serverName pinnedKey now spkiCap spki := by
  intro h
  obtain ⟨leaf, hleaf⟩ := Option.isSome_iff_exists.1 Sample.keyless_isSome
  have hparse := Sample.parsed_eq hleaf
  have hchecks : (Sample.parsed Sample.keyless).all (fun leaf =>
      leaf.spki.len ≤ 100 && !leaf.exts.flags.kuSet && !leaf.exts.flags.ekuSet &&
        leaf.keyAlg ≠ .ecdsa && leaf.pubKey.bytes leaf.der == [] &&
          (x509TimeValid Sample.x509Build leaf 1590969600).isOk) = true := by
    decide +kernel
  rw [hleaf] at hchecks
  simp only [Option.all_some, Bool.and_eq_true, decide_eq_true_eq, Bool.not_eq_true',
    beq_iff_eq] at hchecks
  obtain ⟨⟨⟨⟨⟨hfits, hku⟩, heku⟩, hkey⟩, hempty⟩, htime⟩ := hchecks
  have hstop : stopIndex Sample.x509Build Sample.keyless [Sample.keyless] = 0 := by
    decide +kernel
  have hrule : PathRule Sample.x509Build (fun _ _ => false) [Sample.keyless] Sample.keyless none
      (some []) 1590969600 100 leaf.spkiBytes := by
    refine ⟨Nat.le_refl 1, ?_, ?_, leaf, hparse, ⟨hfits, ?_, ?_, ?_, ?_, ?_⟩, rfl⟩
    · intro i hi
      obtain rfl : i = 0 := Nat.le_zero.1 (Nat.le_trans hi (Nat.min_le_right _ _))
      exact ⟨leaf, hparse⟩
    · intro i hi
      rw [hstop] at hi
      cases hi
    · intro hset
      rw [hku] at hset
      cases hset
    · intro hset
      rw [heku] at hset
      cases hset
    · intro pin hmem
      obtain rfl : [] = pin := Option.some.inj hmem
      rw [if_neg hkey, hempty]
    · intro host hhost
      cases hhost
    · cases hvalid : x509TimeValid Sample.x509Build leaf 1590969600 with
      | ok u => rfl
      | error e =>
          rw [hvalid] at htime
          cases htime
  have haccepted := (h _ _ _ _ _ _ _ _ _).2 hrule
  have hrefused : (verifyChain Sample.x509Build (fun _ _ => false) [Sample.keyless]
      Sample.keyless none (some []) 1590969600 100).toOption = none := by
    decide +kernel
  rw [haccepted] at hrefused
  cases hrefused

/-- A leaf with a key of its own. -/
theorem accepted_leaf_signed_sample :
    LeafSigned Sample.x509Build (fun _ _ => true) [Sample.cert 1 [8]] (Sample.cert 2 [9]) := by
  have hsome : (verifyChain Sample.x509Build (fun _ _ => true) [Sample.cert 1 [8]]
      (Sample.cert 2 [9]) none none 1590969600 100).toOption.isSome = true := by
    decide +kernel
  have hkey : carriesAnchorKey Sample.x509Build (Sample.cert 2 [9]) (Sample.cert 1 [8]) =
      false := by
    decide +kernel
  cases haccepted : verifyChain Sample.x509Build (fun _ _ => true) [Sample.cert 1 [8]]
      (Sample.cert 2 [9]) none none 1590969600 100 with
  | error e =>
      rw [haccepted] at hsome
      cases hsome
  | ok spki =>
      refine (accepted_leaf_signed Sample.x509Build (Sample.cert 1 [8]) [] (Sample.cert 2 [9])
        none none 1590969600 100).2 (fun hcarries => ?_) _ spki haccepted
      rw [hkey] at hcarries
      cases hcarries

/-- A leaf that nobody signed is accepted when it carries the anchor's key. -/
theorem unsigned_leaf_accepted :
    ¬ ∀ (B : X509Build) (signedBy : SignedBy) (certs : List Bytes) (anchor : Bytes)
      (serverName : Option CStr) (pinnedKey : Option Bytes) (now : Int) (spkiCap : Nat)
      (spki : Bytes),
      verifyChain B signedBy certs anchor serverName pinnedKey now spkiCap = .ok spki →
        LeafSigned B signedBy certs anchor := by
  intro h
  have hsome : (verifyChain Sample.x509Build (fun _ _ => false) [Sample.cert 2 [9]]
      (Sample.cert 1 [9]) none none 1590969600 100).toOption.isSome = true := by
    decide +kernel
  cases haccepted : verifyChain Sample.x509Build (fun _ _ => false) [Sample.cert 2 [9]]
      (Sample.cert 1 [9]) none none 1590969600 100 with
  | error e =>
      rw [haccepted] at hsome
      cases hsome
  | ok spki =>
      rcases h _ _ _ _ _ _ _ _ _ haccepted with hanchor | ⟨_, _, _, -, -, -, hsig⟩
      · exact absurd hanchor (by decide +kernel)
      · cases hsig

end WolfNano
