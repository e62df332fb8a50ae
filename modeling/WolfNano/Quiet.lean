/-
What the handshake stages are seen to do: most of them nothing, and which of them
neither install a write key nor protect a record.
-/
import WolfNano.ConnectCert
import WolfNano.Accept

namespace WolfNano

open Duplex

variable {P : Platform} {Q : Ev → Prop}

/-! ### Stages that are not seen to do anything -/

theorem ioRecvExact_notes {n : Nat} : Prog.Notes Q (ioRecvExact n) :=
  .bind .recv fun _ => .orFail

theorem recvRecord_notes {cap : Nat} : Prog.Notes Q (recvRecord cap) :=
  .bind ioRecvExact_notes fun _ => .bind .failIf fun _ =>
    .bind ioRecvExact_notes fun _ => .bind .failIf fun _ => .pure

theorem sendPlainRecord_notes {type : UInt8} {body : Bytes} :
    Prog.Notes Q (sendPlainRecord type body) :=
  .bind .send fun _ => .bind .failIf fun _ => .bind .send fun _ => .failIf

theorem sendRecord_notes {rec : Bytes} : Prog.Notes Q (sendRecord rec) :=
  .bind .send fun _ => .failIf

theorem recvSkipCcs_notes {cap fuel : Nat} : Prog.Notes Q (recvSkipCcs cap fuel) := by
  induction fuel with
  | zero => exact .spin
  | succ fuel ih => exact .bind recvRecord_notes fun _ => .ite ih .pure

theorem recvServerHello_notes {fuel cap : Nat} {pskSelected : Int} {sid : Bytes}
    {ks : KeyShare P} {tc : Transcript} :
    Prog.Notes Q (recvServerHello P fuel cap pskSelected sid ks tc) :=
  .bind recvSkipCcs_notes fun _ => .bind .failIf fun _ => .bind .lift fun _ =>
    .bind .failIf fun _ => .bind .lift fun _ => .bind .failIf fun _ =>
      .bind .lift fun _ => .pure

theorem sendServerHello_notes {scratchLen : Nat} {random32 : Bytes} {hello : Hello}
    {tc : Transcript} {includePsk : Bool} {rng : P.Rng} :
    Prog.Notes Q (sendServerHello P scratchLen random32 hello tc includePsk rng) :=
  .bind .lift fun _ => .bind .lift fun _ => .bind .lift fun _ => .bind .lift fun _ =>
    .bind sendPlainRecord_notes fun _ =>
      .ite .pure (.bind sendPlainRecord_notes fun _ => .pure)

/-! ### The first flight -/

section Reassembling

/-- What follows a check may use it. -/
theorem notes_failIf_bind {α : Type} {c : Prop} [Decidable c] {e : Err}
    {f : Unit → Shell α} (h : ¬ c → Prog.Notes Q (f ())) :
    Prog.Notes Q (Prog.failIf c e >>= f) := by
  unfold Prog.failIf
  split
  · trivial
  · rename_i hc
    exact h hc

/-- The loop copies into its accumulator and stays inside, however the transport behaves. -/
theorem recvHandshake_notes {accCap tmpCap fuel : Nat} {acc : Bytes}
    (hcopy : ∀ off n, off + n ≤ accCap → Q (.copy accCap off n)) (hacc : acc.length ≤ accCap) :
    Prog.Notes Q (recvHandshake accCap tmpCap fuel acc) := by
  induction fuel generalizing acc with
  | zero => exact .spin
  | succ fuel ih =>
      refine .bind recvRecord_notes fun r => .ite (ih hacc) ?_
      refine .bind .failIf fun _ => notes_failIf_bind fun hbig => ?_
      have hroom : acc.length + r.fragment.length ≤ accCap := by omega
      have hnext : (acc ++ r.fragment).length ≤ accCap := by
        rw [List.length_append]
        exact hroom
      exact .bind (.note (hcopy _ _ hroom)) fun _ => .ite (ih hnext) <| .bind .failIf fun _ =>
        .ite (ih hnext) <| .bind .failIf fun _ => .pure

variable {scratchLen : Nat} {fuel : Nat} {tc : Transcript}
  (hcopy : ∀ off n, off + n ≤ scratchLen / 2 → Q (.copy (scratchLen / 2) off n))

include hcopy

theorem acceptMaybeHrr_notes {msg : Bytes} {ch : ClientHello} :
    Prog.Notes Q (acceptMaybeHrr P fuel scratchLen tc msg ch) :=
  .ite .pure <| .bind .lift fun _ => .bind .lift fun _ => .bind .lift fun _ =>
    .bind .lift fun _ => .bind sendPlainRecord_notes fun _ =>
      .bind sendPlainRecord_notes fun _ =>
        .bind (recvHandshake_notes hcopy (Nat.zero_le _)) fun _ =>
          .bind .lift fun _ => .bind .failIf fun _ => .pure

theorem acceptHello_notes : Prog.Notes Q (acceptHello P fuel scratchLen tc) :=
  .bind (recvHandshake_notes hcopy (Nat.zero_le _)) fun _ => .bind .lift fun _ =>
    .bind (acceptMaybeHrr_notes hcopy) fun _ => .pure

end Reassembling

/-! ### The write key -/

/-- Whether an observation concerns the write key. -/
def Ev.onWriteKey : Ev → Bool
  | .protect .. => true
  | .writeKey .. => true
  | _ => false

/-- No run of the program touches the write key. -/
abbrev Quiet {α : Type} (p : Shell α) : Prop :=
  Prog.Notes (fun e => e.onWriteKey = false) p

theorem recvRecord_quiet {cap : Nat} : Quiet (recvRecord cap) := recvRecord_notes

theorem recordUnprotect_quiet {cap : Nat} {key iv : Bytes} {seq : UInt64}
    {rec : Bytes} : Quiet (recordUnprotect P cap key iv seq rec) :=
  .bind .failIf fun _ => .bind (.note rfl) fun _ => .lift

theorem recordUnprotectInto_quiet {out : OutRegion} {key iv : Bytes} {seq : UInt64}
    {rec : Bytes} : Quiet (recordUnprotectInto P out key iv seq rec) :=
  recordUnprotectInto_both recordUnprotect_quiet fun _ =>
    .bind .failIf fun _ => .bind (.note rfl) fun _ => .lift

theorem sendPlainRecord_quiet {type : UInt8} {body : Bytes} :
    Quiet (sendPlainRecord type body) := sendPlainRecord_notes

theorem sendRecord_quiet {rec : Bytes} : Quiet (sendRecord rec) := sendRecord_notes

theorem recvServerHello_quiet {fuel cap : Nat} {pskSelected : Int} {sid : Bytes}
    {ks : KeyShare P} {tc : Transcript} :
    Quiet (recvServerHello P fuel cap pskSelected sid ks tc) := recvServerHello_notes

theorem pskFlight_quiet {scratchLen fuel : Nat} {keys : HsKeys} {st : PskFlight} :
    Quiet (pskFlight P scratchLen keys fuel st) := by
  induction fuel generalizing st with
  | zero => exact .spin
  | succ fuel ih =>
      exact .bind recvRecord_quiet fun _ => .ite ih <|
        .bind .failIf fun _ => .bind .failIf fun _ =>
          .bind recordUnprotect_quiet fun _ => .bind .failIf fun _ =>
            .bind .lift fun _ => .ite .pure ih

theorem certFlight_quiet {X : X509Backend} {args : CertArgs} {fuel : Nat}
    {keys : HsKeys} {st : CertFlight} :
    Quiet (certFlight P X args keys fuel st) := by
  induction fuel generalizing st with
  | zero => exact .spin
  | succ fuel ih =>
      exact .bind recvRecord_quiet fun _ => .ite ih <|
        .bind .failIf fun _ => .bind recordUnprotect_quiet fun _ =>
          .bind .failIf fun _ => .bind .failIf fun _ => .bind (.note rfl) fun _ =>
            .bind .lift fun _ => .ite .pure ih

theorem acceptHello_quiet {fuel scratchLen : Nat} {tc : Transcript} :
    Quiet (acceptHello P fuel scratchLen tc) := acceptHello_notes fun _ _ _ => rfl

theorem sendServerHello_quiet {scratchLen : Nat} {random32 : Bytes} {hello : Hello}
    {tc : Transcript} {includePsk : Bool} {rng : P.Rng} :
    Quiet (sendServerHello P scratchLen random32 hello tc includePsk rng) :=
  sendServerHello_notes

theorem recvClientFinished_quiet {scratchLen finCap fuel : Nat} {out : OutRegion}
    {keys : HsKeys} {recvMac : Bytes} :
    Quiet (recvClientFinished P scratchLen finCap out keys recvMac fuel) := by
  induction fuel with
  | zero => exact .spin
  | succ fuel ih =>
      exact .bind recvRecord_quiet fun _ => .ite ih <|
        .bind .failIf fun _ => .bind .failIf fun _ =>
          .bind recordUnprotectInto_quiet fun _ => .bind .failIf fun _ => .failIf

end WolfNano
