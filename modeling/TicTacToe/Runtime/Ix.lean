/-
TicTacToe.Runtime.Ix — the instruction framing (`runtime/ix.rs`):
signers, actions, then a free-form tail.

`endOfActionsInIx` is what the signed prefix is cut at. It is a length
subtraction in the source; `decodes_decodeIx` shows that the buffer only
ever shrinks, so it does not underflow.

No `sorry`, no `axiom`, no `native_decide`.
-/
import TicTacToe.Runtime.Signer

namespace TicTacToe

open Lib

structure DecodedIx (A : Type) where
  signers : List (UInt8 × SignerEnum)
  actions : List A
  endOfActionsInIx : Nat

/-- One signer entry, checked against the index of the entry before it. -/
def decodeSignerAscending (nResources : Nat) (prev : Option UInt8) :
    Reader ((UInt8 × SignerEnum) × Option UInt8) := do
  let entry ← decodeSigner nResources
  if prev.any (fun p => entry.1 < p) then
    throw (.decode "ix.signer: resource_idx not ascending")
  else
    return (entry, some entry.1)

/-- The two sections, leaving the tail. -/
def decodeSections {A : Type} (nResources : Nat) (decodeAction : Nat → Reader A) :
    Reader (List (UInt8 × SignerEnum) × List A) := do
  let signers ← Reader.many "ix.signers" none (decodeSignerAscending nResources)
  let actions ← Reader.many "ix.actions" () fun _ => do
    let a ← decodeAction nResources
    return (a, ())
  return (signers, actions)

/-- `a - b` on lengths, which must not underflow. -/
def subLen (a b : Nat) : Except Fault Nat := if b ≤ a then .ok (a - b) else .error .panic

def decodeIx {A : Type} (orig : List UInt8) (nResources : Nat) (decodeAction : Nat → Reader A) :
    Except Fault (DecodedIx A) :=
  match decodeSections nResources decodeAction orig with
  | .error e _ => .error e
  | .ok (signers, actions) tail =>
    match subLen orig.length tail.length with
    | .error e => .error e
    | .ok endOfActionsInIx => .ok { signers, actions, endOfActionsInIx }

section Spec

variable {A : Type} {n : Nat} {dec : Nat → Reader A} {P : A → Prop}

theorem decodes_decodeSignerAscending (prev : Option UInt8) :
    Decodes Fault.IsReject (decodeSignerAscending n prev) (fun p => p.1.1.toNat < n) := by
  refine (decodes_decodeSigner n).bind fun entry h => Decodes.ite (fun _ => ?_) (fun _ => ?_)
  · exact decodes_throw trivial
  · exact decodes_pure h

theorem decodes_decodeSections (h : Decodes Fault.IsReject (dec n) P) :
    Decodes Fault.IsReject (decodeSections n dec)
      (fun p => (∀ s ∈ p.1, s.1.toNat < n) ∧ ∀ a ∈ p.2, P a) := by
  refine (Reader.decodes_many (P := fun s : UInt8 × SignerEnum => s.1.toNat < n) _
    decodes_decodeSignerAscending none).bind fun signers hs => ?_
  refine (Reader.decodes_many (P := P) _ (fun _ => h.bind fun a ha => decodes_pure ha) ()).bind
    fun actions ha => ?_
  exact decodes_pure ⟨hs, ha⟩

/-- Every exit of `decodeIx`: an in-bounds instruction whose actions section
ends inside the data, or a rejection. -/
theorem decodeIx_spec (orig : List UInt8) (h : Decodes Fault.IsReject (dec n) P) :
    match decodeIx orig n dec with
    | .ok ix => (∀ s ∈ ix.signers, s.1.toNat < n) ∧ (∀ a ∈ ix.actions, P a) ∧
        ix.endOfActionsInIx ≤ orig.length
    | .error e => e.IsReject := by
  have hsec := decodes_decodeSections h orig
  unfold decodeIx
  unfold wp at hsec
  cases hrun : decodeSections n dec orig with
  | error e s =>
    rw [hrun] at hsec
    exact hsec
  | ok p tail =>
    rw [hrun] at hsec
    obtain ⟨⟨hs, ha⟩, hsuf⟩ := hsec
    have hlen : tail.length ≤ orig.length := hsuf.length_le
    simp only [subLen, if_pos hlen]
    exact ⟨hs, ha, Nat.sub_le _ _⟩

/-- The signers of a decoded instruction are in ascending order. -/
theorem decodeIx_ascending {orig : List UInt8} {ix : DecodedIx A}
    (h : decodeIx orig n dec = .ok ix) : ix.signers.Pairwise fun a b => a.1 ≤ b.1 := by
  unfold decodeIx at h
  cases hsec : decodeSections n dec orig with
  | error e s =>
    rw [hsec] at h
    cases h
  | ok p tail =>
    have hsigners : ix.signers = p.1 := by
      rw [hsec] at h
      cases hlen : subLen orig.length tail.length with
      | error e =>
        simp only [hlen] at h
        cases h
      | ok m =>
        simp only [hlen] at h
        cases h
        rfl
    obtain ⟨signers, _, hmany, hrest⟩ := ok_bind.mp hsec
    obtain ⟨actions, _, -, hpure⟩ := ok_bind.mp hrest
    obtain ⟨rfl, -⟩ := ok_pure.mp hpure
    obtain ⟨count, _, -, hloop⟩ := ok_bind.mp hmany
    rw [hsigners]
    refine (pairwise_manyLoop
      (fun (prev : Option UInt8) (s : UInt8 × SignerEnum) => ∀ p ∈ prev, p ≤ s.1) ?_ hloop).1
    intro prev prev' buf rest entry hitem
    obtain ⟨entry', _, -, hitem⟩ := ok_bind.mp hitem
    by_cases hdown : prev.any (fun p => entry'.1 < p) = true
    · rw [if_pos hdown] at hitem
      exact (ok_throw.mp hitem).elim
    · rw [if_neg hdown] at hitem
      obtain ⟨hpair, -⟩ := ok_pure.mp hitem
      obtain ⟨rfl, rfl⟩ := Prod.mk.inj hpair
      have hprev : ∀ p ∈ prev, p ≤ entry'.1 := by
        intro p hp
        rw [Option.mem_def.mp hp] at hdown
        exact UInt8.not_lt.mp (by simpa using hdown)
      refine ⟨hprev, fun b hb => ?_⟩
      have hab := hb entry'.1 rfl
      exact ⟨fun p hp => UInt8.le_trans (hprev p hp) hab, hab⟩

end Spec

end TicTacToe
