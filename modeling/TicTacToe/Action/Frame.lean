/-
TicTacToe.Action.Frame — the whole instruction as one format: signer
entries, then actions, then the tail.

The signer section differs from the other counted lists in that each
entry is checked against the one before it. `decodeSections_iff` is the
format of the two sections with any signers; `instruction_codec_exact` is
about the instructions without.

No `sorry`, no `axiom`, no `native_decide`.
-/
import TicTacToe.Action.Encode

namespace TicTacToe

open Lib

/-! ## Signer entries -/

/-- Input index and three offsets. -/
def PrevTxV1Witness.encode (s : PrevTxV1Witness) : List UInt8 :=
  s.inputIdx :: (le32 s.offset0 ++ (le32 s.offset1 ++ le32 s.offset2))

/-- The kind byte and the kind's fields. -/
def SignerEnum.encode : SignerEnum → List UInt8
  | schnorrSigPtr sigOffset => 0x01 :: le32 sigOffset
  | prevTxV1Witness s => 0x02 :: s.encode
  | multisigSchnorrSigPtr pubkeyIdx sigOffset => 0x03 :: pubkeyIdx :: le32 sigOffset
  | multisigPrevTxV1Witness s => 0x04 :: s.encode
  | genesisSchnorrSigPtr sigOffset => 0x05 :: le32 sigOffset

def encodeSigner (entry : UInt8 × SignerEnum) : List UInt8 := entry.1 :: entry.2.encode

section Signers

variable {n : Nat} {buf rest : List UInt8}

theorem decodePrevTxV1Witness_ok {s : PrevTxV1Witness} :
    decodePrevTxV1Witness buf = .ok s rest ↔ buf = s.encode ++ rest := by
  simp only [decodePrevTxV1Witness, ok_bind, byte_ok, leU32_ok, ok_pure, PrevTxV1Witness.encode]
  constructor
  · intro h
    obtain ⟨_, _, rfl, _, _, rfl, _, _, rfl, _, _, rfl, rfl, rfl⟩ := h
    simp
  · intro h
    obtain ⟨i, a, b, c⟩ := s
    exact ⟨i, _, by simpa using h, a, _, rfl, b, _, rfl, c, _, rfl, rfl, rfl⟩

/-- The five kinds are one format. -/
theorem readsOnly_decodeSigner (n : Nat) :
    ReadsOnly (fun s : UInt8 × SignerEnum => s.1.toNat < n) (decodeSigner n) encodeSigner := by
  intro buf entry rest
  simp only [decodeSigner, ok_bind, readResourceIdx_ok, byte_ok]
  constructor
  · intro h
    obtain ⟨idx, _, ⟨hidx, rfl⟩, kind, _, rfl, h⟩ := h
    split_ifs at h with h₁ h₂ h₃ h₄ h₅
    · obtain ⟨off, _, hoff, hpure⟩ := ok_bind.mp h
      obtain ⟨rfl, rfl⟩ := ok_pure.mp hpure
      exact ⟨hidx, by rw [leU32_ok.mp hoff, h₁]; rfl⟩
    · obtain ⟨s, _, hs, hpure⟩ := ok_bind.mp h
      obtain ⟨rfl, rfl⟩ := ok_pure.mp hpure
      exact ⟨hidx, by rw [decodePrevTxV1Witness_ok.mp hs, h₂]; rfl⟩
    · obtain ⟨i, _, hi, h⟩ := ok_bind.mp h
      obtain ⟨off, _, hoff, hpure⟩ := ok_bind.mp h
      obtain ⟨rfl, rfl⟩ := ok_pure.mp hpure
      exact ⟨hidx, by rw [byte_ok.mp hi, leU32_ok.mp hoff, h₃]; rfl⟩
    · obtain ⟨s, _, hs, hpure⟩ := ok_bind.mp h
      obtain ⟨rfl, rfl⟩ := ok_pure.mp hpure
      exact ⟨hidx, by rw [decodePrevTxV1Witness_ok.mp hs, h₄]; rfl⟩
    · obtain ⟨off, _, hoff, hpure⟩ := ok_bind.mp h
      obtain ⟨rfl, rfl⟩ := ok_pure.mp hpure
      exact ⟨hidx, by rw [leU32_ok.mp hoff, h₅]; rfl⟩
    · exact (ok_throw.mp h).elim
  · intro h
    obtain ⟨hidx, rfl⟩ := h
    obtain ⟨idx, s⟩ := entry
    refine ⟨idx, s.encode ++ rest, ⟨hidx, rfl⟩, ?_⟩
    cases s with
    | schnorrSigPtr off =>
      exact ⟨0x01, _, rfl, ok_bind.mpr ⟨off, rest, leU32_ok.mpr rfl, ok_pure.mpr ⟨rfl, rfl⟩⟩⟩
    | prevTxV1Witness w =>
      exact ⟨0x02, _, rfl,
        ok_bind.mpr ⟨w, rest, decodePrevTxV1Witness_ok.mpr rfl, ok_pure.mpr ⟨rfl, rfl⟩⟩⟩
    | multisigSchnorrSigPtr i off =>
      exact ⟨0x03, _, rfl, ok_bind.mpr ⟨i, _, byte_ok.mpr rfl,
        ok_bind.mpr ⟨off, rest, leU32_ok.mpr rfl, ok_pure.mpr ⟨rfl, rfl⟩⟩⟩⟩
    | multisigPrevTxV1Witness w =>
      exact ⟨0x04, _, rfl,
        ok_bind.mpr ⟨w, rest, decodePrevTxV1Witness_ok.mpr rfl, ok_pure.mpr ⟨rfl, rfl⟩⟩⟩
    | genesisSchnorrSigPtr off =>
      exact ⟨0x05, _, rfl, ok_bind.mpr ⟨off, rest, leU32_ok.mpr rfl, ok_pure.mpr ⟨rfl, rfl⟩⟩⟩

/-- Each index is at least the one before it. -/
def AscendingFrom : Option UInt8 → List UInt8 → Prop
  | _, [] => True
  | prev, idx :: rest => (∀ p ∈ prev, p ≤ idx) ∧ AscendingFrom (some idx) rest

theorem decodeSignerAscending_ok {prev next : Option UInt8} {entry : UInt8 × SignerEnum} :
    decodeSignerAscending n prev buf = .ok (entry, next) rest ↔
      entry.1.toNat < n ∧ (∀ p ∈ prev, p ≤ entry.1) ∧ next = some entry.1 ∧
        buf = encodeSigner entry ++ rest := by
  have hprev : ∀ i : UInt8, ¬ (prev.any fun p => i < p) = true ↔ ∀ p ∈ prev, p ≤ i := by
    intro i
    cases prev with
    | none => simp
    | some p => simp [UInt8.not_lt]
  simp only [decodeSignerAscending, ok_bind, (readsOnly_decodeSigner n).ok, ite_throw_ok, hprev]
  constructor
  · intro h
    obtain ⟨_, _, ⟨hidx, rfl⟩, hasc, hpure⟩ := h
    obtain ⟨hpair, rfl⟩ := ok_pure.mp hpure
    obtain ⟨rfl, rfl⟩ := Prod.mk.inj hpair
    exact ⟨hidx, hasc, rfl, rfl⟩
  · intro h
    obtain ⟨hidx, hasc, rfl, rfl⟩ := h
    exact ⟨entry, rest, ⟨hidx, rfl⟩, hasc, ok_pure.mpr ⟨rfl, rfl⟩⟩

theorem signersLoop_ok {k : Nat} {prev : Option UInt8} {signers : List (UInt8 × SignerEnum)} :
    Reader.manyLoop (decodeSignerAscending n) k prev buf = .ok signers rest ↔
      signers.length = k ∧ (∀ s ∈ signers, s.1.toNat < n) ∧
        AscendingFrom prev (signers.map Prod.fst) ∧
        buf = signers.flatMap encodeSigner ++ rest := by
  induction k generalizing prev buf signers with
  | zero =>
    simp only [Reader.manyLoop, ok_pure, List.length_eq_zero_iff]
    constructor
    · intro h
      obtain ⟨rfl, rfl⟩ := h
      exact ⟨rfl, fun _ hs => absurd hs List.not_mem_nil, trivial, rfl⟩
    · intro h
      obtain ⟨rfl, -, -, rfl⟩ := h
      exact ⟨rfl, rfl⟩
  | succ k ih =>
    simp only [Reader.manyLoop, ok_bind, ok_pure]
    constructor
    · intro h
      obtain ⟨⟨entry, next⟩, _, hone, as, _, has, rfl, rfl⟩ := h
      obtain ⟨hidx, hasc, rfl, rfl⟩ := decodeSignerAscending_ok.mp hone
      obtain ⟨rfl, hin, hrest, rfl⟩ := ih.mp has
      refine ⟨rfl, ?_, ⟨hasc, hrest⟩, by rw [List.flatMap_cons, List.append_assoc]⟩
      intro s hs
      rcases List.mem_cons.mp hs with rfl | hs
      · exact hidx
      · exact hin s hs
    · intro h
      obtain ⟨hlen, hin, hasc, rfl⟩ := h
      cases signers with
      | nil => cases hlen
      | cons entry as =>
        obtain ⟨hfirst, hrest⟩ := hasc
        refine ⟨(entry, some entry.1), as.flatMap encodeSigner ++ rest,
          decodeSignerAscending_ok.mpr ⟨hin entry List.mem_cons_self, hfirst, rfl, ?_⟩,
          as, rest, ih.mpr ⟨Nat.succ.inj hlen, fun s hs => hin s (List.mem_cons_of_mem _ hs),
            hrest, rfl⟩, rfl, rfl⟩
        rw [List.flatMap_cons, List.append_assoc]

end Signers

/-! ## The two sections -/

section Sections

variable {B : Battery} {n : Nat}

/-- Signers, actions and tail on the wire. -/
def encodeSections (signers : List (UInt8 × SignerEnum)) (actions : List ActionBody)
    (tail : List UInt8) : List UInt8 :=
  encVec encodeSigner signers ++ (encVec ActionBody.encode actions ++ tail)

theorem signersSection_ok {signers : List (UInt8 × SignerEnum)} {buf rest : List UInt8} :
    Reader.many "ix.signers" none (decodeSignerAscending n) buf = .ok signers rest ↔
      (signers.length < 2 ^ 32 ∧ (∀ s ∈ signers, s.1.toNat < n) ∧
        AscendingFrom none (signers.map Prod.fst)) ∧
      buf = encVec encodeSigner signers ++ rest := by
  simp only [Reader.many, Lib.Reader.many, ok_bind, reads_u32 (Fault.decode "ix.signers") _ _ _,
    signersLoop_ok, encVec, List.append_assoc]
  constructor
  · intro h
    obtain ⟨count, _, rfl, hlen, hin, hasc, rfl⟩ := h
    refine ⟨⟨hlen ▸ count.toNat_lt, hin, hasc⟩, ?_⟩
    rw [hlen, UInt32.ofNat_toNat]
  · intro h
    obtain ⟨⟨hlen, hin, hasc⟩, rfl⟩ := h
    have hcount : (UInt32.ofNat signers.length).toNat = signers.length := by
      rw [UInt32.toNat_ofNat', Nat.mod_eq_of_lt hlen]
    exact ⟨UInt32.ofNat signers.length, _, rfl, hcount.symm, hin, hasc, rfl⟩

theorem decodeSections_iff {signers : List (UInt8 × SignerEnum)} {actions : List ActionBody}
    {buf tail : List UInt8} :
    decodeSections n (decodeAction B) buf = .ok (signers, actions) tail ↔
      (signers.length < 2 ^ 32 ∧ (∀ s ∈ signers, s.1.toNat < n) ∧
        AscendingFrom none (signers.map Prod.fst)) ∧
      (actions.length < 2 ^ 32 ∧ ∀ a ∈ actions, a.InBounds B n) ∧
      buf = encodeSections signers actions tail := by
  have hactions := (readsOnly_decodeAction B n).vec (.decode "ix.actions")
  simp only [decodeSections, ok_bind, ok_pure, Prod.mk.injEq, signersSection_ok, encodeSections]
  constructor
  · intro h
    obtain ⟨_, _, ⟨hs, rfl⟩, _, _, has, ⟨rfl, rfl⟩, rfl⟩ := h
    obtain ⟨hok, rfl⟩ := (hactions _ _ _).mp has
    exact ⟨hs, hok, rfl⟩
  · intro h
    obtain ⟨hs, hok, rfl⟩ := h
    exact ⟨signers, _, ⟨hs, rfl⟩, actions, tail, (hactions _ _ _).mpr ⟨hok, rfl⟩, ⟨rfl, rfl⟩, rfl⟩

/-- What was decoded is what its sections spell, with some tail. -/
theorem decodeIx_sections {orig : List UInt8} {ix : DecodedIx ActionBody}
    (h : decodeIx orig n (decodeAction B) = .ok ix) :
    ∃ tail, decodeSections n (decodeAction B) orig = .ok (ix.signers, ix.actions) tail := by
  unfold decodeIx at h
  cases hsec : decodeSections n (decodeAction B) orig with
  | error e rest =>
    rw [hsec] at h
    cases h
  | ok p tail =>
    obtain ⟨signers, actions⟩ := p
    rw [hsec] at h
    cases hsub : subLen orig.length tail.length with
    | error e =>
      simp only [hsub] at h
      cases h
    | ok stop =>
      simp only [hsub] at h
      cases h
      exact ⟨tail, rfl⟩

/-- What spells two sections decodes to them. -/
theorem decodeIx_of_sections {orig tail : List UInt8} {signers : List (UInt8 × SignerEnum)}
    {actions : List ActionBody}
    (h : decodeSections n (decodeAction B) orig = .ok (signers, actions) tail) :
    ∃ stop, decodeIx orig n (decodeAction B) = .ok ⟨signers, actions, stop⟩ := by
  obtain ⟨-, -, rfl⟩ := decodeSections_iff.mp h
  have hlen : tail.length ≤ (encodeSections signers actions tail).length := by
    simp only [encodeSections, List.length_append]
    omega
  unfold decodeIx
  rw [h]
  simp only [subLen, if_pos hlen]
  exact ⟨_, rfl⟩

end Sections

end TicTacToe
