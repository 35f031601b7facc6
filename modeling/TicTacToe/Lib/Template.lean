/-
TicTacToe.Lib.Template — byte formats with slack.

A template says of each place what may stand there. Where a reader takes
what it finds, the place is free; where the reader goes by the byte, the
place is fixed, or excludes the bytes that would make it go another way.
Past the end of the buffer nothing stands, and a place says whether that
is good enough.

`Matches b p t` is that the buffer is as `t` asks from `p` on. `Spells`
is the same of bytes without slack to miss any; a writer whose bytes
spell a template writes members of the format (`Spells.matches`).

Nothing here names the program.

No `sorry`, no `axiom`, no `native_decide`.
-/
import TicTacToe.Lib.Cursor

namespace TicTacToe.Lib

inductive Place where
  /-- Whatever, also nothing. -/
  | free
  /-- Some byte. -/
  | filled
  | fixed (v : UInt8)
  /-- Nothing, or a byte that is none of these. -/
  | other (vs : List UInt8)
  /-- This byte, or nothing. -/
  | orCut (v : UInt8)
  /-- This byte, where nothing is a zero. -/
  | digit (v : UInt8)
  deriving DecidableEq

def Place.Allows : Place → Option UInt8 → Prop
  | free, _ => True
  | filled, o => o ≠ none
  | fixed v, o => o = some v
  | other vs, o => o ∉ vs.map some
  | orCut v, o => o = none ∨ o = some v
  | digit v, o => o.getD 0 = v

instance Place.decidableAllows : (c : Place) → (o : Option UInt8) → Decidable (c.Allows o)
  | free, _ => inferInstanceAs (Decidable True)
  | filled, o => inferInstanceAs (Decidable (o ≠ none))
  | fixed v, o => inferInstanceAs (Decidable (o = some v))
  | other vs, o => inferInstanceAs (Decidable (o ∉ vs.map some))
  | orCut v, o => inferInstanceAs (Decidable (o = none ∨ o = some v))
  | digit v, o => inferInstanceAs (Decidable (o.getD 0 = v))

/-- From `p` on, each byte is one its place allows. -/
def Matches (b : List UInt8) : Nat → List Place → Prop
  | _, [] => True
  | p, c :: t => c.Allows b[p]? ∧ Matches b (p + 1) t

instance Matches.decidable (b : List UInt8) :
    (p : Nat) → (t : List Place) → Decidable (Matches b p t)
  | _, [] => inferInstanceAs (Decidable True)
  | p, c :: t =>
    have := Matches.decidable b (p + 1) t
    inferInstanceAs (Decidable (c.Allows b[p]? ∧ Matches b (p + 1) t))

/-- A `u32` count, then the templates of the items. -/
def countedPlaces {α : Type} (places : α → List Place) (l : List α) : List Place :=
  (le32 (UInt32.ofNat l.length)).map .digit ++ l.flatMap places

/-- The bytes are there and allowed, one for each place. -/
def Spells (t : List Place) (bs : List UInt8) : Prop :=
  List.Forall₂ (fun c v => c.Allows (some v)) t bs

section Matches

variable {b : List UInt8} {p : Nat} {c : Place} {t t' : List Place}

@[simp] theorem matches_nil : Matches b p [] := trivial

@[simp] theorem matches_cons :
    Matches b p (c :: t) ↔ c.Allows b[p]? ∧ Matches b (p + 1) t := Iff.rfl

@[simp] theorem matches_append :
    Matches b p (t ++ t') ↔ Matches b p t ∧ Matches b (p + t.length) t' := by
  induction t generalizing p with
  | nil => simp
  | cons c t ih =>
    rw [List.cons_append, matches_cons, matches_cons, ih, and_assoc, List.length_cons,
      Nat.add_assoc, Nat.add_comm 1]

@[simp] theorem matches_free (k : Nat) : Matches b p (List.replicate k .free) := by
  induction k generalizing p with
  | zero => trivial
  | succ k ih => exact ⟨trivial, ih⟩

theorem matches_free_append {k : Nat} :
    Matches b p (List.replicate k .free ++ t) ↔ Matches b (p + k) t := by
  rw [matches_append, List.length_replicate]
  exact and_iff_right (matches_free k)

theorem matches_filled {k : Nat} :
    Matches b p (List.replicate k .filled) ↔ k = 0 ∨ p + k ≤ b.length := by
  induction k generalizing p with
  | zero => simp
  | succ k ih =>
    have hhead : Place.filled.Allows b[p]? ↔ p < b.length := by
      rw [← not_le, ← List.getElem?_eq_none_iff]
      rfl
    rw [List.replicate_succ, matches_cons, ih, hhead]
    omega

theorem matches_digits {bs : List UInt8} :
    Matches b p (bs.map .digit) ↔ (List.range bs.length).map (fun i => b[p + i]?.getD 0) = bs := by
  induction bs generalizing p with
  | nil => simp
  | cons v bs ih =>
    rw [List.map_cons, matches_cons, ih, List.length_cons, List.range_succ_eq_map, List.map_cons,
      List.map_map, List.cons_eq_cons]
    have hnext : (fun i => b[p + i]?.getD 0) ∘ Nat.succ = fun i => b[p + 1 + i]?.getD 0 := by
      funext i
      show b[p + (i + 1)]?.getD 0 = b[p + 1 + i]?.getD 0
      rw [Nat.add_right_comm, Nat.add_assoc]
    rw [hnext]
    rfl

theorem length_countedPlaces {α : Type} {places : α → List Place} {l : List α} :
    (countedPlaces places l).length = 4 + (l.flatMap places).length := by
  rw [countedPlaces, List.length_append, List.length_map, length_le32]

theorem matches_counted {α : Type} {places : α → List Place} {l : List α} :
    Matches b p (countedPlaces places l) ↔
      Matches b p ((le32 (UInt32.ofNat l.length)).map .digit) ∧
        Matches b (p + 4) (l.flatMap places) := by
  rw [countedPlaces, matches_append, List.length_map, length_le32]

end Matches

/-! ## Bytes without damage -/

section Spells

variable {t t' : List Place} {bs bs' : List UInt8}

theorem spells_nil : Spells [] [] := .nil

theorem Spells.cons {c : Place} {v : UInt8} (hc : c.Allows (some v)) (h : Spells t bs) :
    Spells (c :: t) (v :: bs) := List.Forall₂.cons hc h

theorem Spells.append (h : Spells t bs) (h' : Spells t' bs') : Spells (t ++ t') (bs ++ bs') :=
  List.rel_append h h'

theorem spells_free {k : Nat} (h : bs.length = k) : Spells (List.replicate k .free) bs := by
  subst h
  induction bs with
  | nil => exact spells_nil
  | cons v bs ih => exact .cons trivial ih

theorem spells_filled {k : Nat} (h : bs.length = k) : Spells (List.replicate k .filled) bs := by
  subst h
  induction bs with
  | nil => exact spells_nil
  | cons v bs ih => exact .cons (Option.some_ne_none v) ih

theorem spells_digits (bs : List UInt8) : Spells (bs.map .digit) bs := by
  induction bs with
  | nil => exact spells_nil
  | cons v bs ih => exact .cons rfl ih

theorem spells_flatMap {α : Type} {places : α → List Place} {enc : α → List UInt8} {l : List α}
    (h : ∀ a ∈ l, Spells (places a) (enc a)) : Spells (l.flatMap places) (l.flatMap enc) := by
  induction l with
  | nil => exact spells_nil
  | cons a l ih =>
    have hrest := ih fun a' ha' => h a' (List.mem_cons_of_mem a ha')
    exact (h a List.mem_cons_self).append hrest

theorem spells_counted {α : Type} {places : α → List Place} {enc : α → List UInt8} {l : List α}
    (h : ∀ a ∈ l, Spells (places a) (enc a)) : Spells (countedPlaces places l) (encVec enc l) :=
  (spells_digits _).append (spells_flatMap h)

theorem Spells.length_eq (h : Spells t bs) : t.length = bs.length := List.Forall₂.length_eq h

/-- What spells a template matches it wherever it stands. -/
theorem Spells.matches (h : Spells t bs) (pre rest : List UInt8) :
    Matches (pre ++ (bs ++ rest)) pre.length t := by
  induction h generalizing pre with
  | nil => trivial
  | @cons c v t bs hc _ ih =>
    refine ⟨?_, ?_⟩
    · rw [List.getElem?_append_right (Nat.le_refl _), Nat.sub_self]
      exact hc
    · have htail := ih (pre ++ [v])
      rw [List.append_assoc, List.length_append] at htail
      exact htail

end Spells

end TicTacToe.Lib
