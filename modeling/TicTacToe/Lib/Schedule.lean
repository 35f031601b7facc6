/-
TicTacToe.Lib.Schedule — steps over a keyed store, and which of them may run
in any order.

A step reads the keys of one set, writes those of a smaller one and may
leave a receipt (`Scoped`). When no two steps of a list are in each other's
way, running the list is the same as running each step on the store the
list started from and keeping what it wrote: `runAll_alone`. The order then
shows in the order of the receipts only.

Nothing here names the program.

No `sorry`, no `axiom`, no `native_decide`.
-/
import Mathlib.Data.Set.Basic
import Mathlib.Data.List.Pairwise
import Mathlib.Data.List.Perm.Basic

namespace TicTacToe.Lib

section Schedule

variable {K V α ω : Type} (step : α → (K → V) → (K → V) × Option ω) (reads writes : α → Set K)
  (I : (K → V) → Prop)

/-- From a store in `I`, the step `a` keeps to its two sets of keys. -/
structure Scoped (a : α) : Prop where
  writes_read : ∀ {k}, k ∈ writes a → k ∈ reads a
  keeps : ∀ {s}, I s → I (step a s).1
  frame : ∀ {s k}, I s → k ∉ writes a → (step a s).1 k = s k
  receipt : ∀ {s t}, I s → I t → (∀ k ∈ reads a, s k = t k) → (step a s).2 = (step a t).2
  wrote : ∀ {s t}, I s → I t → (∀ k ∈ reads a, s k = t k) →
    ∀ k ∈ writes a, (step a s).1 k = (step a t).1 k

/-- Neither step writes what the other one reads. -/
structure Independent (a b : α) : Prop where
  left : ∀ k ∈ writes a, k ∉ reads b
  right : ∀ k ∈ writes b, k ∉ reads a

/-- The store and the receipts of the steps, one after the other. -/
def runAll : List α → (K → V) → (K → V) × List ω
  | [], s => (s, [])
  | a :: as, s => ((runAll as (step a s).1).1, (step a s).2.toList ++ (runAll as (step a s).1).2)

variable {step reads writes I}

theorem Independent.symm {a b : α} (h : Independent reads writes a b) :
    Independent reads writes b a := ⟨h.right, h.left⟩

section Alone

variable {as bs : List α} {s : K → V}

/-- A list of independent steps ends as if each had run alone on `s`. -/
theorem runAll_alone (has : ∀ a ∈ as, Scoped step reads writes I a)
    (hind : as.Pairwise (Independent reads writes)) (hs : I s) :
    (runAll step as s).2 = as.filterMap (fun a => (step a s).2) ∧
      (∀ a ∈ as, ∀ k ∈ writes a, (runAll step as s).1 k = (step a s).1 k) ∧
      ∀ k, (∀ a ∈ as, k ∉ writes a) → (runAll step as s).1 k = s k := by
  induction as generalizing s with
  | nil => exact ⟨rfl, fun _ ha => absurd ha List.not_mem_nil, fun _ _ => rfl⟩
  | cons a as ih =>
    have ha := has a List.mem_cons_self
    obtain ⟨hfirst, hrest⟩ := List.pairwise_cons.mp hind
    have hs' : I (step a s).1 := ha.keeps hs
    obtain ⟨hout, hwrote, hframe⟩ := ih (fun b hb => has b (List.mem_cons_of_mem a hb)) hrest hs'
    -- what a later step reads, the first one did not write
    have hreads : ∀ b ∈ as, ∀ k ∈ reads b, (step a s).1 k = s k := fun b hb k hk =>
      ha.frame hs fun hw => (hfirst b hb).left k hw hk
    refine ⟨?_, fun b hb k hk => ?_, fun k hk => ?_⟩
    · have hsame : as.filterMap (fun b => (step b (step a s).1).2)
          = as.filterMap fun b => (step b s).2 := List.filterMap_congr fun b hb =>
        (has b (List.mem_cons_of_mem a hb)).receipt hs' hs (hreads b hb)
      show (step a s).2.toList ++ (runAll step as (step a s).1).2 = _
      rw [hout, hsame, List.filterMap_cons]
      cases (step a s).2 <;> rfl
    · rcases List.mem_cons.mp hb with rfl | hb
      · exact hframe k fun c hc hw => (hfirst c hc).right k hw (ha.writes_read hk)
      · exact (hwrote b hb k hk).trans
          ((has b (List.mem_cons_of_mem a hb)).wrote hs' hs (hreads b hb) k hk)
    · exact (hframe k fun b hb => hk b (List.mem_cons_of_mem a hb)).trans
        (ha.frame hs (hk a List.mem_cons_self))

/-- Independent steps leave one store in whatever order they run, and the same
receipts. -/
theorem runAll_perm (hperm : as.Perm bs) (has : ∀ a ∈ as, Scoped step reads writes I a)
    (hind : as.Pairwise (Independent reads writes)) (hs : I s) :
    (runAll step as s).1 = (runAll step bs s).1 ∧
      (runAll step as s).2.Perm (runAll step bs s).2 := by
  obtain ⟨hout, hwrote, hframe⟩ := runAll_alone has hind hs
  obtain ⟨hout', hwrote', hframe'⟩ := runAll_alone (fun b hb => has b (hperm.mem_iff.mpr hb))
    ((hperm.pairwise_iff Independent.symm).mp hind) hs
  constructor
  · funext k
    by_cases hk : ∃ a ∈ as, k ∈ writes a
    · obtain ⟨a, ha, hw⟩ := hk
      rw [hwrote a ha k hw, hwrote' a (hperm.mem_iff.mp ha) k hw]
    · have hno : ∀ a ∈ as, k ∉ writes a := fun a ha hw => hk ⟨a, ha, hw⟩
      rw [hframe k hno, hframe' k fun b hb => hno b (hperm.mem_iff.mpr hb)]
  · rw [hout, hout']
    exact hperm.filterMap _

end Alone

end Schedule

end TicTacToe.Lib
