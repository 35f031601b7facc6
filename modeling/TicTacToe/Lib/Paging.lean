/-
TicTacToe.Lib.Paging — reading an ordered list page by page, each page
asked for behind the last entry seen.

`page after limit` is the first `limit` entries behind the exclusive cursor
`after`. `readAll` asks until a page is empty; `readAll_ok` says that it
stops and that nothing is lost or repeated, whatever the limit.

Nothing here names the program.

No `sorry`, no `axiom`, no `native_decide`.
-/
import TicTacToe.Lib.Wp

namespace TicTacToe.Lib

section Paging

variable {ε α : Type}

/-- Asks for pages until one is empty. -/
def readAll (out : ε) (page : Option α → Except ε (List α)) : Nat → Option α → Except ε (List α)
  | 0, _ => .error out
  | fuel + 1, after => do
    let entries ← page after
    match entries.getLast? with
    | none => return []
    | some last => do
      let rest ← readAll out page fuel (some last)
      return entries ++ rest

variable {lt : α → α → Prop} [DecidableRel lt]

/-- The entries behind the cursor. -/
def behind (lt : α → α → Prop) [DecidableRel lt] (all : List α) (after : Option α) : List α :=
  all.filter fun b => ∀ c ∈ after, lt c b

theorem behind_none (all : List α) : behind lt all none = all :=
  List.filter_eq_self.mpr fun _ _ => decide_eq_true fun _ hc => absurd hc (Option.not_mem_none _)

/-- Behind the last entry of a first part comes the other part. -/
theorem behind_getLast (hasymm : ∀ a b, lt a b → ¬ lt b a) {done rest : List α}
    (hasc : (done ++ rest).Pairwise lt) : behind lt (done ++ rest) done.getLast? = rest := by
  obtain ⟨hdone, -, hcross⟩ := List.pairwise_append.mp hasc
  rcases List.eq_nil_or_concat done with rfl | ⟨init, last, rfl⟩
  · exact behind_none rest
  · rw [List.concat_eq_append] at hdone hcross ⊢
    rw [List.getLast?_concat]
    unfold behind
    rw [List.filter_append]
    have hnone : (init ++ [last]).filter (fun b => ∀ c ∈ some last, lt c b) = [] := by
      refine List.filter_eq_nil_iff.mpr fun b hb hlt => ?_
      have hlast : lt last b := of_decide_eq_true hlt last rfl
      rcases List.mem_append.mp hb with hb | hb
      · exact hasymm _ _ hlast ((List.pairwise_append.mp hdone).2.2 b hb last (by simp))
      · obtain rfl := List.mem_singleton.mp hb
        exact hasymm _ _ hlast hlast
    have hall : rest.filter (fun b => ∀ c ∈ some last, lt c b) = rest := by
      refine List.filter_eq_self.mpr fun b hb => decide_eq_true fun c hc => ?_
      obtain rfl := Option.mem_some.mp hc
      exact hcross last (by simp) b hb
    rw [hnone, hall, List.nil_append]

/-- Reading the pages behind a first part gives the other part. -/
theorem readAll_behind (hasymm : ∀ a b, lt a b → ¬ lt b a) {out : ε}
    {page : Option α → Except ε (List α)} {all : List α} {limit : Nat} (hlimit : 1 ≤ limit)
    (hasc : all.Pairwise lt) (hpage : ∀ after, page after = .ok ((behind lt all after).take limit))
    {fuel : Nat} {done rest : List α} (hall : all = done ++ rest) (hfuel : rest.length < fuel) :
    readAll out page fuel done.getLast? = .ok rest := by
  induction fuel generalizing done rest with
  | zero => exact absurd hfuel (Nat.not_lt_zero _)
  | succ fuel ih =>
    have hbehind : behind lt all done.getLast? = rest := by
      rw [hall]
      exact behind_getLast hasymm (hall ▸ hasc)
    unfold readAll
    rw [hpage, hbehind]
    dsimp only [bind, Except.bind]
    cases hlast : (rest.take limit).getLast? with
    | none =>
      have hnil : rest.take limit = [] := List.getLast?_eq_none_iff.mp hlast
      have hrest : rest = [] := by
        rcases List.take_eq_nil_iff.mp hnil with h | h
        · omega
        · exact h
      rw [hrest]
      rfl
    | some last =>
      have hne : rest.take limit ≠ [] := by
        intro h
        rw [h] at hlast
        cases hlast
      have hdone : (done ++ rest.take limit).getLast? = some last := by
        rw [List.getLast?_append_of_ne_nil _ hne, hlast]
      have hlen : (rest.drop limit).length < fuel := by
        have hpos := List.length_pos_iff.mpr hne
        rw [List.length_take] at hpos
        rw [List.length_drop]
        omega
      have hsplit : all = (done ++ rest.take limit) ++ rest.drop limit := by
        rw [List.append_assoc, List.take_append_drop, hall]
      have hnext := ih hsplit hlen
      rw [hdone] at hnext
      dsimp only
      rw [hnext]
      exact congrArg Except.ok (List.take_append_drop limit rest)

/-- Pages read one after the other are the whole list. -/
theorem readAll_ok (hasymm : ∀ a b, lt a b → ¬ lt b a) {out : ε}
    {page : Option α → Except ε (List α)} {all : List α} {limit : Nat} (hlimit : 1 ≤ limit)
    (hasc : all.Pairwise lt) (hpage : ∀ after, page after = .ok ((behind lt all after).take limit))
    {fuel : Nat} (hfuel : all.length < fuel) : readAll out page fuel none = .ok all :=
  readAll_behind hasymm hlimit hasc hpage (List.nil_append all).symm hfuel

/-- Pages whose entries are shown one for one are read as they were. -/
theorem readAll_filterMap {β : Type} {out : ε} {page : Option α → Except ε (List α)}
    {page' : Option β → Except ε (List β)} {f : α → Option β}
    (hshown : ∀ after entries, page after = .ok entries → ∀ a ∈ entries, (f a).isSome)
    (hstart : page' none = (page none).map (List.filterMap f))
    (hnext : ∀ a b, f a = some b → page' (some b) = (page (some a)).map (List.filterMap f))
    (fuel : Nat) :
    readAll out page' fuel none = (readAll out page fuel none).map (List.filterMap f) := by
  suffices h : ∀ after after', (∀ a, after = some a → ∃ b, f a = some b ∧ after' = some b) →
      (after = none → after' = none) →
      readAll out page' fuel after' = (readAll out page fuel after).map (List.filterMap f) from
    h none none (fun _ h => by cases h) fun _ => rfl
  induction fuel with
  | zero => exact fun _ _ _ _ => rfl
  | succ fuel ih =>
    intro after after' hsome hnone
    have hpage : page' after' = (page after).map (List.filterMap f) := by
      cases after with
      | none =>
        rw [hnone rfl]
        exact hstart
      | some a =>
        obtain ⟨b, hb, rfl⟩ := hsome a rfl
        exact hnext a b hb
    unfold readAll
    rw [hpage]
    cases hentries : page after with
    | error e => rfl
    | ok entries =>
      have hall := hshown after entries hentries
      rcases List.eq_nil_or_concat entries with rfl | ⟨init, last, rfl⟩
      · rfl
      · rw [List.concat_eq_append] at hall ⊢
        obtain ⟨b, hb⟩ := Option.isSome_iff_exists.mp (hall last (by simp))
        have hshow : (init ++ [last]).filterMap f = init.filterMap f ++ [b] := by
          simp [List.filterMap_append, hb]
        have hrest := ih (some last) (some b) (fun a ha => ⟨b, Option.some.inj ha ▸ hb, rfl⟩)
          fun h => by cases h
        simp only [Except.map, bind, Except.bind, hshow, List.getLast?_concat, hrest]
        cases readAll out page fuel (some last) with
        | error e => rfl
        | ok rest => simp [List.filterMap_append, hb, pure, Except.pure]

end Paging

end TicTacToe.Lib
