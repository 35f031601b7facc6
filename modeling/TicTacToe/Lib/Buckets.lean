/-
TicTacToe.Lib.Buckets — lists of keyed entries.

`eq_of_under`: a list sorted by key is determined by what it holds under
each key, in order. `Grouped` is the list that gathers everything filed
under a key in one entry; `extendLast` files by looking at the last entry
only, and `files_foldl` says on what input that is enough.

No `sorry`, no `axiom`, no `native_decide`.
-/
import Mathlib.Data.List.Nodup
import Mathlib.Data.List.Sort

namespace TicTacToe.Lib

variable {κ α β : Type} [DecidableEq κ]

/-! ## What is under a key -/

/-- The entries under a key, in order. -/
def under (i : κ) (l : List (κ × α)) : List (κ × α) := l.filter fun e => e.1 = i

@[simp] theorem under_nil (i : κ) : under i ([] : List (κ × α)) = [] := rfl

@[simp] theorem under_append (i : κ) (l l' : List (κ × α)) :
    under i (l ++ l') = under i l ++ under i l' := List.filter_append _ _

theorem under_cons_self (e : κ × α) (l : List (κ × α)) : under e.1 (e :: l) = e :: under e.1 l :=
  List.filter_cons_of_pos (by simp)

theorem under_cons_ne {i : κ} {e : κ × α} (h : e.1 ≠ i) (l : List (κ × α)) :
    under i (e :: l) = under i l :=
  List.filter_cons_of_neg (by simpa using h)

theorem mem_under {i : κ} {e : κ × α} {l : List (κ × α)} : e ∈ under i l ↔ e ∈ l ∧ e.1 = i := by
  simp [under, List.mem_filter]

theorem under_eq_nil {i : κ} {l : List (κ × α)} : under i l = [] ↔ i ∉ l.map Prod.fst := by
  rw [under, List.filter_eq_nil_iff]
  constructor
  · intro h hi
    obtain ⟨e, he, hei⟩ := List.mem_map.mp hi
    exact h e he (decide_eq_true hei)
  · intro h e he hei
    exact h (List.mem_map.mpr ⟨e, he, of_decide_eq_true hei⟩)

/-- Lists sorted by key that agree under each key are equal. -/
theorem eq_of_under [LE κ] [Std.IsLinearOrder κ] {l l' : List (κ × α)}
    (hs : l.Pairwise fun a b => a.1 ≤ b.1) (hs' : l'.Pairwise fun a b => a.1 ≤ b.1)
    (h : ∀ i, under i l = under i l') : l = l' := by
  induction l generalizing l' with
  | nil =>
    cases l' with
    | nil => rfl
    | cons b t =>
      have hb := h b.1
      rw [under_cons_self] at hb
      cases hb
  | cons a t ih =>
    cases l' with
    | nil =>
      have ha := h a.1
      rw [under_cons_self] at ha
      cases ha
    | cons b t' =>
      -- each head is the least key of the other list
      have hle : ∀ {x y : κ × α} {xs ys : List (κ × α)},
          (y :: ys).Pairwise (fun a b => a.1 ≤ b.1) → under x.1 (x :: xs) = under x.1 (y :: ys) →
          y.1 ≤ x.1 := by
        intro x y xs ys hsorted he
        rw [under_cons_self] at he
        have hx : x ∈ under x.1 (y :: ys) := he ▸ List.mem_cons_self
        rcases List.mem_cons.mp (mem_under.mp hx).1 with rfl | hmem
        · exact Std.le_refl _
        · exact (List.pairwise_cons.mp hsorted).1 x hmem
      have hkey : a.1 = b.1 := Std.le_antisymm (hle hs (h b.1).symm) (hle hs' (h a.1))
      have hhead := h a.1
      rw [under_cons_self, hkey, under_cons_self] at hhead
      obtain ⟨rfl, htail⟩ := List.cons.inj hhead
      refine congrArg (a :: ·) (ih (List.pairwise_cons.mp hs).2 (List.pairwise_cons.mp hs').2 ?_)
      intro i
      by_cases hi : a.1 = i
      · exact hi ▸ htail
      · have hi' := h i
        rwa [under_cons_ne hi, under_cons_ne hi] at hi'

/-- With at most one entry under each key, any rearrangement agrees. -/
theorem under_of_perm {l l' : List (κ × α)} (hp : l'.Perm l) (hn : (l.map Prod.fst).Nodup)
    (i : κ) : under i l' = under i l := by
  have hperm : (under i l').Perm (under i l) := hp.filter _
  have hlen : (under i l).length ≤ 1 := by
    clear hp hperm
    induction l with
    | nil => exact Nat.zero_le 1
    | cons e t ih =>
      obtain ⟨hnot, hn'⟩ := List.nodup_cons.mp hn
      by_cases he : e.1 = i
      · subst he
        rw [under_cons_self, under_eq_nil.mpr hnot]
        exact le_rfl
      · rw [under_cons_ne he]
        exact ih hn'
  cases hl : under i l with
  | nil =>
    rw [hl] at hperm
    exact hperm.eq_nil
  | cons x xs =>
    rw [hl, List.length_cons] at hlen
    obtain rfl : xs = [] := List.eq_nil_of_length_eq_zero (by omega)
    rw [hl] at hperm
    exact List.perm_singleton.mp hperm

/-! ## Two lists interleaved -/

/-- What came from the left, from the right, and all of it. -/
def lefts (l : List (α ⊕ α)) : List α := l.filterMap Sum.getLeft?

def rights (l : List (α ⊕ α)) : List α := l.filterMap Sum.getRight?

def merged (l : List (α ⊕ α)) : List α := l.map (Sum.elim id id)

/-- If under no key a right entry comes before a left one, then under each
key the left entries come first. -/
theorem under_merged {l : List ((κ × α) ⊕ (κ × α))}
    (h : l.Pairwise fun x y => ∀ a b, x = .inr a → y = .inl b → a.1 ≠ b.1) (i : κ) :
    under i (merged l) = under i (lefts l) ++ under i (rights l) := by
  induction l with
  | nil => rfl
  | cons x t ih =>
    obtain ⟨hhead, htail⟩ := List.pairwise_cons.mp h
    have ih := ih htail
    cases x with
    | inl a =>
      show under i (a :: merged t) = under i (a :: lefts t) ++ under i (rights t)
      by_cases ha : a.1 = i
      · subst ha
        rw [under_cons_self, under_cons_self, ih, List.cons_append]
      · rw [under_cons_ne ha, under_cons_ne ha, ih]
    | inr a =>
      show under i (a :: merged t) = under i (lefts t) ++ under i (a :: rights t)
      by_cases ha : a.1 = i
      · subst ha
        have hnone : under a.1 (lefts t) = [] := by
          rw [under_eq_nil]
          intro hmem
          obtain ⟨b, hb, hab⟩ := List.mem_map.mp hmem
          obtain ⟨y, hy, hyb⟩ := List.mem_filterMap.mp hb
          exact hhead y hy a b rfl (Sum.getLeft?_eq_some_iff.mp hyb) hab.symm
        rw [under_cons_self, under_cons_self, ih, hnone, List.nil_append, List.nil_append]
      · rw [under_cons_ne ha, under_cons_ne ha, ih]

theorem lefts_append_rights (l : List (α ⊕ α)) : (lefts l ++ rights l).Perm (merged l) := by
  induction l with
  | nil => exact List.Perm.refl _
  | cons x t ih =>
    cases x with
    | inl a => exact ih.cons a
    | inr a => exact List.perm_middle.trans (ih.cons a)

/-! ## One entry per key -/

/-- Everything filed under a key. -/
def keysOf (i : κ) (cs : List (κ × List β)) : List β := (under i cs).flatMap Prod.snd

/-- One entry per key that anything was filed under, holding all of it. -/
structure Files (cs bucket : List (κ × List β)) : Prop where
  nodup : (bucket.map Prod.fst).Nodup
  entries : ∀ i ks, (i, ks) ∈ bucket ↔ i ∈ cs.map Prod.fst ∧ ks = keysOf i cs

/-- The same, in ascending order. -/
structure Grouped [LT κ] (cs bucket : List (κ × List β)) : Prop where
  ascending : bucket.Pairwise fun a b => a.1 < b.1
  entries : ∀ i ks, (i, ks) ∈ bucket ↔ i ∈ cs.map Prod.fst ∧ ks = keysOf i cs

/-- Files under `i` by looking at the last entry. -/
def extendLast (bucket : List (κ × List β)) (i : κ) (ks : List β) : List (κ × List β) :=
  match bucket.getLast? with
  | some (lastIdx, last) =>
    if lastIdx = i then bucket.dropLast ++ [(lastIdx, last ++ ks)] else bucket ++ [(i, ks)]
  | none => bucket ++ [(i, ks)]

/-- The last entry is under `i`. -/
def EndsAt (i : κ) (bucket : List (κ × List β)) : Prop := ∃ init ks, bucket = init ++ [(i, ks)]

section Filing

variable {cs cs' bucket bucket' : List (κ × List β)} {i : κ} {ks : List β}

theorem keysOf_append (j : κ) : keysOf j (cs ++ cs') = keysOf j cs ++ keysOf j cs' := by
  simp [keysOf]

theorem keysOf_singleton (i : κ) (ks : List β) : keysOf i [(i, ks)] = ks := by
  simp [keysOf, under]

theorem keysOf_ne {i j : κ} (h : i ≠ j) (ks : List β) : keysOf j [(i, ks)] = [] := by
  simp [keysOf, under, h]

theorem keysOf_eq_nil (h : i ∉ cs.map Prod.fst) : keysOf i cs = [] := by
  rw [keysOf, under_eq_nil.mpr h]
  rfl

theorem extendLast_endsAt (init : List (κ × List β)) (last : List β) :
    extendLast (init ++ [(i, last)]) i ks = init ++ [(i, last ++ ks)] := by
  simp [extendLast]

theorem extendLast_new (h : i ∉ bucket.map Prod.fst) :
    extendLast bucket i ks = bucket ++ [(i, ks)] := by
  unfold extendLast
  cases hlast : bucket.getLast? with
  | none => rfl
  | some e =>
    have hne : e.1 ≠ i := by
      intro he
      exact h (List.mem_map.mpr ⟨e, List.mem_of_getLast? hlast, he⟩)
    simp only [if_neg hne]

theorem endsAt_extendLast : EndsAt i (extendLast bucket i ks) := by
  unfold extendLast
  split
  · split
    · rename_i last _ he
      exact ⟨bucket.dropLast, _, by rw [he]⟩
    · exact ⟨bucket, ks, rfl⟩
  · exact ⟨bucket, ks, rfl⟩

theorem Files.mem_keys (h : Files cs bucket) : i ∈ bucket.map Prod.fst ↔ i ∈ cs.map Prod.fst := by
  constructor
  · intro hi
    obtain ⟨e, he, rfl⟩ := List.mem_map.mp hi
    exact ((h.entries e.1 e.2).mp he).1
  · intro hi
    exact List.mem_map.mpr ⟨_, (h.entries i _).mpr ⟨hi, rfl⟩, rfl⟩

/-- One filing: under a key that is new, or that of the last entry. -/
theorem Files.extendLast (h : Files cs bucket) (hi : i ∈ cs.map Prod.fst → EndsAt i bucket) :
    Files (cs ++ [(i, ks)]) (extendLast bucket i ks) := by
  by_cases hmem : i ∈ cs.map Prod.fst
  · obtain ⟨init, last, rfl⟩ := hi hmem
    rw [extendLast_endsAt]
    have hnodup := h.nodup
    rw [List.map_append, List.map_singleton] at hnodup
    have hnot : i ∉ init.map Prod.fst := by
      intro hin
      exact (List.nodup_append.mp hnodup).2.2 i hin i (List.mem_singleton_self i) rfl
    have hlast : last = keysOf i cs :=
      ((h.entries i last).mp (List.mem_append_right _ (List.mem_singleton_self _))).2
    refine ⟨by rwa [List.map_append, List.map_singleton], fun j js => ?_⟩
    rw [keysOf_append, List.map_append, List.mem_append, List.mem_append]
    by_cases hj : j = i
    · subst hj
      have hinit : (j, js) ∉ init := fun hin => hnot (List.mem_map.mpr ⟨_, hin, rfl⟩)
      rw [keysOf_singleton, ← hlast]
      simp [hinit, hmem]
    · have hold := h.entries j js
      rw [List.mem_append] at hold
      rw [keysOf_ne (Ne.symm hj), List.append_nil]
      simp only [List.mem_singleton, Prod.mk.injEq, hj, false_and, or_false, List.map_cons,
        List.map_nil] at hold ⊢
      exact hold
  · have hnew : i ∉ bucket.map Prod.fst := fun hin => hmem (h.mem_keys.mp hin)
    rw [extendLast_new hnew]
    refine ⟨?_, fun j js => ?_⟩
    · rw [List.map_append, List.map_singleton]
      refine List.nodup_append.mpr ⟨h.nodup, List.nodup_singleton i, fun a ha b hb => ?_⟩
      intro e
      rw [e, List.mem_singleton.mp hb] at ha
      exact hnew ha
    · rw [keysOf_append, List.map_append, List.mem_append, List.mem_append, h.entries]
      by_cases hj : j = i
      · subst hj
        rw [keysOf_singleton, keysOf_eq_nil hmem]
        simp [hmem]
      · rw [keysOf_ne (Ne.symm hj)]
        simp [hj]

/-- Sorted filings, each under a new key or under that of the last entry and
then the least of them. -/
theorem files_foldl [LE κ] [Std.IsLinearOrder κ] {news : List (κ × List β)}
    (h : Files cs bucket) (hs : news.Pairwise fun a b => a.1 ≤ b.1)
    (hok : ∀ c ∈ news, c.1 ∈ cs.map Prod.fst → EndsAt c.1 bucket ∧ ∀ d ∈ news, c.1 ≤ d.1) :
    Files (cs ++ news) (news.foldl (fun b c => extendLast b c.1 c.2) bucket) := by
  induction news generalizing cs bucket with
  | nil => simpa using h
  | cons c rest ih =>
    obtain ⟨hleast, hs'⟩ := List.pairwise_cons.mp hs
    have hone : Files (cs ++ [c]) (TicTacToe.Lib.extendLast bucket c.1 c.2) :=
      h.extendLast fun hc => (hok c List.mem_cons_self hc).1
    rw [List.foldl_cons, List.append_cons]
    refine ih hone hs' fun d hd hin => ?_
    -- the key of `d` was filed under before, so it is that of `c`
    have hkey : d.1 = c.1 := by
      rw [List.map_append, List.mem_append] at hin
      rcases hin with hold | hsame
      · have hd' := List.mem_cons_of_mem c hd
        exact Std.le_antisymm ((hok d hd' hold).2 c List.mem_cons_self) (hleast d hd)
      · exact List.mem_singleton.mp hsame
    rw [hkey]
    exact ⟨endsAt_extendLast, hleast⟩

variable [LT κ]

theorem Grouped.files [Std.Irrefl fun a b : κ => a < b] (h : Grouped cs bucket) :
    Files cs bucket where
  nodup := by
    rw [List.nodup_iff_pairwise_ne, List.pairwise_map]
    refine h.ascending.imp fun {a b} hlt he => ?_
    rw [he] at hlt
    exact Std.lt_irrefl hlt
  entries := h.entries

/-- What is grouped only depends on what is under each key. -/
theorem Grouped.congr (h : Grouped cs bucket) (he : ∀ i, under i cs = under i cs') :
    Grouped cs' bucket where
  ascending := h.ascending
  entries i ks := by
    have hmem : i ∈ cs.map Prod.fst ↔ i ∈ cs'.map Prod.fst :=
      not_iff_not.mp (by rw [← under_eq_nil, ← under_eq_nil, he])
    rw [h.entries, hmem, keysOf, he, keysOf]

variable [LE κ] [Std.IsLinearOrder κ] [Std.LawfulOrderLT κ]

/-- Sorting the entries groups them. -/
theorem Files.sorted (h : Files cs bucket) (hp : bucket'.Perm bucket)
    (hs : bucket'.Pairwise fun a b => a.1 ≤ b.1) : Grouped cs bucket' where
  ascending := by
    have hn : (bucket'.map Prod.fst).Nodup := (hp.map Prod.fst).nodup_iff.mpr h.nodup
    rw [List.nodup_iff_pairwise_ne, List.pairwise_map] at hn
    exact (hs.and hn).imp fun hab => Std.lt_of_le_of_ne hab.1 hab.2
  entries i ks := hp.mem_iff.trans (h.entries i ks)

theorem Grouped.unique (h : Grouped cs bucket) (h' : Grouped cs bucket') : bucket = bucket' := by
  have hirr : ∀ a b : κ × List β, a.1 < b.1 → b.1 < a.1 → a = b := fun a b hab hba =>
    absurd (Std.le_of_lt hba) (Std.not_le.mpr hab)
  have : Std.Antisymm fun a b : κ × List β => a.1 < b.1 := ⟨hirr⟩
  have : Std.Irrefl fun a b : κ × List β => a.1 < b.1 := ⟨fun a => Std.lt_irrefl⟩
  refine List.Pairwise.eq_of_mem_iff h.ascending h'.ascending fun e => ?_
  rw [h.entries e.1 e.2, h'.entries e.1 e.2]

/-- The last entry is under the greatest key. -/
theorem Grouped.endsAt (h : Grouped cs bucket) (hi : i ∈ cs.map Prod.fst)
    (hmax : ∀ j ∈ cs.map Prod.fst, j ≤ i) : EndsAt i bucket := by
  have hmem := (h.entries i _).mpr ⟨hi, rfl⟩
  rcases List.eq_nil_or_concat' bucket with rfl | ⟨init, e, rfl⟩
  · exact absurd hmem List.not_mem_nil
  · rcases List.mem_append.mp hmem with hinit | hlast
    · have hlt : i < e.1 := (List.pairwise_append.mp h.ascending).2.2 _ hinit e
        (List.mem_singleton_self e)
      have hle : e.1 ≤ i := hmax _ ((h.entries e.1 e.2).mp
        (List.mem_append_right _ (List.mem_singleton_self e))).1
      exact absurd hle (Std.not_le.mpr hlt)
    · exact ⟨init, _, by rw [List.mem_singleton.mp hlast]⟩

end Filing

end TicTacToe.Lib
