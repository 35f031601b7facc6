/-
TicTacToe.Resources.Pending — the pending ring behaves as a bounded
first-in first-out list.

`toList` is the logical content; `push` appends to it, `pop` takes its
head, `peek` looks at its head, and none of the three panics on a ring
whose cursors are in range (`CursorsOk`), which all three preserve. The
last section runs any sequence of the three from a zeroed ring against
the list `fifo` of capacity four.

`QueueOk` adds what the rings of a match keep: entries on the board.

No `sorry`, no `axiom`, no `native_decide`.
-/
import TicTacToe.Lib.Refine
import TicTacToe.Resources.Game

namespace TicTacToe

open Lib

/-- Cursors in range. -/
structure CursorsOk (q : PendingQueue) : Prop where
  head_lt : q.head.toNat < 4
  count_le : q.count.toNat ≤ 4

/-- Cursors in range, live entries on the board. -/
structure QueueOk (q : PendingQueue) : Prop where
  head_lt : q.head.toNat < 4
  count_le : q.count.toNat ≤ 4
  cells_lt : ∀ c ∈ q.toList, c.toNat < 9

theorem QueueOk.cursors {q : PendingQueue} (h : QueueOk q) : CursorsOk q :=
  ⟨h.head_lt, h.count_le⟩

namespace PendingQueue

@[simp] theorem length_toList (q : PendingQueue) : q.toList.length = q.count.toNat := by
  simp [toList]

@[simp] theorem toList_zeroed : zeroed.toList = [] := rfl

theorem cursorsOk_zeroed : CursorsOk zeroed where
  head_lt := by decide
  count_le := by decide

theorem queueOk_zeroed : QueueOk zeroed where
  head_lt := by decide
  count_le := by decide
  cells_lt := fun _ hc => absurd hc List.not_mem_nil

/-- The content as the head followed by the rest of the ring. -/
theorem toList_of_count_pos {q : PendingQueue} (hh : q.head.toNat < 4) (hc : 0 < q.count.toNat) :
    q.toList = q.cells ⟨q.head.toNat, hh⟩ ::
      (List.range (q.count.toNat - 1)).map fun k =>
        q.cells ⟨(q.head.toNat + (k + 1)) % 4, Nat.mod_lt _ (by decide)⟩ := by
  obtain ⟨n, hn⟩ : ∃ n, q.count.toNat = n + 1 := ⟨q.count.toNat - 1, by omega⟩
  rw [toList, hn, List.range_succ_eq_map, List.map_cons, List.map_map, Nat.add_sub_cancel]
  have hmod : (q.head.toNat + 0) % 4 = q.head.toNat := by omega
  simp only [hmod]
  rfl

/-! ## The three operations, whatever the ring holds -/

theorem peek_of_cursors {q : PendingQueue} (h : CursorsOk q) : q.peek = .ok q.toList.head? := by
  unfold peek
  by_cases hc : q.count.toNat > 0
  · rw [if_pos hc, index_ok h.head_lt, toList_of_count_pos h.head_lt hc]
    rfl
  · have hnil : q.toList = [] := List.length_eq_zero_iff.mp (by rw [length_toList]; omega)
    rw [if_neg hc, hnil]
    rfl

theorem push_of_full {q : PendingQueue} (cell : UInt8) (hc : q.count.toNat = 4) :
    push cell q = .ok false q := by
  have hw : wp (push cell) (fun b q' => b = false ∧ q' = q) (fun _ _ => False) q := by
    simp only [push, wp_bind, wp_get, pendingCap, hc, if_true, wp_pure]
    exact ⟨trivial, trivial⟩
  obtain ⟨b, q', hrun, rfl, rfl⟩ := wp_total hw
  exact hrun

theorem push_of_room {q : PendingQueue} (h : CursorsOk q) (cell : UInt8)
    (hroom : q.count.toNat < 4) :
    ∃ q', push cell q = .ok true q' ∧ CursorsOk q' ∧ q'.toList = q.toList ++ [cell] := by
  have hc : ¬ q.count.toNat = 4 := by omega
  obtain ⟨hadd, hval⟩ := addU8_eq_ok (a := q.count) (b := 1) (by
    show q.count.toNat + 1 < 256
    omega)
  have htail : (q.head.toNat + q.count.toNat) % 4 < 4 := Nat.mod_lt _ (by decide)
  have hval' : (q.count + 1).toNat = q.count.toNat + 1 := hval
  have hlist : PendingQueue.toList
      { q with cells := Function.update q.cells ⟨_, htail⟩ cell, count := q.count + 1 }
      = q.toList ++ [cell] := by
    rw [toList, hval', List.range_succ, List.map_append, List.map_singleton]
    congr 1
    · refine List.map_congr_left fun k hk => ?_
      have hk' : k < q.count.toNat := List.mem_range.mp hk
      refine Function.update_of_ne (fun e => ?_) _ _
      have e' : (q.head.toNat + k) % 4 = (q.head.toNat + q.count.toNat) % 4 :=
        congrArg Fin.val e
      omega
    · exact congrArg (fun c => [c]) (Function.update_self ..)
  have hw : wp (push cell) (fun b q' => b = true ∧ CursorsOk q' ∧
      q'.toList = q.toList ++ [cell]) (fun _ _ => False) q := by
    simp only [push, wp_bind, wp_get, pendingCap, hc, if_false, setIndex_ok htail, hadd,
      wp_liftE_ok, wp_set, wp_pure]
    exact ⟨trivial, ⟨h.head_lt, by rw [hval']; omega⟩, hlist⟩
  obtain ⟨b, q', hrun, rfl, hok, hq'⟩ := wp_total hw
  exact ⟨q', hrun, hok, hq'⟩

theorem pop_of_nil {q : PendingQueue} (hq : q.toList = []) : pop q = .ok none q := by
  have hc : q.count = 0 := by
    apply UInt8.toNat_inj.mp
    rw [← length_toList, hq]
    rfl
  have hw : wp pop (fun o q' => o = none ∧ q' = q) (fun _ _ => False) q := by
    simp only [pop, wp_bind, wp_get, hc, if_true, wp_pure]
    exact ⟨trivial, trivial⟩
  obtain ⟨o, q', hrun, rfl, rfl⟩ := wp_total hw
  exact hrun

theorem pop_of_cons {q : PendingQueue} {c : UInt8} {rest : List UInt8} (h : CursorsOk q)
    (hq : q.toList = c :: rest) :
    ∃ q', pop q = .ok (some c) q' ∧ CursorsOk q' ∧ q'.toList = rest := by
  have hlen : q.count.toNat = rest.length + 1 := by
    rw [← length_toList, hq, List.length_cons]
  have hcount := h.count_le
  have hhead := h.head_lt
  have hne : q.count ≠ 0 := by
    intro h0
    rw [h0] at hlen
    exact absurd hlen (Nat.succ_ne_zero _).symm
  obtain ⟨hadd, hval⟩ := addU8_eq_ok (a := q.head) (b := 1) (by
    show q.head.toNat + 1 < 256
    omega)
  have hsplit := toList_of_count_pos hhead (by omega)
  rw [hq] at hsplit
  obtain ⟨hc, hrest⟩ := List.cons.inj hsplit
  have hval' : (q.head + 1).toNat = q.head.toNat + 1 := hval
  have hnext : ((q.head + 1) % 4).toNat = (q.head.toNat + 1) % 4 := by
    rw [UInt8.toNat_mod, hval']
    rfl
  have hdec : (q.count - 1).toNat = rest.length := by
    rw [UInt8.toNat_sub_of_le _ _ (by
      rw [UInt8.le_iff_toNat_le]
      show 1 ≤ q.count.toNat
      omega)]
    show q.count.toNat - 1 = rest.length
    omega
  have hlist : PendingQueue.toList { q with head := (q.head + 1) % 4, count := q.count - 1 }
      = rest := by
    rw [hrest, toList]
    simp only [hnext, hdec, hlen, Nat.add_sub_cancel]
    refine List.map_congr_left fun k _ => ?_
    congr 2
    omega
  have hw : wp pop (fun o q' => o = some c ∧ CursorsOk q' ∧ q'.toList = rest)
      (fun _ _ => False) q := by
    simp only [pop, wp_bind, wp_get, hne, if_false, index_ok hhead, wp_liftE_ok, hadd, wp_set,
      wp_pure]
    refine ⟨by rw [← hc], ⟨?_, ?_⟩, hlist⟩
    · rw [hnext]
      exact Nat.mod_lt _ (by decide)
    · rw [hdec]
      omega
  obtain ⟨o, q', hrun, rfl, hok, hq'⟩ := wp_total hw
  exact ⟨q', hrun, hok, hq'⟩

/-! ## The ring of a match -/

theorem peek_eq {q : PendingQueue} (h : QueueOk q) : q.peek = .ok q.toList.head? :=
  peek_of_cursors h.cursors

/-- A full ring refuses; any other one appends. -/
theorem wp_push {q : PendingQueue} {cell : UInt8} (h : QueueOk q) (hcell : cell.toNat < 9)
    {Q : Bool → PendingQueue → Prop} {E : Fault → PendingQueue → Prop}
    (hfull : q.count.toNat = 4 → Q false q)
    (hroom : ∀ q', q.count.toNat < 4 → QueueOk q' → q'.toList = q.toList ++ [cell] → Q true q') :
    wp (push cell) Q E q := by
  have hcount := h.count_le
  by_cases hc : q.count.toNat = 4
  · exact (wp_of_ok (push_of_full cell hc)).mpr (hfull hc)
  · obtain ⟨q', hrun, hok, hlist⟩ := push_of_room h.cursors cell (by omega)
    refine (wp_of_ok hrun).mpr (hroom q' (by omega) ⟨hok.head_lt, hok.count_le, ?_⟩ hlist)
    intro c hmem
    rw [hlist] at hmem
    rcases List.mem_append.mp hmem with hmem | hmem
    · exact h.cells_lt c hmem
    · rw [List.mem_singleton.mp hmem]
      exact hcell

/-- Popping a ring that holds something takes the oldest entry. -/
theorem wp_pop {q : PendingQueue} {c : UInt8} {rest : List UInt8} (h : QueueOk q)
    (hq : q.toList = c :: rest) {Q : Option UInt8 → PendingQueue → Prop}
    {E : Fault → PendingQueue → Prop}
    (hpop : ∀ q', QueueOk q' → q'.toList = rest → Q (some c) q') :
    wp pop Q E q := by
  obtain ⟨q', hrun, hok, hlist⟩ := pop_of_cons h.cursors hq
  refine (wp_of_ok hrun).mpr (hpop q' ⟨hok.head_lt, hok.count_le, ?_⟩ hlist)
  intro d hd
  rw [hlist] at hd
  exact h.cells_lt d (hq ▸ List.mem_cons_of_mem _ hd)

/-! ## Sequences of operations -/

/-- The operations callers have on a ring. -/
inductive Op where
  | push (cell : UInt8)
  | pop
  | peek
  deriving DecidableEq

inductive Answer where
  | pushed (held : Bool)
  | popped (cell : Option UInt8)
  | peeked (cell : Option UInt8)
  deriving DecidableEq

def perform : Op → EStateM Fault PendingQueue Answer
  | .push cell => do
    let held ← push cell
    return .pushed held
  | .pop => do
    let cell ← pop
    return .popped cell
  | .peek => do
    let q ← get
    let cell ← liftE q.peek
    return .peeked cell

/-- What the ring is for: a list of at most four entries, oldest first. -/
def fifo : Op → List UInt8 → Answer × List UInt8
  | .push cell, held =>
    if held.length < 4 then (.pushed true, held ++ [cell]) else (.pushed false, held)
  | .pop, held => (.popped held.head?, held.tail)
  | .peek, held => (.peeked held.head?, held)

theorem perform_simulates_fifo : Simulates (fun _ => True) CursorsOk toList perform fifo := by
  intro op q _ h
  cases op with
  | push cell =>
    have hcount := h.count_le
    by_cases hc : q.count.toNat = 4
    · have hfull : ¬ q.toList.length < 4 := by rw [length_toList]; omega
      simp only [perform, fifo, if_neg hfull, bind_of_ok (push_of_full cell hc)]
      exact ⟨q, rfl, h, rfl⟩
    · obtain ⟨q', hrun, hok, hlist⟩ := push_of_room h cell (by omega)
      have hroom : q.toList.length < 4 := by rw [length_toList]; omega
      simp only [perform, fifo, if_pos hroom, bind_of_ok hrun]
      exact ⟨q', rfl, hok, hlist⟩
  | pop =>
    cases hq : q.toList with
    | nil =>
      simp only [perform, fifo, bind_of_ok (pop_of_nil hq)]
      exact ⟨q, rfl, h, hq⟩
    | cons c rest =>
      obtain ⟨q', hrun, hok, hlist⟩ := pop_of_cons h hq
      simp only [perform, fifo, bind_of_ok hrun]
      exact ⟨q', rfl, hok, hlist⟩
  | peek =>
    have hrun : perform .peek q = .ok (.peeked q.toList.head?) q := by
      have hw : wp (perform .peek) (fun a q' => a = .peeked q.toList.head? ∧ q' = q)
          (fun _ _ => False) q := by
        simp only [perform, wp_bind, wp_get, peek_of_cursors h, wp_liftE_ok, wp_pure]
        exact ⟨trivial, trivial⟩
      obtain ⟨a, q', hrun, rfl, rfl⟩ := wp_total hw
      exact hrun
    exact ⟨q, hrun, h, rfl⟩

/-- From a zeroed ring, every sequence of pushes, pops and peeks runs
without a panic, answers as the list of capacity four does and leaves the
cursors in range; a push that answers `false` leaves the ring as it was. -/
theorem performAll_eq_fifo (ops : List Op) :
    ∃ q, performAll perform ops zeroed = .ok (runSpec fifo ops []).1 q ∧
      q.head.toNat < 4 ∧ q.count.toNat ≤ 4 ∧ q.toList = (runSpec fifo ops []).2 ∧
      (∀ cell q', perform (.push cell) q = .ok (.pushed false) q' →
        q' = q ∧ q.toList.length = 4) ∧
      perform .peek q = .ok (.peeked q.toList.head?) q := by
  obtain ⟨q, hrun, hok, hlist⟩ :=
    perform_simulates_fifo.run ops (fun _ _ => trivial) cursorsOk_zeroed
  have hcount := hok.count_le
  refine ⟨q, hrun, hok.head_lt, hok.count_le, hlist, ?_, ?_⟩
  · intro cell q' hpush
    by_cases hc : q.count.toNat = 4
    · simp only [perform, bind_of_ok (push_of_full cell hc)] at hpush
      cases hpush
      exact ⟨rfl, by rw [length_toList, hc]⟩
    · obtain ⟨q'', hroom, -, -⟩ := push_of_room hok cell (by omega)
      simp only [perform, bind_of_ok hroom] at hpush
      cases hpush
  · obtain ⟨q', hpeek, -, -⟩ := perform_simulates_fifo .peek q trivial hok
    have hw : wp (perform .peek) (fun _ q' => q' = q) (fun _ _ => False) q := by
      simp only [perform, wp_bind, wp_get, peek_of_cursors hok, wp_liftE_ok, wp_pure]
    rw [hpeek, wp.ok hw hpeek]
    rfl

end PendingQueue

end TicTacToe
