/-
TicTacToe.Reference.Timeline — everything that happens to the cells the
players committed to, in order.

A cell is accepted onto its seat's queue, and later read off its head:
placed if it is free then, dropped if it is taken. An entry is read only
on the ply of its seat, and a forfeit reads nothing. A cell that lands at
once was read at once.

`Timeline u es u'` says that the entries `es` lead from `u` to `u'`.
`Timeline.conserved` is the law of the queues: what was accepted is what
was read and what is left, in this order.

No `sorry`, no `axiom`, no `native_decide`.
-/
import TicTacToe.Lib.Streams
import TicTacToe.Reference.Simulation

namespace TicTacToe

open Lib
open Lib.Consumer (onStream push)
open Reference (Mark)

abbrev Committed := Unread Seat Reference.Match UInt8

inductive Entry where
  | accepted (seat : Seat) (cell : UInt8)
  | placed (seat : Seat) (cell : UInt8) (mark : Mark)
  | dropped (seat : Seat) (cell : UInt8)
  | forfeited (winner : Seat)
  deriving DecidableEq, Repr

namespace Entry

/-- The turn that was accepted. -/
def turn : Entry → Option (Seat × UInt8)
  | accepted seat cell => some (seat, cell)
  | _ => none

/-- The ply it was. -/
def ply : Entry → Option PlyEvent
  | placed seat cell mark => some (.placed seat cell mark.toCell)
  | forfeited winner => some (.forfeited winner)
  | _ => none

/-- The cell read off the head of a queue, and the mark put there, if any. -/
def fate : Entry → Option (Seat × UInt8 × Option Mark)
  | placed seat cell mark => some (seat, cell, some mark)
  | dropped seat cell => some (seat, cell, none)
  | _ => none

end Entry

/-- One entry; each while the match is on. -/
inductive Happens : Committed → Entry → Committed → Prop
  | accepted {u : Committed} (seat : Seat) (cell : UInt8) :
      u.state.result = none → Happens u (.accepted seat cell) (push u (seat, cell))
  | placed {r r' : Reference.Match} {q : Seat → List UInt8} {cell : UInt8} {rest : List UInt8}
      (h : cell.toNat < 9) :
      q r.mover = cell :: rest →
      r.place r.mover ⟨cell.toNat, h⟩ (r.markOf r.mover) = some r' →
      Happens ⟨r, q⟩ (.placed r.mover cell (r.markOf r.mover))
        ⟨r', Function.update q r.mover rest⟩
  | dropped {r : Reference.Match} {q : Seat → List UInt8} {cell : UInt8} {rest : List UInt8}
      (h : cell.toNat < 9) :
      r.result = none → q r.mover = cell :: rest → ¬ r.Free ⟨cell.toNat, h⟩ →
      Happens ⟨r, q⟩ (.dropped r.mover cell) ⟨r, Function.update q r.mover rest⟩
  | forfeited {r r' : Reference.Match} {q : Seat → List UInt8} {winner : Seat} :
      r.forfeit winner = some r' → Happens ⟨r, q⟩ (.forfeited winner) ⟨r', q⟩

inductive Timeline : Committed → List Entry → Committed → Prop
  | nil (u : Committed) : Timeline u [] u
  | cons {u u' u'' : Committed} {e : Entry} {es : List Entry} :
      Happens u e u' → Timeline u' es u'' → Timeline u (e :: es) u''

/-- The cells of `seat` that were read, each with the mark it became. -/
def fatesOf (seat : Seat) (es : List Entry) : List (UInt8 × Option Mark) :=
  onStream seat (es.filterMap Entry.fate)

/-- The marks of `seat` in a log. -/
def marksOf (seat : Seat) (log : List PlyEvent) : List (UInt8 × Cell) :=
  log.filterMap fun
    | .placed s cell mark => if s = seat then some (cell, mark) else none
    | .forfeited _ => none

/-- The fates that are marks. -/
def placedIn (fates : List (UInt8 × Option Mark)) : List (UInt8 × Cell) :=
  fates.filterMap fun f => f.2.map fun m => (f.1, m.toCell)

theorem onStream_append {ι α : Type} [DecidableEq ι] (i : ι) (l l' : List (ι × α)) :
    onStream i (l ++ l') = onStream i l ++ onStream i l' := by
  simp [onStream]

theorem filterMap_cons_toList {α β : Type} (f : α → Option β) (a : α) (l : List α) :
    (a :: l).filterMap f = (f a).toList ++ l.filterMap f := by
  cases h : f a <;> simp [h]

theorem fatesOf_cons (s : Seat) (e : Entry) (es : List Entry) :
    fatesOf s (e :: es) = fatesOf s [e] ++ fatesOf s es := by
  rw [fatesOf, ← List.singleton_append, List.filterMap_append, onStream_append]
  rfl

section Laws

variable {u u' u'' : Committed} {e : Entry} {es es' : List Entry}

theorem Timeline.single (h : Happens u e u') : Timeline u [e] u' := .cons h (.nil u')

theorem Timeline.trans (h : Timeline u es u') (h' : Timeline u' es' u'') :
    Timeline u (es ++ es') u'' := by
  induction h with
  | nil u => exact h'
  | cons hone _ ih => exact .cons hone (ih h')

/-- One entry keeps every queue in order. -/
theorem Happens.conserved (h : Happens u e u') (s : Seat) :
    u.queue s ++ onStream s e.turn.toList
      = (fatesOf s [e]).map Prod.fst ++ u'.queue s := by
  cases h with
  | accepted seat cell _ =>
    by_cases hs : seat = s
    · subst hs
      simp [Entry.turn, Entry.fate, fatesOf, onStream, push]
    · simp [Entry.turn, Entry.fate, fatesOf, onStream, push, hs, Function.update_of_ne (Ne.symm hs)]
  | @placed r r' q cell rest _ hq _ =>
    by_cases hs : r.mover = s
    · subst hs
      simp [Entry.turn, Entry.fate, fatesOf, onStream, hq]
    · simp [Entry.turn, Entry.fate, fatesOf, onStream, hs, Function.update_of_ne (Ne.symm hs)]
  | @dropped r q cell rest _ _ hq _ =>
    by_cases hs : r.mover = s
    · subst hs
      simp [Entry.turn, Entry.fate, fatesOf, onStream, hq]
    · simp [Entry.turn, Entry.fate, fatesOf, onStream, hs, Function.update_of_ne (Ne.symm hs)]
  | forfeited _ => simp [Entry.turn, Entry.fate, fatesOf, onStream]

/-- **First in, first out.** What was queued and accepted is what was read
and what is left. -/
theorem Timeline.conserved (h : Timeline u es u') (s : Seat) :
    u.queue s ++ onStream s (es.filterMap Entry.turn)
      = (fatesOf s es).map Prod.fst ++ u'.queue s := by
  induction h with
  | nil u => simp [fatesOf, onStream]
  | @cons u u' u'' e es hone _ ih =>
    rw [filterMap_cons_toList, onStream_append, ← List.append_assoc, hone.conserved s,
      List.append_assoc, ih, fatesOf_cons s e es, List.map_append, List.append_assoc]

/-- The plies of a timeline are those of the match. -/
theorem Happens.replay (h : Happens u e u') : replayLog u.state e.ply.toList = some u'.state := by
  cases h with
  | accepted seat cell _ => rfl
  | placed hcell _ hplace => exact (replayLog_singleton (toPly_placed hcell)).trans hplace
  | dropped _ _ _ _ => rfl
  | @forfeited r r' q winner hforfeit =>
    exact (replayLog_singleton (p := .forfeited winner) rfl).trans hforfeit

theorem Timeline.replay (h : Timeline u es u') :
    replayLog u.state (es.filterMap Entry.ply) = some u'.state := by
  induction h with
  | nil u => rfl
  | @cons u u' u'' e es hone _ ih =>
    rw [filterMap_cons_toList, replayLog_append hone.replay, ih]

theorem marksOf_ply (s : Seat) (e : Entry) :
    marksOf s e.ply.toList = placedIn (fatesOf s [e]) := by
  cases e with
  | accepted seat cell => rfl
  | forfeited winner => rfl
  | placed seat cell mark =>
    by_cases hs : seat = s
    · simp [marksOf, placedIn, fatesOf, onStream, Entry.ply, Entry.fate, hs]
    · simp [marksOf, placedIn, fatesOf, onStream, Entry.ply, Entry.fate, hs]
  | dropped seat cell =>
    by_cases hs : seat = s
    · simp [marksOf, placedIn, fatesOf, onStream, Entry.ply, Entry.fate, hs]
    · simp [marksOf, placedIn, fatesOf, onStream, Entry.ply, Entry.fate, hs]

/-- The marks of a seat come from what was read of it and from nowhere else. -/
theorem marksOf_plies (s : Seat) (es : List Entry) :
    marksOf s (es.filterMap Entry.ply) = placedIn (fatesOf s es) := by
  induction es with
  | nil => rfl
  | cons e es ih =>
    rw [filterMap_cons_toList, fatesOf_cons, marksOf, placedIn, List.filterMap_append,
      List.filterMap_append]
    congr 1
    exact marksOf_ply s e

/-- Two commitments of seat 1, the first of them stale when its ply came. -/
example : fatesOf 1 [.accepted 1 0, .accepted 1 4, .accepted 0 0, .placed 0 0 .x, .dropped 1 0,
    .placed 1 4 .o] = [(0, none), (4, some .o)] := by decide

end Laws

/-! ## Between two logs -/

/-- What happened from `u` to `u'` with no turn accepted; its plies are those
logged. -/
def Told (log log' : List PlyEvent) (u u' : Committed) : Prop :=
  ∃ es, Timeline u es u' ∧ es.filterMap Entry.turn = [] ∧ log' = log ++ es.filterMap Entry.ply

section Told

variable {log log' log'' : List PlyEvent} {u u' u'' : Committed}

theorem Told.refl (log : List PlyEvent) (u : Committed) : Told log log u u :=
  ⟨[], .nil u, rfl, by simp⟩

theorem Told.trans (h : Told log log' u u') (h' : Told log' log'' u' u'') :
    Told log log'' u u'' := by
  obtain ⟨es, ht, hturns, hl⟩ := h
  obtain ⟨es', ht', hturns', hl'⟩ := h'
  refine ⟨es ++ es', ht.trans ht', ?_, ?_⟩
  · rw [List.filterMap_append, hturns, hturns']
    rfl
  · rw [hl', hl, List.filterMap_append, List.append_assoc]

theorem Happens.told {e : Entry} (h : Happens u e u') (hturn : e.turn = none) :
    Told log (log ++ e.ply.toList) u u' := by
  refine ⟨[e], .single h, ?_, ?_⟩
  · simp [hturn]
  · cases e <;> rfl

end Told

end TicTacToe
