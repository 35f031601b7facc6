/-
TicTacToe.Web.Match — the browser's turn logic (`web/src/match.ts`) over
the game JSON that the server builds (`game_json` in `node/src/da.rs`),
and its agreement with the guest.

The browser derives the mover from what was served: the round from three
counters, the marks from `creator_mark`, the ply from the board. JSON
numbers of bytes are exact in JavaScript, so they are naturals here; the
ids are hex strings, compared as strings (`hexString_injective`). The
64-bit numbers (`stake`, `pot` and `last_move_at`) stand as they are
served, which is what the browser reads up to 2^53; the turn logic looks
at none of them.

`isMyTurn_iff` holds of every started match. `turn_logic_agrees` reads
it at the games a reachable store holds: what the browser sends is the
next ply.

No `sorry`, no `axiom`, no `native_decide`.
-/
import TicTacToe.Invariants.Quiescence
import TicTacToe.Web.Hex

namespace TicTacToe.Web

open Lib

/-! ## What is served -/

/-- `DaGame`, the object `game_json` builds. -/
structure DaGame where
  id : String
  state : Nat
  stateName : String
  stake : Nat
  pot : Nat
  roundsTotal : Nat
  creatorMark : Nat
  roundWins : Nat × Nat
  draws : Nat
  players : String × Option String
  board : List Nat
  lastMoveAt : Nat

def stateName : State → String
  | .open => "Open"
  | .playing => "Playing"
  | .first => "First"
  | .second => "Second"
  | .draw => "Draw"

/-- `pot` wraps as the release build does; nothing below reads it. -/
def gameJson (idHex : String) (body : GameBody) : DaGame where
  id := idHex
  state := body.state.toByte.toNat
  stateName := stateName body.state
  stake := body.stake.toNat
  pot := (body.stake * 2).toNat
  roundsTotal := body.roundsTotal.toNat
  creatorMark := body.creatorMark.toByte.toNat
  roundWins := ((body.roundWins 0).toNat, (body.roundWins 1).toNat)
  draws := body.draws.toNat
  players := (hexString body.creator.val, body.joiner.map fun j => hexString j.val)
  board := List.ofFn fun i => (body.board i).toByte.toNat
  lastMoveAt := body.lastMoveAt.toNat

/-! ## What the browser derives -/

/-- The mark to move: X while the count of marks on the board is even. -/
def toMoveMark (board : List Nat) : Nat :=
  let plies := board.foldl (fun plies c => if c ≠ 0 then plies + 1 else plies) 0
  if plies % 2 = 0 then 1 else 2

/-- 0 the creator, 1 the joiner, -1 an observer. -/
def seatOf (players : String × Option String) (myUserId : String) : Int :=
  if players.1 = myUserId then 0
  else if players.2 = some myUserId then 1
  else -1

/-- The opposite mark code (1 X, 2 O). -/
def otherMark (mark : Nat) : Nat := if mark = 1 then 2 else 1

/-- Whether the board accepts my click. -/
def isMyTurn (game : DaGame) (myUserId : String) : Bool :=
  if game.state ≠ 1 then false
  else
    let seat := seatOf game.players myUserId
    if seat < 0 then false
    else
      let round := game.roundWins.1 + game.roundWins.2 + game.draws
      let seat0Mark := if round % 2 = 0 then game.creatorMark else otherMark game.creatorMark
      let myMark := if seat = 0 then seat0Mark else otherMark seat0Mark
      toMoveMark game.board = myMark

/-- Whether a queued turn may be submitted right now; a cell off the board
reads as `undefined`, which is not `0`. -/
def turnDispatchable (game : DaGame) (myUserId : String) (myTurnInFlight anyTurnInFlight : Bool)
    (cell : Nat) : Bool :=
  if game.state ≠ 1 then false
  else if !isMyTurn game myUserId then false
  else if game.board[cell]? ≠ some 0 then false
  else !myTurnInFlight && !anyTurnInFlight

/-! ## The seat -/

theorem hexString_eq_iff {a b : ResourceId} : hexString a.val = hexString b.val ↔ a = b := by
  rw [hexString_injective.eq_iff, Subtype.ext_iff]

/-- The seat of an id as the browser numbers it. -/
def seatNumber : Except Fault Seat → Int
  | .ok s => s.val
  | .error _ => -1

theorem seatOf_gameJson (id : String) (g : GameBody) (user : ResourceId) :
    seatOf (gameJson id g).players (hexString user.val)
      = seatNumber (TicTacToe.seatOf g user) := by
  have hcreator : (gameJson id g).players.1 = hexString user.val ↔ g.creator = user :=
    hexString_eq_iff
  have hjoiner : (gameJson id g).players.2 = some (hexString user.val) ↔ g.joiner = some user := by
    constructor
    · intro h
      obtain ⟨j, hjoin, hhex⟩ := Option.map_eq_some_iff.mp h
      rw [hjoin, hexString_eq_iff.mp hhex]
    · intro h
      exact Option.map_eq_some_iff.mpr ⟨user, h, rfl⟩
  unfold seatOf TicTacToe.seatOf
  by_cases hc : g.creator = user
  · rw [if_pos (hcreator.mpr hc), if_pos hc]
    rfl
  · rw [if_neg fun h => hc (hcreator.mp h), if_neg hc]
    by_cases hj : g.joiner = some user
    · rw [if_pos (hjoiner.mpr hj), if_pos hj]
      rfl
    · rw [if_neg fun h => hj (hjoiner.mp h), if_neg hj]
      rfl

/-- The players of a game are the ids that have a seat. -/
theorem isPlayer_iff {g : GameBody} {user : ResourceId} :
    (g.creator = user ∨ g.joiner = some user) ↔ ∃ s, TicTacToe.seatOf g user = .ok s := by
  unfold TicTacToe.seatOf
  by_cases hc : g.creator = user
  · rw [if_pos hc]
    exact ⟨fun _ => ⟨0, rfl⟩, fun _ => .inl hc⟩
  · rw [if_neg hc]
    by_cases hj : g.joiner = some user
    · rw [if_pos hj]
      exact ⟨fun _ => ⟨1, rfl⟩, fun _ => .inr hj⟩
    · rw [if_neg hj]
      refine ⟨fun h => (h.elim hc hj).elim, fun h => ?_⟩
      obtain ⟨s, hs⟩ := h
      cases hs

/-! ## The mover -/

theorem foldl_count (board : List Cell) (n : Nat) :
    (board.map fun c => c.toByte.toNat).foldl (fun plies c => if c ≠ 0 then plies + 1 else plies) n
      = n + (board.filter fun c => c ≠ .empty).length := by
  induction board generalizing n with
  | nil => rfl
  | cons c board ih =>
    rw [List.map_cons, List.foldl_cons, ih]
    cases c with
    | empty => rfl
    | x =>
      simp [Cell.toByte]
      omega
    | o =>
      simp [Cell.toByte]
      omega

/-- Both sides count the same plies. -/
theorem toMoveMark_gameJson (id : String) (g : GameBody) :
    toMoveMark (gameJson id g).board = if Rules.plies g.board % 2 = 0 then 1 else 2 := by
  have hlen : ((List.ofFn g.board).filter fun c => c ≠ .empty).length ≤ 9 := by
    have h := List.length_filter_le (fun c => decide (c ≠ Cell.empty)) (List.ofFn g.board)
    rwa [List.length_ofFn] at h
  have hboard : (gameJson id g).board = (List.ofFn g.board).map fun c => c.toByte.toNat :=
    (List.map_ofFn ..).symm
  have hplies : (Rules.plies g.board).toNat
      = ((List.ofFn g.board).filter fun c => c ≠ .empty).length := by
    rw [Rules.plies, UInt8.toNat_ofNat', Nat.mod_eq_of_lt (by omega)]
  unfold toMoveMark
  rw [hboard, foldl_count, Nat.zero_add, ← hplies]
  simp only [even_of_mod, Nat.even_iff]

/-- The marks the browser gives the two seats are the guest's. -/
theorem myMark_eq {cm : Cell} (hcm : cm ≠ .empty) (round : UInt8) (seat : Seat) :
    (let seat0Mark := if round.toNat % 2 = 0 then cm.toByte.toNat else otherMark cm.toByte.toNat
      if (seat.val : Int) = 0 then seat0Mark else otherMark seat0Mark)
      = (Rules.markForSeat cm round seat).toByte.toNat := by
  have hparity : (round.toNat % 2 = 0) = (round % 2 = 0) :=
    propext (by rw [even_of_mod, Nat.even_iff])
  simp only [hparity, Rules.markForSeat]
  by_cases hr : round % 2 = 0
  · simp only [hr, if_true, decide_true]
    obtain rfl | rfl := Reference.seat_cases seat
    · rfl
    · cases cm with
      | empty => exact absurd rfl hcm
      | x => rfl
      | o => rfl
  · simp only [hr, if_false, decide_false]
    obtain rfl | rfl := Reference.seat_cases seat
    · cases cm with
      | empty => exact absurd rfl hcm
      | x => rfl
      | o => rfl
    · cases cm with
      | empty => exact absurd rfl hcm
      | x => rfl
      | o => rfl

/-- A seat is to move when its mark is the one the ply asks for. -/
theorem seatToMove_iff {cm : Cell} (hcm : cm ≠ .empty) (round : UInt8) (board : Board)
    (seat : Seat) :
    (if Rules.plies board % 2 = 0 then 1 else 2)
        = (Rules.markForSeat cm round seat).toByte.toNat ↔
      Rules.seatToMove cm round board = seat := by
  unfold Rules.seatToMove Rules.markForSeat
  by_cases hp : Rules.plies board % 2 = 0 <;> by_cases hr : round % 2 = 0 <;>
    obtain rfl | rfl := Reference.seat_cases seat <;> cases cm <;>
    simp_all [Cell.toByte, Rules.other]

section Derived

variable {g : GameBody} {r : Reference.Match}

theorem gameJson_state {id : String} : (gameJson id g).state = 1 ↔ g.state = .playing := by
  show g.state.toByte.toNat = 1 ↔ _
  cases g.state <;> decide

/-- Off a live match it is nobody's turn. -/
theorem isMyTurn_idle {id user : String} (h : g.state ≠ .playing) :
    isMyTurn (gameJson id g) user = false := by
  unfold isMyTurn
  exact if_pos fun he => h (gameJson_state.mp he)

/-- What the browser derives of a started match is what the guest derives. -/
theorem isMyTurn_iff (h : Sim g r) (hv : r.Valid) (id : String) (user : ResourceId) :
    isMyTurn (gameJson id g) (hexString user.val) = true ↔
      g.state = .playing ∧ ∃ s, TicTacToe.seatOf g user = .ok s ∧ toMove g = .ok s := by
  obtain ⟨n, hmr, hn⟩ := markAndRound_sim h.toCounts hv
  have hcm : g.creatorMark ≠ .empty := by
    rw [h.creatorMark]
    cases r.creatorMark <;> decide
  have hround : (g.roundWins 0).toNat + (g.roundWins 1).toNat + g.draws.toNat = n.toNat := by
    rw [h.wins, h.wins, h.draws, hn, hv.round_eq]
  have hmove : toMove g = .ok (Rules.seatToMove g.creatorMark n g.board) := by
    rw [toMove, hmr, h.creatorMark]
    rfl
  by_cases hon : g.state = .playing
  swap
  · rw [isMyTurn_idle hon]
    exact ⟨fun hf => absurd hf Bool.false_ne_true, fun hp => absurd hp.1 hon⟩
  unfold isMyTurn
  rw [if_neg (not_not.mpr (gameJson_state.mpr hon))]
  have hnumber := seatOf_gameJson id g user
  cases hseat : TicTacToe.seatOf g user with
  | error e =>
    rw [hseat] at hnumber
    rw [hnumber]
    simp [seatNumber]
  | ok s =>
    have hnumber' : seatOf (gameJson id g).players (hexString user.val) = (s.val : Int) := by
      rw [hnumber, hseat]
      rfl
    have hpos : ¬ ((s.val : Int) < 0) := by omega
    have hmark := myMark_eq hcm n s
    dsimp only at hmark ⊢
    rw [hnumber', if_neg hpos, decide_eq_true_eq, toMoveMark_gameJson,
      show (gameJson id g).roundWins.1 + (gameJson id g).roundWins.2 + (gameJson id g).draws
        = n.toNat from hround,
      show (gameJson id g).creatorMark = g.creatorMark.toByte.toNat from rfl, hmark,
      seatToMove_iff hcm, hmove]
    constructor
    · intro hs
      exact ⟨hon, s, rfl, by rw [hs]⟩
    · intro hp
      obtain ⟨-, s', hs, hm⟩ := hp
      cases hs
      exact Except.ok.inj hm

/-- A dispatchable cell is an empty square of the board. -/
theorem turnDispatchable_cell {id : String} {user : String} {mine any : Bool} {cell : Nat}
    (h : turnDispatchable (gameJson id g) user mine any cell = true) :
    isMyTurn (gameJson id g) user = true ∧
      ∃ hcell : cell < 9, g.board ⟨cell, hcell⟩ = .empty := by
  unfold turnDispatchable at h
  split at h
  · cases h
  split at h
  · cases h
  rename_i hturn
  split at h
  · cases h
  rename_i hfree
  rw [not_not] at hfree
  rw [Bool.not_eq_true', Bool.not_eq_false] at hturn
  refine ⟨hturn, ?_⟩
  have hread : (List.ofFn fun i => (g.board i).toByte.toNat)[cell]? = some 0 := hfree
  rw [List.getElem?_ofFn] at hread
  split at hread
  swap
  · cases hread
  rename_i hcell
  refine ⟨hcell, ?_⟩
  have hbyte : (g.board ⟨cell, hcell⟩).toByte.toNat = 0 := Option.some.inj hread
  cases hmark : g.board ⟨cell, hcell⟩ with
  | empty => rfl
  | x =>
    rw [hmark] at hbyte
    cases hbyte
  | o =>
    rw [hmark] at hbyte
    cases hbyte

end Derived

/-! ## Stored games -/

section Stored

variable {B : Battery} {P : DepositPolicy} {R : Rollup} {st : Store}

/-- Of every game body a reachable store holds, as served, and every user:
the browser shows a turn exactly when the match is on, the user plays in it
and it is the user's ply in the guest; and a turn the browser would dispatch
is accepted by the guest and is the next ply, with the user's mark. -/
theorem turn_logic_agrees (hR : Reachable B P R) (hst : R.Observed B P st) {id : ResourceId}
    {g : GameBody} (hg : GameBody.fromBytes (st id) = .ok g) (user : ResourceId) :
    (isMyTurn (gameJson (hexString id.val) g) (hexString user.val) = true ↔
      g.state = .playing ∧ (g.creator = user ∨ g.joiner = some user) ∧
        ∃ s, TicTacToe.seatOf g user = .ok s ∧ toMove g = .ok s) ∧
    ∀ (mine any : Bool) (cell : Nat) (now : UInt64),
      turnDispatchable (gameJson (hexString id.val) g) (hexString user.val) mine any cell = true →
      ∃ s m l fin p', cell < 9 ∧ TicTacToe.seatOf g user = .ok s ∧ markAndRound g = .ok m ∧
        playTurn user (UInt8.ofNat cell) now ⟨g, []⟩ = .ok fin p' ∧
        p'.log = .placed s (UInt8.ofNat cell) (Rules.markForSeat m.1 m.2 s) :: l := by
  obtain ⟨hist, hrun⟩ := hst.run hR
  obtain ⟨log, hlog⟩ := sound_of_run hrun id g (Slot.parse_eq_game.mpr hg)
  -- off a live match both sides say no
  have hturn : isMyTurn (gameJson (hexString id.val) g) (hexString user.val) = true ↔
      g.state = .playing ∧ ∃ s, TicTacToe.seatOf g user = .ok s ∧ toMove g = .ok s := by
    by_cases hon : g.state = .playing
    · obtain ⟨u, hs, -⟩ := hlog.playing hon
      exact isMyTurn_iff hs.sim hs.valid _ user
    · rw [isMyTurn_idle hon]
      exact ⟨fun hf => absurd hf Bool.false_ne_true, fun hp => absurd hp.1 hon⟩
  constructor
  · rw [hturn, isPlayer_iff]
    constructor
    · intro h
      obtain ⟨hon, s, hseat, hmove⟩ := h
      exact ⟨hon, ⟨s, hseat⟩, s, hseat, hmove⟩
    · intro h
      exact ⟨h.1, h.2.2⟩
  · intro mine any cell now hdispatch
    obtain ⟨hmine, hcell, hfree⟩ := turnDispatchable_cell hdispatch
    obtain ⟨hon, s, hseat, hmove⟩ := hturn.mp hmine
    have hbyte : (UInt8.ofNat cell).toNat = cell := by
      rw [UInt8.toNat_ofNat', Nat.mod_eq_of_lt (by omega)]
    have hcell' : (UInt8.ofNat cell).toNat < 9 := by omega
    have hfree' : g.board ⟨(UInt8.ofNat cell).toNat, hcell'⟩ = .empty := by
      rw [← hfree]
      exact congrArg g.board (Fin.ext hbyte)
    have haccept : wp (playTurn user (UInt8.ofNat cell) now) (fun _ _ => True)
        (fun _ _ => False) ⟨g, []⟩ := by
      refine wp_mono (hlog.wp_playTurn hcell' user now) (fun _ _ _ => trivial) ?_
      intro e _ hrefused
      exact hrefused.2 ⟨hon, s, hseat, hmove, hfree'⟩
    obtain ⟨fin, p', hrun', -⟩ := wp_total haccept
    obtain ⟨m, l, hm, hfirst⟩ := playTurn_first_mark hrun' hseat hmove
    exact ⟨s, m, l, fin, p', hcell, hseat, hm, hrun', hfirst⟩

theorem turn_logic_agrees_opened :
    ∃ g, GameBody.fromBytes (Sample.opened.store Sample.gameId) = .ok g ∧
      isMyTurn (gameJson (hexString Sample.gameId.val) g) (hexString Sample.aliceId.val) = true ∧
      ∃ s m l fin p', TicTacToe.seatOf g Sample.aliceId = .ok s ∧ markAndRound g = .ok m ∧
        playTurn Sample.aliceId 4 7 ⟨g, []⟩ = .ok fin p' ∧
        p'.log = .placed s 4 (Rules.markForSeat m.1 m.2 s) :: l := by
  obtain ⟨g, hg, hcheck⟩ := ok_of_any
    (x := GameBody.fromBytes (Sample.opened.store Sample.gameId))
    (p := fun g => g.state = .playing ∧ g.creator = Sample.aliceId ∧ g.board 4 = .empty ∧
      (toMove g).toOption = some 0)
    (by decide +kernel)
  obtain ⟨hon, hcreator, hfree, hmover⟩ := of_decide_eq_true hcheck
  have hseat : TicTacToe.seatOf g Sample.aliceId = .ok 0 := if_pos hcreator
  have hmove : toMove g = .ok 0 := by
    cases hm : toMove g with
    | ok s =>
      rw [hm] at hmover
      rw [Option.some.inj hmover]
    | error e =>
      rw [hm] at hmover
      cases hmover
  obtain ⟨hturn, hlands⟩ :=
    turn_logic_agrees Sample.reachable_opened .between hg Sample.aliceId
  have hmine := hturn.mpr ⟨hon, .inl hcreator, 0, hseat, hmove⟩
  have hcell : (gameJson (hexString Sample.gameId.val) g).board[4]? = some 0 := by
    show (List.ofFn fun i => (g.board i).toByte.toNat)[4]? = some 0
    rw [List.getElem?_ofFn]
    simp only [Nat.reduceLT, dite_true]
    exact congrArg (fun c : Cell => some c.toByte.toNat) hfree
  obtain ⟨s, m, l, fin, p', -, hs, hm, hrun, hlog⟩ := hlands false false 4 7 (by
    unfold turnDispatchable
    rw [if_neg (not_not.mpr (gameJson_state.mpr hon)), hmine, hcell]
    rfl)
  exact ⟨g, hg, hmine, s, m, l, fin, p', hs, hm, hrun, hlog⟩

end Stored

end TicTacToe.Web
