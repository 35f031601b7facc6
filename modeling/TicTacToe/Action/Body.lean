/-
TicTacToe.Action.Body — the ten actions and their wire decoding
(`program/action.rs`).

`ActionBody.InBounds` is everything the decoder guarantees about an
action it returns, and so what the handlers may rely on: indexes of
attached resources, storable locks, a board position, a choosable mark.

No `sorry`, no `axiom`, no `native_decide`.
-/
import TicTacToe.Resources.Game
import TicTacToe.Runtime.Ix

namespace TicTacToe

open Lib

inductive ActionTag where
  | update
  | init
  | transfer
  | updateUserLock
  | deposit
  | withdraw
  | createGame
  | joinGame
  | turn
  | timeout
  deriving DecidableEq, Repr

/-- `ActionTag::try_from`. -/
def ActionTag.tryFrom (v : UInt8) : Option ActionTag :=
  if v = 0x01 then some update
  else if v = 0x02 then some init
  else if v = 0x03 then some transfer
  else if v = 0x04 then some updateUserLock
  else if v = 0x05 then some deposit
  else if v = 0x06 then some withdraw
  else if v = 0x07 then some createGame
  else if v = 0x08 then some joinGame
  else if v = 0x09 then some turn
  else if v = 0x0a then some timeout
  else none

/-- The body of an action entry; its tag is its constructor. -/
inductive ActionBody where
  | update (configIdx : UInt8) (newMinWithdrawalAmount newTurnTtl : UInt64)
      (newCovenantId : Bytes32) (newLock : LockEnum)
  | init (configIdx : UInt8) (newMinWithdrawalAmount newTurnTtl : UInt64)
      (newCovenantId : Bytes32) (newLock : LockEnum)
  | transfer (sourceIdx destIdx : UInt8) (amount : UInt64) (destInit : Option LockEnum)
  | updateUserLock (userIdx : UInt8) (newLock : LockEnum)
  | deposit (userIdx configIdx : UInt8) (outputIdx : UInt32) (initialLock : LockEnum)
  | withdraw (userIdx configIdx : UInt8) (amount : UInt64) (dest : StandardSpk)
  | createGame (creatorIdx gameIdx : UInt8) (stake : UInt64) (rounds : UInt8) (mark : Cell)
  | joinGame (gameIdx joinerIdx : UInt8)
  | turn (gameIdx userIdx cell : UInt8)
  | timeout (gameIdx configIdx : UInt8)
  deriving DecidableEq

/-! ## Wire decoding -/

/-- `0` is no lock, `1` a lock that follows, anything else malformed. -/
def decodeDestInit (B : Battery) : Reader (Option LockEnum) := do
  let flag ← Reader.byte "action.transfer.has_dest_lock"
  if flag = 0 then
    return none
  else if flag = 1 then
    let lock ← decodeLock B
    return some lock
  else
    throw (.decode "action.transfer: bad has_dest_lock flag")

/-- The mark byte of `CreateGame`; `Empty` is not choosable. -/
def decodeMark : Reader Cell := do
  let b ← Reader.byte "action.create_game.mark"
  if b = 1 then
    return .x
  else if b = 2 then
    return .o
  else
    throw (.decode "action.create_game: mark must be X or O")

/-- `StandardSpk::decode` with every error mapped to one message. -/
def decodeDest : Reader StandardSpk := fun buf =>
  match StandardSpk.decode buf with
  | .ok dest rest => .ok dest rest
  | .error _ rest => .error (.decode "action.withdraw: bad dest spk") rest

def decodeBody (B : Battery) (n : Nat) : ActionTag → Reader ActionBody
  | .update => do
    let configIdx ← readResourceIdx "action.update.config_idx" n
    let newMin ← Reader.leU64 "action.update.new_min_withdrawal_amount"
    let newTurnTtl ← Reader.leU64 "action.update.new_turn_ttl"
    let newCovenantId ← Reader.array "action.update.new_covenant_id" 32
    let newLock ← decodeLock B
    return .update configIdx newMin newTurnTtl newCovenantId newLock
  | .init => do
    let configIdx ← readResourceIdx "action.init.config_idx" n
    let newMin ← Reader.leU64 "action.init.new_min_withdrawal_amount"
    let newTurnTtl ← Reader.leU64 "action.init.new_turn_ttl"
    let newCovenantId ← Reader.array "action.init.new_covenant_id" 32
    let newLock ← decodeLock B
    return .init configIdx newMin newTurnTtl newCovenantId newLock
  | .transfer => do
    let sourceIdx ← readResourceIdx "action.transfer.source_idx" n
    let destIdx ← readResourceIdx "action.transfer.dest_idx" n
    let amount ← Reader.leU64 "action.transfer.amount"
    let destInit ← decodeDestInit B
    return .transfer sourceIdx destIdx amount destInit
  | .updateUserLock => do
    let userIdx ← readResourceIdx "action.update_user_lock.user_idx" n
    let newLock ← decodeLock B
    return .updateUserLock userIdx newLock
  | .deposit => do
    let userIdx ← readResourceIdx "action.deposit.user_idx" n
    let configIdx ← readResourceIdx "action.deposit.config_idx" n
    let outputIdx ← Reader.leU32 "action.deposit.output_idx"
    let initialLock ← decodeLock B
    return .deposit userIdx configIdx outputIdx initialLock
  | .withdraw => do
    let userIdx ← readResourceIdx "action.withdraw.user_idx" n
    let configIdx ← readResourceIdx "action.withdraw.config_idx" n
    let amount ← Reader.leU64 "action.withdraw.amount"
    let dest ← decodeDest
    return .withdraw userIdx configIdx amount dest
  | .createGame => do
    let creatorIdx ← readResourceIdx "action.create_game.creator_idx" n
    let gameIdx ← readResourceIdx "action.create_game.game_idx" n
    let stake ← Reader.leU64 "action.create_game.stake"
    let rounds ← Reader.byte "action.create_game.rounds"
    let mark ← decodeMark
    return .createGame creatorIdx gameIdx stake rounds mark
  | .joinGame => do
    let gameIdx ← readResourceIdx "action.join_game.game_idx" n
    let joinerIdx ← readResourceIdx "action.join_game.joiner_idx" n
    return .joinGame gameIdx joinerIdx
  | .turn => do
    let gameIdx ← readResourceIdx "action.turn.game_idx" n
    let userIdx ← readResourceIdx "action.turn.user_idx" n
    let cell ← Reader.byte "action.turn.cell"
    if cell > 8 then
      throw (.decode "action.turn: cell must be a board position 0..=8")
    else
      return .turn gameIdx userIdx cell
  | .timeout => do
    let gameIdx ← readResourceIdx "action.timeout.game_idx" n
    let configIdx ← readResourceIdx "action.timeout.config_idx" n
    return .timeout gameIdx configIdx

/-- `decode_action`. -/
def decodeAction (B : Battery) (nResources : Nat) : Reader ActionBody := do
  let b ← Reader.byte "action.action_tag"
  match ActionTag.tryFrom b with
  | none => throw (.decode "action: unknown tag")
  | some tag => decodeBody B nResources tag

/-! ## What is decoded is in bounds -/

/-- The guarantees the handlers run under. -/
def ActionBody.InBounds (B : Battery) (n : Nat) : ActionBody → Prop
  | update i _ _ _ lock | init i _ _ _ lock => i.toNat < n ∧ lock.WellFormed B
  | transfer s d _ lock => s.toNat < n ∧ d.toNat < n ∧ ∀ l, lock = some l → l.WellFormed B
  | updateUserLock i lock => i.toNat < n ∧ lock.WellFormed B
  | deposit u c _ lock => u.toNat < n ∧ c.toNat < n ∧ lock.WellFormed B
  | withdraw u c _ _ => u.toNat < n ∧ c.toNat < n
  | createGame c g _ _ mark => c.toNat < n ∧ g.toNat < n ∧ mark ≠ .empty
  | joinGame g j => g.toNat < n ∧ j.toNat < n
  | turn g u cell => g.toNat < n ∧ u.toNat < n ∧ cell.toNat < 9
  | timeout g c => g.toNat < n ∧ c.toNat < n

theorem decodes_standardSpk : Decodes Fault.IsReject StandardSpk.decode (fun _ => True) := by
  refine (Reader.decodes_byte _).bind fun tag _ => Decodes.ite (fun _ => ?_) fun _ =>
    Decodes.ite (fun _ => ?_) fun _ => Decodes.ite (fun _ => ?_) fun _ => decodes_throw trivial
  · exact (Reader.decodes_array _ 32).bind fun _ _ => decodes_pure trivial
  · exact (Reader.decodes_array _ 33).bind fun _ _ => decodes_pure trivial
  · exact (Reader.decodes_array _ 32).bind fun _ _ => decodes_pure trivial

theorem decodes_decodeDest : Decodes Fault.IsReject decodeDest (fun _ => True) := by
  intro buf
  have h := decodes_standardSpk buf
  unfold wp at h
  simp only [wp, decodeDest]
  cases hd : StandardSpk.decode buf with
  | ok dest rest =>
    rw [hd] at h
    exact h
  | error e rest => trivial

theorem decodes_decodeDestInit (B : Battery) :
    Decodes Fault.IsReject (decodeDestInit B) (fun o => ∀ l, o = some l → l.WellFormed B) := by
  refine (Reader.decodes_byte _).bind fun flag _ => Decodes.ite (fun _ => ?_) fun _ =>
    Decodes.ite (fun _ => ?_) fun _ => decodes_throw trivial
  · exact decodes_pure fun l h => by cases h
  · exact (decodes_decodeLock B).bind fun lock hl => decodes_pure fun l h => by
      cases h
      exact hl

theorem decodes_decodeMark : Decodes Fault.IsReject decodeMark (fun m => m ≠ .empty) := by
  refine (Reader.decodes_byte _).bind fun b _ => Decodes.ite (fun _ => ?_) fun _ =>
    Decodes.ite (fun _ => ?_) fun _ => decodes_throw trivial
  · exact decodes_pure (by decide)
  · exact decodes_pure (by decide)

theorem decodes_decodeBody (B : Battery) (n : Nat) (tag : ActionTag) :
    Decodes Fault.IsReject (decodeBody B n tag) (ActionBody.InBounds B n) := by
  cases tag with
  | update | init =>
    refine (decodes_readResourceIdx _ n).bind fun i hi => (Reader.decodes_leU64 _).bind fun _ _ =>
      (Reader.decodes_leU64 _).bind fun _ _ => (Reader.decodes_array _ 32).bind fun _ _ =>
      (decodes_decodeLock B).bind fun lock hl => decodes_pure ?_
    exact ⟨hi, hl⟩
  | transfer =>
    refine (decodes_readResourceIdx _ n).bind fun s hs => (decodes_readResourceIdx _ n).bind
      fun d hd => (Reader.decodes_leU64 _).bind fun _ _ => (decodes_decodeDestInit B).bind
      fun lock hl => decodes_pure ?_
    exact ⟨hs, hd, hl⟩
  | updateUserLock =>
    refine (decodes_readResourceIdx _ n).bind fun i hi => (decodes_decodeLock B).bind
      fun lock hl => decodes_pure ?_
    exact ⟨hi, hl⟩
  | deposit =>
    refine (decodes_readResourceIdx _ n).bind fun u hu => (decodes_readResourceIdx _ n).bind
      fun c hc => (Reader.decodes_leU32 _).bind fun _ _ => (decodes_decodeLock B).bind
      fun lock hl => decodes_pure ?_
    exact ⟨hu, hc, hl⟩
  | withdraw =>
    refine (decodes_readResourceIdx _ n).bind fun u hu => (decodes_readResourceIdx _ n).bind
      fun c hc => (Reader.decodes_leU64 _).bind fun _ _ => decodes_decodeDest.bind
      fun _ _ => decodes_pure ?_
    exact ⟨hu, hc⟩
  | createGame =>
    refine (decodes_readResourceIdx _ n).bind fun c hc => (decodes_readResourceIdx _ n).bind
      fun g hg => (Reader.decodes_leU64 _).bind fun _ _ => (Reader.decodes_byte _).bind
      fun _ _ => decodes_decodeMark.bind fun m hm => decodes_pure ?_
    exact ⟨hc, hg, hm⟩
  | joinGame =>
    refine (decodes_readResourceIdx _ n).bind fun g hg => (decodes_readResourceIdx _ n).bind
      fun j hj => decodes_pure ?_
    exact ⟨hg, hj⟩
  | turn =>
    refine (decodes_readResourceIdx _ n).bind fun g hg => (decodes_readResourceIdx _ n).bind
      fun u hu => (Reader.decodes_byte _).bind fun cell _ => Decodes.ite (fun _ => ?_) fun h => ?_
    · exact decodes_throw trivial
    · refine decodes_pure ⟨hg, hu, ?_⟩
      have h8 : cell.toNat ≤ 8 := UInt8.not_lt.mp h
      omega
  | timeout =>
    refine (decodes_readResourceIdx _ n).bind fun g hg => (decodes_readResourceIdx _ n).bind
      fun c hc => decodes_pure ?_
    exact ⟨hg, hc⟩

theorem decodes_decodeAction (B : Battery) (n : Nat) :
    Decodes Fault.IsReject (decodeAction B n) (ActionBody.InBounds B n) := by
  refine (Reader.decodes_byte _).bind fun b _ => ?_
  cases ActionTag.tryFrom b with
  | none => exact decodes_throw trivial
  | some tag => exact decodes_decodeBody B n tag

end TicTacToe
