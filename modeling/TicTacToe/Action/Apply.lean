/-
TicTacToe.Action.Apply — the ten action handlers (`program/action.rs`,
`program/action/{config,user,deposit,withdraw,game}.rs`), as the source
writes them: the same checks in the same order with the same messages,
and every state change where the source makes it.

`requireUserLock` is the view-and-unlock preamble six handlers share; each
passes its own two messages.

No `sorry`, no `axiom`, no `native_decide`.
-/
import TicTacToe.Action.Body
import TicTacToe.Action.Policy
import TicTacToe.Resources.Ext
import TicTacToe.Resources.Id

namespace TicTacToe

open Lib

/-- A decode error. -/
def err {α : Type} (msg : String) : Guest α := throw (.decode msg)

/-- `v.lock().unlock(idx, auth_ctx)`. -/
def lockOpens (B : Battery) (lock : Except Fault LockEnum) (idx : UInt8) (auth : AuthContext) :
    Except Fault Bool :=
  lock.map fun l => l.unlock B idx auth

/-- `view_config_at`. -/
def viewConfigAt {α : Type} (B : Battery) (configIdx : UInt8) (f : ConfigBody → α) : Guest α := do
  let r ← resourceAt configIdx.toNat
  okOr (.decode "config resource not live") (viewConfig B r f)

/-- `validate_user_create`. -/
def validateUserCreate (B : Battery) (slotId : ResourceId) (initialLock : LockEnum)
    (funding minBalance : UInt64) : Except Fault Bytes32 :=
  let ilh := initialLock.idHash B
  if slotId ≠ deriveUserResource B ilh then
    .error (.decode "create: slot id != derive_user_resource(initial_lock)")
  else if funding < minBalance then
    .error (.decode "create: funding below policy minimum to create user")
  else
    .ok ilh

/-- Views the user at `idx` and unlocks its current lock there. -/
def requireUserLock (B : Battery) (idx : UInt8) (notLive notSatisfied : String) :
    Guest UserBody := do
  let cx ← get
  let r ← resourceAt idx.toNat
  let (opens, v) ← okOr (.decode notLive)
    (viewUser B r fun v => (lockOpens B v.lock idx cx.authCtx, v))
  let authOk ← liftE opens
  if authOk then
    return v
  else
    err notSatisfied

/-- `modify_user` on `resources[idx]`, an absent or read-only user being
the error `notLive`. -/
def modifyUserAt (B : Battery) (idx : Nat) (f : EStateM Fault UserBody Unit) (notLive : String) :
    Guest Unit := do
  let res ← onResource idx (modifyUser B f)
  okOr (.decode notLive) res

/-- `bal.set(bal.get().checked_sub(amount)?)`. -/
def debitBalance (amount : UInt64) (insufficient : String) : EStateM Fault UserBody Unit := do
  let v ← get
  let new ← okOr (.decode insufficient) (checkedSub v.balance amount)
  set { v with balance := new }

/-- `bal.set(bal.get().checked_add(amount)?)`. -/
def creditBalance (amount : UInt64) (overflow : String) : EStateM Fault UserBody Unit := do
  let v ← get
  let new ← okOr (.decode overflow) (checkedAdd v.balance amount)
  set { v with balance := new }

/-! ## Config -/

/-- `write_new_state`: re-sizes only when the length differs. -/
def writeNewState (newMin newTurnTtl : UInt64) (newCovenantId : Bytes32) (newLock : LockEnum) :
    EStateM Fault Resource Unit := do
  let r ← get
  let newLen := configTotalLen newLock
  let r' := if r.data = [] ∨ r.data.length ≠ newLen then r.resize newLen else r
  set r'
  let bytes ← liftE (writeConfig r'.data newMin newTurnTtl newCovenantId newLock)
  set (r'.setData bytes)

def applyUpdate (B : Battery) (updaterIdx : UInt8) (newMin newTurnTtl : UInt64)
    (newCovenantId : Bytes32) (newLock : LockEnum) : Guest Unit := do
  let l ← lifecycleAt updaterIdx.toNat
  match l with
  | .new => err "update: config resource must already exist"
  | .deleted => err "update: config resource is deleted"
  | .live =>
    let cx ← get
    let target ← resourceAt updaterIdx.toNat
    match ConfigBody.fromBytes B target.data with
    | .error m => err m
    | .ok cur =>
      if newCovenantId ≠ cur.covenantId then
        err "update: covenant_id is immutable after init"
      else
        let opens ← liftE (lockOpens B cur.lock updaterIdx cx.authCtx)
        if opens then
          onResource updaterIdx.toNat (writeNewState newMin newTurnTtl newCovenantId newLock)
        else
          err "update: lock not satisfied"

/-- `Init`: the lock is an ad-hoc Schnorr lock around the genesis key. -/
def applyInit (B : Battery) (updaterIdx : UInt8) (newMin newTurnTtl : UInt64)
    (newCovenantId : Bytes32) (newLock : LockEnum) : Guest Unit := do
  let target ← resourceAt updaterIdx.toNat
  if target.id ≠ configResourceId B then
    err "init: target is not the config resource"
  else
    let l ← lifecycleAt updaterIdx.toNat
    if l ≠ .new then
      err "init: config resource already exists"
    else
      let cx ← get
      if (LockEnum.schnorr B.genesisPubkey).unlock B updaterIdx cx.authCtx then
        onResource updaterIdx.toNat (writeNewState newMin newTurnTtl newCovenantId newLock)
        markCreated updaterIdx.toNat
      else
        err "init: not authorized by genesis pubkey"

/-! ## Users -/

/-- The new destination's `initial_lock_hash` and lock, checked before any
balance moves; `none` when the destination exists. -/
def transferCreatePlan (B : Battery) (P : DepositPolicy) (dstCreate : Bool) (destIdx : UInt8)
    (amount : UInt64) (destInit : Option LockEnum) : Guest (Option (Bytes32 × LockEnum)) := do
  if dstCreate then
    let lock ← okOr (.decode "transfer: dest does not exist and no dest lock to create it") destInit
    let dst ← resourceAt destIdx.toNat
    let ilh ← liftE (validateUserCreate B dst.id lock amount P.minCreateBalance)
    return some (ilh, lock)
  else
    return none

def applyTransfer (B : Battery) (P : DepositPolicy) (sourceIdx destIdx : UInt8) (amount : UInt64)
    (destInit : Option LockEnum) : Guest Unit := do
  if sourceIdx = destIdx then
    err "transfer: source and dest must differ"
  else
    let l ← lifecycleAt destIdx.toNat
    if l = .deleted then
      err "transfer: dest was deleted in this tx"
    else
      let cx ← get
      if sourceIdx.toNat ≥ cx.resources.length ∨ destIdx.toNat ≥ cx.resources.length then
        err "transfer: bad indices"
      else
        let _ ← requireUserLock B sourceIdx "transfer: source not a live user resource"
          "source: lock not satisfied"
        let plan ← transferCreatePlan B P (l == .new) destIdx amount destInit
        modifyUserAt B sourceIdx.toNat (debitBalance amount "source: insufficient balance")
          "transfer: source not a live writable user resource"
        match plan with
        | some (ilh, lock) =>
          onResource destIdx.toNat (initUser amount ilh lock)
          markCreated destIdx.toNat
        | none =>
          modifyUserAt B destIdx.toNat (creditBalance amount "dest: balance overflow")
            "transfer: dest not a live writable user resource"

def applyUpdateUserLock (B : Battery) (userIdx : UInt8) (newLock : LockEnum) : Guest Unit := do
  let _ ← requireUserLock B userIdx "update_user_lock: not a live user resource"
    "update_user_lock: current lock not satisfied"
  onResource userIdx.toNat (setUserLock B newLock)

/-! ## Deposits and withdrawals -/

inductive CreditKind where
  | create (ilh : Bytes32)
  | creditExisting (newBalance : UInt64)

/-- Create or credit, with the new balance, before any state changes. -/
def depositCreditKind (B : Battery) (P : DepositPolicy) (target : CreditTarget)
    (initialLock : LockEnum) (depositValue : UInt64) : Guest CreditKind := do
  let idx := target.userIdx.toNat
  let l ← lifecycleAt idx
  match l with
  | .new =>
    match target.createWith with
    | some _ =>
      let slot ← resourceAt idx
      let ilh ← liftE (validateUserCreate B slot.id initialLock depositValue P.minCreateBalance)
      return .create ilh
    | none => err "deposit: user does not exist (policy forbids create)"
  | .live =>
    let slot ← resourceAt idx
    let (curBalance, storedIlh) ← okOr (.decode "deposit: target not a live user resource")
      (viewUser B slot fun v => (v.balance, v.initialLockHash))
    if storedIlh ≠ initialLock.idHash B then
      err "deposit: initial_lock mismatch for existing user"
    else
      let new ← okOr (.decode "deposit: balance overflow") (checkedAdd curBalance depositValue)
      return .creditExisting new
  | .deleted => err "deposit: target slot was deleted in this tx"

/-- The credit itself, once every check passed. -/
def depositCredit (B : Battery) (idx : Nat) (depositValue : UInt64) (initialLock : LockEnum) :
    CreditKind → Guest Unit
  | .create ilh => do
    markCreated idx
    onResource idx (initUser depositValue ilh initialLock)
  | .creditExisting newBalance =>
    modifyUserAt B idx (modify fun v => { v with balance := newBalance })
      "deposit: target not a live writable user resource"

def applyDeposit (B : Battery) (P : DepositPolicy) (userIdx configIdx : UInt8)
    (outputIdx : UInt32) (initialLock : LockEnum) : Guest Unit := do
  let cx ← get
  if outputIdx ∈ cx.consumedOutputs then
    err "deposit: output already consumed in this tx"
  else
    let covenantId ← viewConfigAt B configIdx fun c => c.covenantId
    let out ← okOr (.decode "deposit: bad output_idx / rest_preimage")
      (B.parseOutputAtIndexV1 cx.tx.restPreimage outputIdx)
    let body : DepositBody := { userIdx, outputIdx, initialLock }
    if out.spkVersion ≠ 0 ∨ out.spk ≠ P.depositSpk body covenantId then
      err "deposit: funding output SPK != policy deposit_spk"
    else
      let target ← liftE ((P.creditTarget body).mapError .decode)
      if target.userIdx.toNat ≥ cx.resources.length then
        err "deposit: credit user_idx out of range"
      else
        let kind ← depositCreditKind B P target initialLock out.value
        let deposit ← liftE ((B.depositSet cx.deposit (B.delegateEntrySpkHash covenantId)).mapError
          .decode)
        modify fun cx => { cx with deposit, consumedOutputs := cx.consumedOutputs ++ [outputIdx] }
        depositCredit B target.userIdx.toNat out.value initialLock kind

def applyWithdraw (B : Battery) (userIdx configIdx : UInt8) (amount : UInt64)
    (dest : StandardSpk) : Guest Unit := do
  let min ← viewConfigAt B configIdx fun c => c.minWithdrawalAmount
  let _ ← requireUserLock B userIdx "withdraw: not a live user resource"
    "withdraw: lock not satisfied"
  if amount < min then
    err "withdraw: amount below min_withdrawal_amount"
  else
    let r ← resourceAt userIdx.toNat
    let cur ← okOr (.decode "withdraw: not a live user resource") (viewUser B r fun v => v.balance)
    let newBalance ← okOr (.decode "withdraw: insufficient balance") (checkedSub cur amount)
    modifyUserAt B userIdx.toNat (modify fun v => { v with balance := newBalance })
      "withdraw: not a live writable user resource"
    let cx ← get
    let exits ← okOr (.decode "withdraw: emit failed") (cx.exits.emit B dest amount)
    set { cx with exits }

/-! ## Games -/

/-- The stake leaves the creator's balance and the counter advances. -/
def debitCreator (stake gamesStarted : UInt64) : EStateM Fault UserBody Unit := do
  debitBalance stake "create_game: insufficient balance"
  let v ← get
  let next ← okOr (.decode "create_game: games_started overflow") (checkedAdd gamesStarted 1)
  set { v with gamesStarted := next }

def applyCreateGame (B : Battery) (creatorIdx gameIdx : UInt8) (stake : UInt64) (rounds : UInt8)
    (mark : Cell) : Guest Unit := do
  if rounds = 0 then
    err "create_game: rounds must be at least 1"
  else
    let l ← lifecycleAt gameIdx.toNat
    if l ≠ .new then
      err "create_game: game slot is not new"
    else
      let v ← requireUserLock B creatorIdx "create_game: creator not a live user resource"
        "create_game: creator lock not satisfied"
      let slot ← resourceAt gameIdx.toNat
      if slot.id ≠ deriveGameResource B v.initialLockHash v.gamesStarted then
        err "create_game: slot id != derive_game_resource(initial_lock_hash, games_started)"
      else
        modifyUserAt B creatorIdx.toNat (debitCreator stake v.gamesStarted)
          "create_game: creator not a live writable user resource"
        markCreated gameIdx.toNat
        let creator ← resourceAt creatorIdx.toNat
        onResource gameIdx.toNat (initGame creator.id mark stake rounds)

def applyJoinGame (B : Battery) (gameIdx joinerIdx : UInt8) : Guest Unit := do
  let _ ← requireUserLock B joinerIdx "join_game: joiner not a live user resource"
    "join_game: joiner lock not satisfied"
  let game ← resourceAt gameIdx.toNat
  let (state, creatorId, stake) ← okOr (.decode "join_game: not a live game resource")
    (viewGame game fun g => (g.state, g.creator, g.stake))
  if state ≠ .open then
    err "join_game: game is not open"
  else
    let joiner ← resourceAt joinerIdx.toNat
    if joiner.id = creatorId then
      err "join_game: joiner is the creator"
    else
      modifyUserAt B joinerIdx.toNat (debitBalance stake "join_game: insufficient balance")
        "join_game: joiner not a live writable user resource"
      let cx ← get
      let res ← onResource gameIdx.toNat
        (modifyGame (modify fun p =>
          { p with game := p.game.seatJoiner joiner.id cx.context.daaScore }))
      okOr (.decode "join_game: not a live writable game resource") res

/-- `user_slot_of`. -/
def userSlotOf (resources : List Resource) (id : ResourceId) : Option Nat :=
  resources.findIdx? fun r => r.id = id

/-- A zero credit leaves the balance alone. -/
def settleBalance (credit : UInt64) : EStateM Fault UserBody Unit :=
  if credit > 0 then creditBalance credit "settle: balance overflow" else pure ()

def bumpGamesFinished : EStateM Fault UserBody Unit := do
  let v ← get
  let gamesFinished ← okOr (.decode "settle: stat overflow") (checkedAdd v.gamesFinished 1)
  set { v with gamesFinished }

def bumpGamesWon : EStateM Fault UserBody Unit := do
  let v ← get
  let gamesWon ← okOr (.decode "settle: stat overflow") (checkedAdd v.gamesWon 1)
  set { v with gamesWon }

/-- One seat's share of the pot and stats. -/
def settleUser (credit : UInt64) (won : Bool) : EStateM Fault UserBody Unit := do
  settleBalance credit
  bumpGamesFinished
  if won then bumpGamesWon else pure ()

def settleSeat (B : Battery) (player : ResourceId) (credit : UInt64) (won : Bool) :
    Guest Unit := do
  let cx ← get
  let idx ← okOr (.decode "settle: player user resource missing from tx")
    (userSlotOf cx.resources player)
  modifyUserAt B idx (settleUser credit won) "settle: player not a live writable user resource"

/-- What each seat is paid, and which seat won. -/
def settleCredits (state : State) (stake pot : UInt64) :
    Except Fault ((Seat → UInt64) × Option Seat) :=
  match state with
  | .first => .ok (fun s => if s = 0 then pot else 0, some 0)
  | .second => .ok (fun s => if s = 0 then 0 else pot, some 1)
  | .draw => .ok (fun _ => stake, none)
  | .open | .playing => .error (.decode "settle: settlement on an unfinished game")

/-- `settle_match`. -/
def settleMatch (B : Battery) (gameIdx : UInt8) : Guest Unit := do
  let game ← resourceAt gameIdx.toNat
  let (state, creator, joiner, stake) ← okOr (.decode "settle: not a live game resource")
    (viewGame game fun g => (g.state, g.creator, g.joiner, g.stake))
  let joiner ← okOr (.decode "settle: finished game without a joiner") joiner
  let pot ← okOr (.decode "settle: pot overflows") (checkedMul stake 2)
  let (credits, winner) ← liftE (settleCredits state stake pot)
  settleSeat B creator (credits 0) (winner = some 0)
  settleSeat B joiner (credits 1) (winner = some 1)

def applyTurn (B : Battery) (gameIdx userIdx cell : UInt8) : Guest Unit := do
  let _ ← requireUserLock B userIdx "turn: mover not a live user resource"
    "turn: mover lock not satisfied"
  let mover ← resourceAt userIdx.toNat
  let cx ← get
  let res ← onResource gameIdx.toNat (modifyGame (playTurn mover.id cell cx.context.daaScore))
  let finished ← okOr (.decode "turn: not a live writable game resource") res
  if finished then
    settleMatch B gameIdx
  else
    return ()

def applyTimeout (B : Battery) (gameIdx configIdx : UInt8) : Guest Unit := do
  let turnTtl ← viewConfigAt B configIdx fun c => c.turnTtl
  let cx ← get
  let res ← onResource gameIdx.toNat (modifyGame (forfeitRound turnTtl cx.context.daaScore))
  let finished ← okOr (.decode "timeout: not a live writable game resource") res
  if finished then
    settleMatch B gameIdx
  else
    return ()

/-- `apply_action`. -/
def applyAction (B : Battery) (P : DepositPolicy) : ActionBody → Guest Unit
  | .update configIdx newMin newTurnTtl newCovenantId newLock =>
    applyUpdate B configIdx newMin newTurnTtl newCovenantId newLock
  | .init configIdx newMin newTurnTtl newCovenantId newLock =>
    applyInit B configIdx newMin newTurnTtl newCovenantId newLock
  | .transfer sourceIdx destIdx amount destInit =>
    applyTransfer B P sourceIdx destIdx amount destInit
  | .updateUserLock userIdx newLock => applyUpdateUserLock B userIdx newLock
  | .deposit userIdx configIdx outputIdx initialLock =>
    applyDeposit B P userIdx configIdx outputIdx initialLock
  | .withdraw userIdx configIdx amount dest => applyWithdraw B userIdx configIdx amount dest
  | .createGame creatorIdx gameIdx stake rounds mark =>
    applyCreateGame B creatorIdx gameIdx stake rounds mark
  | .joinGame gameIdx joinerIdx => applyJoinGame B gameIdx joinerIdx
  | .turn gameIdx userIdx cell => applyTurn B gameIdx userIdx cell
  | .timeout gameIdx configIdx => applyTimeout B gameIdx configIdx

end TicTacToe
