/-
TicTacToe.Ledger.Step — everything an accepted action can do to the
ledger, one constructor per effect.

This is the abstract machine the handlers implement: slots instead of
bytes, ids instead of indexes, sums instead of checked arithmetic. Every
invariant of the rollup is a case analysis over `LedgerStep`; that the
handlers do nothing else is `TicTacToe.Ledger.Handlers`.

No `sorry`, no `axiom`, no `native_decide`.
-/
import TicTacToe.Ledger.Slot

namespace TicTacToe

open Function (update)

/-- Value crossing the bridge. -/
inductive Flow where
  | none
  | deposited (output : UInt32) (value : UInt64)
  | withdrawn (exit : Exit)

namespace Flow

def outputs : Flow → List UInt32
  | deposited output _ => [output]
  | _ => []

def exits : Flow → List Exit
  | withdrawn exit => [exit]
  | _ => []

end Flow

/-- The id at an index of the attached resources. -/
def ApplyContext.idAt (cx : ApplyContext) (i : UInt8) : Option ResourceId :=
  cx.resources[i.toNat]?.map Resource.id

/-- The stored lock opens at an index under the resolved signers. -/
def Opens (B : Battery) (lock : Except Fault LockEnum) (i : UInt8) (cx : ApplyContext) : Prop :=
  ∃ l, lock = .ok l ∧ l.unlock B i cx.authCtx = true

/-! ## Settlement -/

/-- What each seat is paid out of the pot of a finished match. -/
def payout (state : State) (stake : Nat) (s : Seat) : Nat :=
  match state with
  | .first => if s = 0 then 2 * stake else 0
  | .second => if s = 0 then 0 else 2 * stake
  | .draw => stake
  | .open | .playing => 0

/-- The seat a finished match went to. -/
def winnerOf : State → Option Seat
  | .first => some 0
  | .second => some 1
  | _ => none

/-- One seat's settlement: the balance takes the credit, the counters the
match; nothing else moves. -/
structure Paid (u u' : UserBody) (credit : Nat) (won : Bool) : Prop where
  balance : u'.balance.toNat = u.balance.toNat + credit
  gamesFinished : u'.gamesFinished.toNat = u.gamesFinished.toNat + 1
  gamesWon : u'.gamesWon.toNat = u.gamesWon.toNat + won.toNat
  gamesStarted : u'.gamesStarted = u.gamesStarted
  initialLockHash : u'.initialLockHash = u.initialLockHash
  lockTag : u'.lockTag = u.lockTag
  lockBody : u'.lockBody = u.lockBody

/-- Both seats of the finished game `g` are paid, seat 0 first. -/
inductive Settlement (L : Ledger) (g : GameBody) : Ledger → Prop
  | paid {u₀ u₀' u₁ u₁' : UserBody} :
      g.isFinished = true → g.players 1 ≠ ResourceId.default →
      L (g.players 0) = .user u₀ →
      Paid u₀ u₀' (payout g.state g.stake.toNat 0) (winnerOf g.state = some 0) →
      update L (g.players 0) (.user u₀') (g.players 1) = .user u₁ →
      Paid u₁ u₁' (payout g.state g.stake.toNat 1) (winnerOf g.state = some 1) →
      Settlement L g (update (update L (g.players 0) (.user u₀')) (g.players 1) (.user u₁'))

/-! ## Moves of a game -/

/-- A turn or a timeout takes the stored game from `g` to `g'`. -/
inductive GameMove (B : Battery) (cx : ApplyContext) (L : Ledger) :
    ActionBody → ResourceId → GameBody → GameBody → Prop
  | turn {gi ui cell : UInt8} {gid id : ResourceId} {u : UserBody} {fin : Bool}
      {g g' : GameBody} {log : List PlyEvent} :
      cx.idAt gi = some gid → cx.idAt ui = some id → L id = .user u → Opens B u.lock ui cx →
      playTurn id cell cx.context.daaScore ⟨g, []⟩ = .ok fin ⟨g', log⟩ →
      GameMove B cx L (.turn gi ui cell) gid g g'
  | timeout {gi ci : UInt8} {gid cid : ResourceId} {c : ConfigBody} {fin : Bool}
      {g g' : GameBody} {log : List PlyEvent} :
      cx.idAt gi = some gid → cx.idAt ci = some cid → L cid = .config c →
      forfeitRound c.turnTtl cx.context.daaScore ⟨g, []⟩ = .ok fin ⟨g', log⟩ →
      GameMove B cx L (.timeout gi ci) gid g g'

/-! ## The machine -/

inductive LedgerStep (B : Battery) (P : DepositPolicy) (cx : ApplyContext) (L : Ledger) :
    ActionBody → Flow → Ledger → Prop
  | update {i : UInt8} {min ttl : UInt64} {lock : LockEnum} {id : ResourceId} {c : ConfigBody} :
      cx.idAt i = some id → L id = .config c → Opens B c.lock i cx → lock.WellFormed B →
      LedgerStep B P cx L (.update i min ttl c.covenantId lock) .none
        (update L id (.config (.withLock min ttl c.covenantId lock)))
  | init {i : UInt8} {min ttl : UInt64} {cov : Bytes32} {lock : LockEnum} :
      cx.idAt i = some (configResourceId B) → L (configResourceId B) = .empty →
      Opens B (.ok (.schnorr B.genesisPubkey)) i cx → lock.WellFormed B →
      LedgerStep B P cx L (.init i min ttl cov lock) .none
        (update L (configResourceId B) (.config (.withLock min ttl cov lock)))
  | transfer {s d : UInt8} {amount : UInt64} {lock : Option LockEnum} {src dst : ResourceId}
      {u w : UserBody} {b b' : UInt64} :
      cx.idAt s = some src → cx.idAt d = some dst → src ≠ dst →
      L src = .user u → Opens B u.lock s cx → b.toNat + amount.toNat = u.balance.toNat →
      L dst = .user w → b'.toNat = w.balance.toNat + amount.toNat →
      LedgerStep B P cx L (.transfer s d amount lock) .none
        (update (update L src (.user { u with balance := b })) dst
          (.user { w with balance := b' }))
  | transferCreate {s d : UInt8} {amount : UInt64} {lock : LockEnum} {src dst : ResourceId}
      {u : UserBody} {b : UInt64} :
      cx.idAt s = some src → cx.idAt d = some dst → src ≠ dst →
      L src = .user u → Opens B u.lock s cx → b.toNat + amount.toNat = u.balance.toNat →
      L dst = .empty → dst = deriveUserResource B (lock.idHash B) →
      ¬ amount < P.minCreateBalance → lock.WellFormed B →
      LedgerStep B P cx L (.transfer s d amount (some lock)) .none
        (update (update L src (.user { u with balance := b })) dst
          (.user (.withLock amount .default (lock.idHash B) lock)))
  | rotate {i : UInt8} {lock : LockEnum} {id : ResourceId} {u : UserBody} :
      cx.idAt i = some id → L id = .user u → Opens B u.lock i cx → lock.WellFormed B →
      LedgerStep B P cx L (.updateUserLock i lock) .none
        (update L id (.user (.withLock u.balance u.stats u.initialLockHash lock)))
  | depositCreate {ui ci : UInt8} {oi : UInt32} {lock : LockEnum} {cid id : ResourceId}
      {c : ConfigBody} {out : Output} {target : CreditTarget} :
      oi ∉ cx.consumedOutputs → cx.idAt ci = some cid → L cid = .config c →
      B.parseOutputAtIndexV1 cx.tx.restPreimage oi = some out → out.spkVersion = 0 →
      out.spk = P.depositSpk ⟨ui, oi, lock⟩ c.covenantId →
      P.creditTarget ⟨ui, oi, lock⟩ = .ok target → cx.idAt target.userIdx = some id →
      L id = .empty → id = deriveUserResource B (lock.idHash B) →
      ¬ out.value < P.minCreateBalance → lock.WellFormed B →
      LedgerStep B P cx L (.deposit ui ci oi lock) (.deposited oi out.value)
        (update L id (.user (.withLock out.value .default (lock.idHash B) lock)))
  | depositCredit {ui ci : UInt8} {oi : UInt32} {lock : LockEnum} {cid id : ResourceId}
      {c : ConfigBody} {out : Output} {target : CreditTarget} {u : UserBody} {b : UInt64} :
      oi ∉ cx.consumedOutputs → cx.idAt ci = some cid → L cid = .config c →
      B.parseOutputAtIndexV1 cx.tx.restPreimage oi = some out → out.spkVersion = 0 →
      out.spk = P.depositSpk ⟨ui, oi, lock⟩ c.covenantId →
      P.creditTarget ⟨ui, oi, lock⟩ = .ok target → cx.idAt target.userIdx = some id →
      L id = .user u → u.initialLockHash = lock.idHash B →
      b.toNat = u.balance.toNat + out.value.toNat →
      LedgerStep B P cx L (.deposit ui ci oi lock) (.deposited oi out.value)
        (update L id (.user { u with balance := b }))
  | withdraw {ui ci : UInt8} {amount : UInt64} {dest : StandardSpk} {cid id : ResourceId}
      {c : ConfigBody} {u : UserBody} {b : UInt64} :
      cx.idAt ci = some cid → L cid = .config c → ¬ amount < c.minWithdrawalAmount →
      cx.idAt ui = some id → L id = .user u → Opens B u.lock ui cx →
      b.toNat + amount.toNat = u.balance.toNat →
      LedgerStep B P cx L (.withdraw ui ci amount dest) (.withdrawn ⟨dest, amount⟩)
        (update L id (.user { u with balance := b }))
  | createGame {ci gi : UInt8} {stake : UInt64} {rounds : UInt8} {mark : Cell}
      {id gid : ResourceId} {u : UserBody} {b n : UInt64} :
      cx.idAt ci = some id → L id = .user u → Opens B u.lock ci cx →
      b.toNat + stake.toNat = u.balance.toNat → n.toNat = u.gamesStarted.toNat + 1 →
      cx.idAt gi = some gid → L gid = .empty →
      gid = deriveGameResource B u.initialLockHash u.gamesStarted →
      rounds ≠ 0 → mark ≠ .empty →
      LedgerStep B P cx L (.createGame ci gi stake rounds mark) .none
        (update (update L id (.user { u with balance := b, gamesStarted := n })) gid
          (.game (.fresh id mark stake rounds)))
  | joinGame {gi ji : UInt8} {id gid : ResourceId} {u : UserBody} {g : GameBody} {b : UInt64} :
      cx.idAt ji = some id → L id = .user u → Opens B u.lock ji cx →
      cx.idAt gi = some gid → L gid = .game g → g.state = .open → id ≠ g.creator →
      b.toNat + g.stake.toNat = u.balance.toNat →
      LedgerStep B P cx L (.joinGame gi ji) .none
        (update (update L id (.user { u with balance := b })) gid
          (.game (g.seatJoiner id cx.context.daaScore)))
  | play {a : ActionBody} {gid : ResourceId} {g g' : GameBody} :
      GameMove B cx L a gid g g' → L gid = .game g → g'.isFinished = false →
      LedgerStep B P cx L a .none (update L gid (.game g'))
  | finish {a : ActionBody} {gid : ResourceId} {g g' : GameBody} {L' : Ledger} :
      GameMove B cx L a gid g g' → L gid = .game g →
      Settlement (update L gid (.game g')) g' L' →
      LedgerStep B P cx L a .none L'

end TicTacToe
