import TicTacToe.Action.Carrier
import TicTacToe.Exits.Catchup
import TicTacToe.Exits.Paths
import TicTacToe.Exits.Restart
import TicTacToe.Exits.Reverts
import TicTacToe.Index.Reorg
import TicTacToe.Invariants.Abandoned
import TicTacToe.Invariants.Access
import TicTacToe.Invariants.Accounting
import TicTacToe.Invariants.Atomic
import TicTacToe.Invariants.Buckets
import TicTacToe.Invariants.Liveness
import TicTacToe.Invariants.Payout
import TicTacToe.Invariants.Progress
import TicTacToe.Invariants.Relock
import TicTacToe.Invariants.Schedule
import TicTacToe.Web.Da
import TicTacToe.Web.Damage
import TicTacToe.Web.Dispatch
import TicTacToe.Web.Entry
import TicTacToe.Web.Wallet
