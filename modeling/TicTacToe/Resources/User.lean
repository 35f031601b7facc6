/-
TicTacToe.Resources.User — the user resource
(`program/resources/user.rs`): kind byte, balance, the three game
counters, the permanent initial lock hash, then the current lock.

The theorems mirror those of `TicTacToe.Resources.Config`; the two bodies
share `lock_codec` in the source and `fromBytesOf` here.

No `sorry`, no `axiom`, no `native_decide`.
-/
import TicTacToe.Resources.Kind

namespace TicTacToe

open Lib

/-- Per-player game counters. -/
structure GameStats where
  started : UInt64
  won : UInt64
  finished : UInt64
  deriving DecidableEq

def GameStats.default : GameStats := ⟨0, 0, 0⟩

structure UserBody where
  balance : UInt64
  gamesStarted : UInt64
  gamesWon : UInt64
  gamesFinished : UInt64
  initialLockHash : Bytes32
  lockTag : UInt8
  lockBody : List UInt8
  deriving DecidableEq

namespace UserBody

/-- The kindless zerocopy layout. -/
def layout : Reader UserBody := do
  let balance ← Reader.leU64 "user: invalid layout"
  let gamesStarted ← Reader.leU64 "user: invalid layout"
  let gamesWon ← Reader.leU64 "user: invalid layout"
  let gamesFinished ← Reader.leU64 "user: invalid layout"
  let initialLockHash ← Reader.array "user: invalid layout" 32
  let lockTag ← Reader.byte "user: invalid layout"
  let lockBody ← Reader.rest
  return { balance, gamesStarted, gamesWon, gamesFinished, initialLockHash, lockTag, lockBody }

/-- The bytes behind the kind byte. -/
def bodyBytes (v : UserBody) : List UInt8 :=
  le64 v.balance ++ (le64 v.gamesStarted ++ (le64 v.gamesWon ++ (le64 v.gamesFinished ++
    (v.initialLockHash.val ++ ([v.lockTag] ++ v.lockBody)))))

def toBytes (v : UserBody) : List UInt8 := Kind.user.toByte :: v.bodyBytes

def fromBytes (B : Battery) : List UInt8 → Except String UserBody :=
  fromBytesOf .user ⟨"user: wrong kind", "user: invalid layout"⟩ layout
    fun v => validateLockBody B v.lockTag v.lockBody

/-- The typed lock over the stored body. -/
def lock (v : UserBody) : Except Fault LockEnum := decodeLockBodyUnchecked v.lockTag v.lockBody

def stats (v : UserBody) : GameStats := ⟨v.gamesStarted, v.gamesWon, v.gamesFinished⟩

theorem readsAll_layout : ReadsAll layout bodyBytes := by
  intro buf v
  simp only [layout, Reader.leU64, Reader.array, Reader.byte, ok_bind, ok_pure,
    reads_u64 _ _ _ _, reads_array _ _ _ _ _, reads_byte _ _ _ _]
  constructor
  · rintro ⟨b, _, rfl, s, _, rfl, w, _, rfl, f, _, rfl, h, _, rfl, tag, _, rfl, body, _, hrest,
      rfl, -⟩
    obtain ⟨rfl, -⟩ := EStateM.Result.ok.inj hrest
    rfl
  · rintro rfl
    exact ⟨_, _, rfl, _, _, rfl, _, _, rfl, _, _, rfl, _, _, rfl, _, _, rfl, _, _, rfl, rfl, rfl⟩

theorem fromBytes_ok {B : Battery} {bytes : List UInt8} {v : UserBody} :
    fromBytes B bytes = .ok v ↔
      bytes = v.toBytes ∧ validateLockBody B v.lockTag v.lockBody = .ok () :=
  fromBytesOf_ok readsAll_layout

/-- A parsed body holds a lock, and that lock is stored as written. -/
theorem lock_of_fromBytes {B : Battery} {bytes : List UInt8} {v : UserBody}
    (h : fromBytes B bytes = .ok v) :
    ∃ l : LockEnum, v.lock = .ok l ∧ l.WellFormed B ∧ v.lockTag = l.tag ∧ v.lockBody = l.body := by
  obtain ⟨l, hwf, htag, hbody⟩ := validateLockBody_ok.mp (fromBytes_ok.mp h).2
  exact ⟨l, by rw [lock, htag, hbody, decodeLockBodyUnchecked_body], hwf, htag, hbody⟩

end UserBody

def userHeaderLen : Nat := 66

def userTotalLen (lock : LockEnum) : Nat := userHeaderLen + lock.wireBodyLen

/-- The user a lock is stored in. -/
def UserBody.withLock (balance : UInt64) (stats : GameStats) (initialLockHash : Bytes32)
    (lock : LockEnum) : UserBody :=
  { balance, gamesStarted := stats.started, gamesWon := stats.won,
    gamesFinished := stats.finished, initialLockHash, lockTag := lock.tag, lockBody := lock.body }

section WithLock

variable (balance : UInt64) (stats : GameStats) (initialLockHash : Bytes32) (lock : LockEnum)

@[simp] theorem UserBody.withLock_balance :
    (withLock balance stats initialLockHash lock).balance = balance := rfl

@[simp] theorem UserBody.withLock_stats :
    (withLock balance stats initialLockHash lock).stats = stats := rfl

@[simp] theorem UserBody.withLock_initialLockHash :
    (withLock balance stats initialLockHash lock).initialLockHash = initialLockHash := rfl

end WithLock

/-- `write_user` over the buffer `out`, every byte of which it rewrites. -/
def writeUser (out : List UInt8) (balance : UInt64) (stats : GameStats)
    (initialLockHash : Bytes32) (lock : LockEnum) : Except Fault (List UInt8) := do
  if out.length ≠ userTotalLen lock then
    throw (.decode "user: write buffer wrong length")
  let lockBody ← lock.writeBody (out.length - userHeaderLen)
  return UserBody.toBytes
    { balance, gamesStarted := stats.started, gamesWon := stats.won,
      gamesFinished := stats.finished, initialLockHash, lockTag := lock.tag, lockBody }

theorem writeUser_ok {out : List UInt8} {lock : LockEnum} (b : UInt64) (st : GameStats)
    (h : Bytes32) (hlen : out.length = userTotalLen lock) :
    writeUser out b st h lock = .ok (UserBody.withLock b st h lock).toBytes := by
  have hsub : userTotalLen lock - userHeaderLen = lock.wireBodyLen := by
    rw [userTotalLen, Nat.add_sub_cancel_left]
  simp only [writeUser, hlen, ne_eq, not_true_eq_false, if_false, hsub,
    LockEnum.writeBody_wireBodyLen]
  rfl

/-- What is written parses back. -/
theorem UserBody.fromBytes_withLock {B : Battery} {lock : LockEnum} (b : UInt64) (st : GameStats)
    (h : Bytes32) (hwf : lock.WellFormed B) :
    fromBytes B (withLock b st h lock).toBytes = .ok (withLock b st h lock) :=
  fromBytes_ok.mpr ⟨rfl, hwf⟩

end TicTacToe
