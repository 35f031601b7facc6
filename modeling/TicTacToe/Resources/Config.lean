/-
TicTacToe.Resources.Config — the singleton config resource
(`program/resources/config.rs`): kind byte, fixed header, then the
tag-driven lock body.

`fromBytes_ok` is the round trip of the payload in both directions;
`lock_of_fromBytes` is why `ConfigBody::lock` is infallible on a parsed
body.

No `sorry`, no `axiom`, no `native_decide`.
-/
import TicTacToe.Resources.Kind

namespace TicTacToe

open Lib

structure ConfigBody where
  minWithdrawalAmount : UInt64
  turnTtl : UInt64
  covenantId : Bytes32
  lockTag : UInt8
  lockBody : List UInt8
  deriving DecidableEq

namespace ConfigBody

/-- The kindless zerocopy layout. -/
def layout : Reader ConfigBody := do
  let minWithdrawalAmount ← Reader.leU64 "config: invalid layout"
  let turnTtl ← Reader.leU64 "config: invalid layout"
  let covenantId ← Reader.array "config: invalid layout" 32
  let lockTag ← Reader.byte "config: invalid layout"
  let lockBody ← Reader.rest
  return { minWithdrawalAmount, turnTtl, covenantId, lockTag, lockBody }

/-- The bytes behind the kind byte. -/
def bodyBytes (v : ConfigBody) : List UInt8 :=
  le64 v.minWithdrawalAmount ++
    (le64 v.turnTtl ++ (v.covenantId.val ++ ([v.lockTag] ++ v.lockBody)))

def toBytes (v : ConfigBody) : List UInt8 := Kind.config.toByte :: v.bodyBytes

def fromBytes (B : Battery) : List UInt8 → Except String ConfigBody :=
  fromBytesOf .config ⟨"config: wrong kind", "config: invalid layout"⟩ layout
    fun v => validateLockBody B v.lockTag v.lockBody

/-- The typed lock over the stored body. -/
def lock (v : ConfigBody) : Except Fault LockEnum := decodeLockBodyUnchecked v.lockTag v.lockBody

theorem readsAll_layout : ReadsAll layout bodyBytes := by
  intro buf v
  simp only [layout, Reader.leU64, Reader.array, Reader.byte, ok_bind, ok_pure,
    reads_u64 _ _ _ _, reads_array _ _ _ _ _, reads_byte _ _ _ _]
  constructor
  · rintro ⟨m, _, rfl, t, _, rfl, c, _, rfl, tag, _, rfl, body, _, hrest, rfl, -⟩
    obtain ⟨rfl, -⟩ := EStateM.Result.ok.inj hrest
    rfl
  · rintro rfl
    exact ⟨_, _, rfl, _, _, rfl, _, _, rfl, _, _, rfl, _, _, rfl, rfl, rfl⟩

theorem fromBytes_ok {B : Battery} {bytes : List UInt8} {v : ConfigBody} :
    fromBytes B bytes = .ok v ↔
      bytes = v.toBytes ∧ validateLockBody B v.lockTag v.lockBody = .ok () :=
  fromBytesOf_ok readsAll_layout

/-- A parsed body holds a lock, and that lock is stored as written. -/
theorem lock_of_fromBytes {B : Battery} {bytes : List UInt8} {v : ConfigBody}
    (h : fromBytes B bytes = .ok v) :
    ∃ l : LockEnum, v.lock = .ok l ∧ l.WellFormed B ∧ v.lockTag = l.tag ∧ v.lockBody = l.body := by
  obtain ⟨l, hwf, htag, hbody⟩ := validateLockBody_ok.mp (fromBytes_ok.mp h).2
  exact ⟨l, by rw [lock, htag, hbody, decodeLockBodyUnchecked_body], hwf, htag, hbody⟩

end ConfigBody

def configHeaderLen : Nat := 50

def configTotalLen (lock : LockEnum) : Nat := configHeaderLen + lock.wireBodyLen

/-- The config a lock is stored in. -/
def ConfigBody.withLock (minWithdrawalAmount turnTtl : UInt64) (covenantId : Bytes32)
    (lock : LockEnum) : ConfigBody :=
  { minWithdrawalAmount, turnTtl, covenantId, lockTag := lock.tag, lockBody := lock.body }

/-- `write_config` over the buffer `out`, every byte of which it rewrites. -/
def writeConfig (out : List UInt8) (minWithdrawalAmount turnTtl : UInt64) (covenantId : Bytes32)
    (lock : LockEnum) : Except Fault (List UInt8) := do
  if out.length ≠ configTotalLen lock then
    throw (.decode "config: write buffer wrong length")
  let lockBody ← lock.writeBody (out.length - configHeaderLen)
  return ConfigBody.toBytes
    { minWithdrawalAmount, turnTtl, covenantId, lockTag := lock.tag, lockBody }

theorem writeConfig_ok {out : List UInt8} {lock : LockEnum} (m t : UInt64) (c : Bytes32)
    (h : out.length = configTotalLen lock) :
    writeConfig out m t c lock = .ok (ConfigBody.withLock m t c lock).toBytes := by
  have hlen : configTotalLen lock - configHeaderLen = lock.wireBodyLen := by
    rw [configTotalLen, Nat.add_sub_cancel_left]
  simp only [writeConfig, h, ne_eq, not_true_eq_false, if_false, hlen,
    LockEnum.writeBody_wireBodyLen]
  rfl

/-- What is written parses back. -/
theorem ConfigBody.fromBytes_withLock {B : Battery} {lock : LockEnum} (m t : UInt64) (c : Bytes32)
    (h : lock.WellFormed B) :
    fromBytes B (withLock m t c lock).toBytes = .ok (withLock m t c lock) :=
  fromBytes_ok.mpr ⟨rfl, h⟩

end TicTacToe
