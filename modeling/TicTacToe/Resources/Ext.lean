/-
TicTacToe.Resources.Ext — the typed combinators on a resource
(`program/resources/ext.rs`).

The `modify_*` family is one definition, `modifyBody`, over the body's
parse and writer, and `wp_modifyBody` is its one rule: nothing happens
and the result is `none` unless the slot is declared writable and parses;
otherwise the closure runs on the parsed body and every exit of it,
failing ones included, is written back in place.

No `sorry`, no `axiom`, no `native_decide`.
-/
import TicTacToe.Runtime.Context
import TicTacToe.Resources.Config
import TicTacToe.Resources.User
import TicTacToe.Action.Play

namespace TicTacToe

open Lib

/-- Whether the tx declared this resource writable. -/
def Resource.isWritable (r : Resource) : Bool := r.accessType == .write

def Resource.setData (r : Resource) (data : List UInt8) : Resource := { r with data }

@[simp] theorem Resource.setData_id (r : Resource) (d : List UInt8) : (r.setData d).id = r.id := rfl

@[simp] theorem Resource.setData_accessType (r : Resource) (d : List UInt8) :
    (r.setData d).accessType = r.accessType := rfl

@[simp] theorem Resource.setData_data (r : Resource) (d : List UInt8) : (r.setData d).data = d := rfl

section Views

variable {α β : Type}

/-- `view_*`: runs `f` on the payload, `none` when the slot does not parse. -/
def viewBody (fromBytes : List UInt8 → Except String β) (r : Resource) (f : β → α) : Option α :=
  (fromBytes r.data).toOption.map f

def viewConfig (B : Battery) : Resource → (ConfigBody → α) → Option α :=
  viewBody (ConfigBody.fromBytes B)

def viewUser (B : Battery) : Resource → (UserBody → α) → Option α :=
  viewBody (UserBody.fromBytes B)

def viewGame : Resource → (GameBody → α) → Option α := viewBody GameBody.fromBytes

/-- `modify_*`: `none` when not declared writable or not parsing. -/
def modifyBody (fromBytes : List UInt8 → Except String β) (toBytes : β → List UInt8)
    (f : EStateM Fault β α) : EStateM Fault Resource (Option α) := do
  let r ← get
  if r.isWritable then
    match fromBytes r.data with
    | .error _ => return none
    | .ok v => some <$> zoom (fun _ => some v) (fun v' r' => r'.setData (toBytes v')) .panic f
  else
    return none

def modifyUser (B : Battery) (f : EStateM Fault UserBody α) :
    EStateM Fault Resource (Option α) :=
  modifyBody (UserBody.fromBytes B) UserBody.toBytes f

def modifyGame (f : PlayM α) : EStateM Fault Resource (Option α) :=
  modifyBody GameBody.fromBytes GameBody.toBytes (onGame f)

theorem viewBody_eq_some {fromBytes : List UInt8 → Except String β} {r : Resource} {f : β → α}
    {a : α} : viewBody fromBytes r f = some a ↔ ∃ v, fromBytes r.data = .ok v ∧ f v = a := by
  unfold viewBody
  cases fromBytes r.data <;> simp [Except.toOption]

theorem wp_modifyBody {fromBytes : List UInt8 → Except String β} {toBytes : β → List UInt8}
    {f : EStateM Fault β α} {Q : Option α → Resource → Prop} {E : Fault → Resource → Prop}
    {r : Resource} (hnone : (r.isWritable = true → ∀ v, fromBytes r.data ≠ .ok v) → Q none r)
    (hsome : ∀ v, r.isWritable = true → fromBytes r.data = .ok v →
      wp f (fun a v' => Q (some a) (r.setData (toBytes v')))
        (fun e v' => E e (r.setData (toBytes v'))) v) :
    wp (modifyBody fromBytes toBytes f) Q E r := by
  simp only [modifyBody, wp_bind, wp_get]
  by_cases hw : r.isWritable = true
  · rw [if_pos hw]
    cases hv : fromBytes r.data with
    | error m => exact hnone fun _ v hv' => by rw [hv] at hv'; cases hv'
    | ok v =>
      rw [wp_map]
      exact (wp_zoom_some fun _ => v).mpr (hsome v hw hv)
  · rw [if_neg hw]
    exact hnone fun hw' => absurd hw' hw

end Views

/-- `init_user`. -/
def initUser (balance : UInt64) (initialLockHash : Bytes32) (lock : LockEnum) :
    EStateM Fault Resource Unit := do
  let r ← get
  if !r.isWritable then
    throw (.decode "init_user: resource not declared writable")
  else if r.data ≠ [] then
    throw (.decode "init_user: slot is not empty")
  else
    let r' := r.resize (userTotalLen lock)
    set r'
    let bytes ← liftE (writeUser r'.data balance GameStats.default initialLockHash lock)
    set (r'.setData bytes)

/-- `init_game`. -/
def initGame (creator : ResourceId) (creatorMark : Cell) (stake : UInt64) (roundsTotal : UInt8) :
    EStateM Fault Resource Unit := do
  let r ← get
  if !r.isWritable then
    throw (.decode "init_game: resource not declared writable")
  else if r.data ≠ [] then
    throw (.decode "init_game: slot is not empty")
  else
    let r' := r.resize gameWireLen
    set r'
    let bytes ← liftE (writeGame r'.data creator creatorMark stake roundsTotal)
    set (r'.setData bytes)

/-- `set_user_lock`: the fixed fields are read before the resize. -/
def setUserLock (B : Battery) (newLock : LockEnum) : EStateM Fault Resource Unit := do
  let r ← get
  if !r.isWritable then
    throw (.decode "set_user_lock: resource not declared writable")
  else
    match UserBody.fromBytes B r.data with
    | .error _ => throw (.decode "set_user_lock: not a user resource")
    | .ok view =>
      let r' := r.resize (userHeaderLen + newLock.wireBodyLen)
      set r'
      let bytes ← liftE (writeUser r'.data view.balance view.stats view.initialLockHash newLock)
      set (r'.setData bytes)

/-- `set_config_lock`: the fixed fields are read before the resize. -/
def setConfigLock (B : Battery) (newLock : LockEnum) : EStateM Fault Resource Unit := do
  let r ← get
  if !r.isWritable then
    throw (.decode "set_config_lock: resource not declared writable")
  else
    match ConfigBody.fromBytes B r.data with
    | .error _ => throw (.decode "set_config_lock: not a config resource")
    | .ok view =>
      let r' := r.resize (configHeaderLen + newLock.wireBodyLen)
      set r'
      let bytes ← liftE
        (writeConfig r'.data view.minWithdrawalAmount view.turnTtl view.covenantId newLock)
      set (r'.setData bytes)

section Rules

variable {Q : Unit → Resource → Prop} {E : Fault → Resource → Prop} {r : Resource}

@[simp] theorem Resource.setData_resize (r : Resource) (n : Nat) (d : List UInt8) :
    (r.resize n).setData d = r.setData d := rfl

theorem wp_initUser {balance : UInt64} {ilh : Bytes32} {lock : LockEnum}
    (hro : r.isWritable = false → E (.decode "init_user: resource not declared writable") r)
    (hfull : r.data ≠ [] → E (.decode "init_user: slot is not empty") r)
    (hok : r.isWritable = true → r.data = [] →
      Q () (r.setData (UserBody.withLock balance GameStats.default ilh lock).toBytes)) :
    wp (initUser balance ilh lock) Q E r := by
  simp only [initUser, wp_bind, wp_get]
  cases hw : r.isWritable with
  | false => exact hro hw
  | true =>
    by_cases hd : r.data = []
    · simp only [hd, Bool.not_true, Bool.false_eq_true, if_false, ne_eq, not_true_eq_false,
        wp_bind, wp_set, writeUser_ok _ _ _ (Resource.length_resize r _), wp_liftE_ok]
      exact hok hw hd
    · simp only [Bool.not_true, Bool.false_eq_true, if_false, ne_eq, hd, not_false_eq_true,
        if_true, wp_throw]
      exact hfull hd

theorem wp_initGame {creator : ResourceId} {mark : Cell} {stake : UInt64} {rounds : UInt8}
    (hmark : mark ≠ .empty)
    (hro : r.isWritable = false → E (.decode "init_game: resource not declared writable") r)
    (hfull : r.data ≠ [] → E (.decode "init_game: slot is not empty") r)
    (hok : r.isWritable = true → r.data = [] →
      Q () (r.setData (GameBody.fresh creator mark stake rounds).toBytes)) :
    wp (initGame creator mark stake rounds) Q E r := by
  simp only [initGame, wp_bind, wp_get]
  cases hw : r.isWritable with
  | false => exact hro hw
  | true =>
    by_cases hd : r.data = []
    · simp only [hd, Bool.not_true, Bool.false_eq_true, if_false, ne_eq, not_true_eq_false,
        wp_bind, wp_set, writeGame_ok _ _ _ (Resource.length_resize r _) hmark, wp_liftE_ok]
      exact hok hw hd
    · simp only [Bool.not_true, Bool.false_eq_true, if_false, ne_eq, hd, not_false_eq_true,
        if_true, wp_throw]
      exact hfull hd

theorem wp_setUserLock {B : Battery} {lock : LockEnum}
    (hro : r.isWritable = false → E (.decode "set_user_lock: resource not declared writable") r)
    (hbad : E (.decode "set_user_lock: not a user resource") r)
    (hok : ∀ u, r.isWritable = true → UserBody.fromBytes B r.data = .ok u →
      Q () (r.setData (UserBody.withLock u.balance u.stats u.initialLockHash lock).toBytes)) :
    wp (setUserLock B lock) Q E r := by
  simp only [setUserLock, wp_bind, wp_get]
  cases hw : r.isWritable with
  | false => exact hro hw
  | true =>
    cases hu : UserBody.fromBytes B r.data with
    | error m => exact hbad
    | ok u =>
      have hlen : (r.resize (userHeaderLen + lock.wireBodyLen)).data.length = userTotalLen lock :=
        Resource.length_resize r _
      simp only [Bool.not_true, Bool.false_eq_true, if_false, wp_bind, wp_set,
        writeUser_ok _ _ _ hlen, wp_liftE_ok]
      exact hok u hw hu

end Rules

end TicTacToe
