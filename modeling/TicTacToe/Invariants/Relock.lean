/-
TicTacToe.Invariants.Relock — wire locks and stored locks are one
language, and storing a new lock keeps the rest of a payload.

`decodeLock_exact_iff` is the agreement of the wire decoder with the pair
of the validator and the unchecked decoder. The three writers of a lock
(`set_user_lock`, `set_config_lock` and the config rewrite) then leave a
payload that parses, for a new lock of any variant and size
(`locks_agree`).

No `sorry`, no `axiom`, no `native_decide`.
-/
import TicTacToe.Ledger.Handlers

namespace TicTacToe

open Lib

section Language

variable {B : Battery} {tag : UInt8} {body : List UInt8} {l : LockEnum}

/-- What decodes is a lock that can be stored, under its own tag and body. -/
theorem decodeLockBody_ok {x : Except Fault LockEnum} :
    decodeLockBody B tag body = .ok x ↔
      ∃ l : LockEnum, x = .ok l ∧ l.WellFormed B ∧ tag = l.tag ∧ body = l.body := by
  unfold decodeLockBody
  constructor
  · intro h
    cases hval : validateLockBody B tag body with
    | error m =>
      rw [hval] at h
      cases h
    | ok _ =>
      rw [hval] at h
      obtain ⟨l, hwf, rfl, rfl⟩ := validateLockBody_ok.mp hval
      rw [decodeLockBodyUnchecked_body] at h
      exact ⟨l, (Except.ok.inj h).symm, hwf, rfl, rfl⟩
  · intro h
    obtain ⟨l, rfl, hwf, rfl, rfl⟩ := h
    rw [validateLockBody_ok.mpr ⟨l, hwf, rfl, rfl⟩, decodeLockBodyUnchecked_body]

/-- The wire decoder takes all of `tag || body` exactly when the stored pair
decodes, and to the same lock. -/
theorem decodeLock_exact_iff :
    decodeLock B (tag :: body) = .ok l [] ↔ decodeLockBody B tag body = .ok (.ok l) := by
  have hwire := readsOnly_decodeLock B (tag :: body) l []
  rw [hwire, decodeLockBody_ok, List.append_nil, LockEnum.encode, List.cons.injEq]
  constructor
  · intro h
    obtain ⟨hwf, htag, hbody⟩ := h
    exact ⟨l, rfl, hwf, htag, hbody⟩
  · intro h
    obtain ⟨l', hl, hwf, htag, hbody⟩ := h
    cases hl
    exact ⟨hwf, htag, hbody⟩

end Language

section Rewrites

variable {B : Battery} {l : LockEnum} {r : Resource}

/-- A lock rotation keeps the balance, the counters and the birth lock hash. -/
theorem setUserLock_keeps {u : UserBody} (hwf : l.WellFormed B) (hw : r.isWritable = true)
    (hu : UserBody.fromBytes B r.data = .ok u) :
    ∃ r' u', setUserLock B l r = .ok () r' ∧ UserBody.fromBytes B r'.data = .ok u' ∧
      u'.lock = .ok l ∧ u'.lockTag :: u'.lockBody = l.encode ∧ u'.balance = u.balance ∧
      u'.stats = u.stats ∧ u'.initialLockHash = u.initialLockHash := by
  have hwp : wp (setUserLock B l)
      (fun _ r' =>
        r' = r.setData (UserBody.withLock u.balance u.stats u.initialLockHash l).toBytes)
      (fun _ _ => False) r := by
    have hlen : (r.resize (userHeaderLen + l.wireBodyLen)).data.length = userTotalLen l :=
      Resource.length_resize r _
    simp only [setUserLock, wp_bind, wp_get, hw, hu, Bool.not_true, Bool.false_eq_true, if_false,
      wp_set, writeUser_ok _ _ _ hlen, wp_liftE_ok, Resource.setData_resize]
  obtain ⟨_, r', hrun, rfl⟩ := wp_total hwp
  exact ⟨_, _, hrun, UserBody.fromBytes_withLock _ _ _ hwf, decodeLockBodyUnchecked_body l, rfl,
    rfl, rfl, rfl⟩

/-- A config keeps its header. -/
theorem setConfigLock_keeps {c : ConfigBody} (hwf : l.WellFormed B) (hw : r.isWritable = true)
    (hc : ConfigBody.fromBytes B r.data = .ok c) :
    ∃ r' c', setConfigLock B l r = .ok () r' ∧ ConfigBody.fromBytes B r'.data = .ok c' ∧
      c'.lock = .ok l ∧ c'.lockTag :: c'.lockBody = l.encode ∧
      c'.minWithdrawalAmount = c.minWithdrawalAmount ∧ c'.turnTtl = c.turnTtl ∧
      c'.covenantId = c.covenantId := by
  have hwp : wp (setConfigLock B l)
      (fun _ r' => r' = r.setData
        (ConfigBody.withLock c.minWithdrawalAmount c.turnTtl c.covenantId l).toBytes)
      (fun _ _ => False) r := by
    have hlen : (r.resize (configHeaderLen + l.wireBodyLen)).data.length = configTotalLen l :=
      Resource.length_resize r _
    simp only [setConfigLock, wp_bind, wp_get, hw, hc, Bool.not_true, Bool.false_eq_true, if_false,
      wp_set, writeConfig_ok _ _ _ hlen, wp_liftE_ok, Resource.setData_resize]
  obtain ⟨_, r', hrun, rfl⟩ := wp_total hwp
  exact ⟨_, _, hrun, ConfigBody.fromBytes_withLock _ _ _ hwf, decodeLockBodyUnchecked_body l, rfl,
    rfl, rfl, rfl⟩

/-- The rewrite behind `apply_update` stores the header it is given. -/
theorem writeNewState_stores (hwf : l.WellFormed B) (min ttl : UInt64) (cov : Bytes32)
    (r : Resource) :
    ∃ r' c', writeNewState min ttl cov l r = .ok () r' ∧
      ConfigBody.fromBytes B r'.data = .ok c' ∧ c'.lock = .ok l ∧
      c'.lockTag :: c'.lockBody = l.encode ∧ c'.minWithdrawalAmount = min ∧ c'.turnTtl = ttl ∧
      c'.covenantId = cov := by
  have hwp : wp (writeNewState min ttl cov l)
      (fun _ r' => r' = r.setData (ConfigBody.withLock min ttl cov l).toBytes)
      (fun _ _ => False) r := wp_writeNewState rfl
  obtain ⟨_, r', hrun, rfl⟩ := wp_total hwp
  exact ⟨_, _, hrun, ConfigBody.fromBytes_withLock _ _ _ hwf, decodeLockBodyUnchecked_body l, rfl,
    rfl, rfl, rfl⟩

end Rewrites

/-- **One language of locks.** The wire decoder takes exactly `tag || body` if
and only if the stored pair decodes, both give the same lock, and that lock
is written back as these bytes. Storing a lock read off the wire, whatever
the size of the one before, leaves a payload that parses, holds that lock
and is otherwise unchanged. -/
theorem locks_agree (B : Battery) :
    (∀ (tag : UInt8) (body : List UInt8),
      ((∃ l, decodeLock B (tag :: body) = .ok l []) ↔
        ∃ x, decodeLockBody B tag body = .ok x) ∧
      ∀ l, (decodeLock B (tag :: body) = .ok l [] ↔ decodeLockBody B tag body = .ok (.ok l)) ∧
        (decodeLockBody B tag body = .ok (.ok l) → l.encode = tag :: body ∧
          l.wireBodyLen = body.length ∧ l.writeBody body.length = .ok body)) ∧
    ∀ (buf rest : List UInt8) (l : LockEnum), decodeLock B buf = .ok l rest →
      (∀ r u, r.isWritable = true → UserBody.fromBytes B r.data = .ok u →
        ∃ r' u', setUserLock B l r = .ok () r' ∧ UserBody.fromBytes B r'.data = .ok u' ∧
          u'.lock = .ok l ∧ u'.lockTag :: u'.lockBody = l.encode ∧ u'.balance = u.balance ∧
          u'.stats = u.stats ∧ u'.initialLockHash = u.initialLockHash) ∧
      (∀ r c, r.isWritable = true → ConfigBody.fromBytes B r.data = .ok c →
        ∃ r' c', setConfigLock B l r = .ok () r' ∧ ConfigBody.fromBytes B r'.data = .ok c' ∧
          c'.lock = .ok l ∧ c'.lockTag :: c'.lockBody = l.encode ∧
          c'.minWithdrawalAmount = c.minWithdrawalAmount ∧ c'.turnTtl = c.turnTtl ∧
          c'.covenantId = c.covenantId) ∧
      ∀ r min ttl cov, ∃ r' c', writeNewState min ttl cov l r = .ok () r' ∧
        ConfigBody.fromBytes B r'.data = .ok c' ∧ c'.lock = .ok l ∧
        c'.lockTag :: c'.lockBody = l.encode ∧ c'.minWithdrawalAmount = min ∧
        c'.turnTtl = ttl ∧ c'.covenantId = cov := by
  constructor
  · intro tag body
    refine ⟨⟨?_, ?_⟩, fun l => ⟨decodeLock_exact_iff, fun h => ?_⟩⟩
    · intro h
      obtain ⟨l, hl⟩ := h
      exact ⟨_, decodeLock_exact_iff.mp hl⟩
    · intro h
      obtain ⟨x, hx⟩ := h
      obtain ⟨l, rfl, -⟩ := decodeLockBody_ok.mp hx
      exact ⟨l, decodeLock_exact_iff.mpr hx⟩
    · obtain ⟨l', hl, -, rfl, rfl⟩ := decodeLockBody_ok.mp h
      cases hl
      refine ⟨rfl, (LockEnum.length_body l).symm, ?_⟩
      rw [LockEnum.length_body]
      exact LockEnum.writeBody_wireBodyLen l
  · intro buf rest l hl
    obtain ⟨hwf, -⟩ := (readsOnly_decodeLock B buf l rest).mp hl
    exact ⟨fun r u hw hu => setUserLock_keeps hwf hw hu,
      fun r c hw hc => setConfigLock_keeps hwf hw hc,
      fun r min ttl cov => writeNewState_stores hwf min ttl cov r⟩

namespace Sample

/-- Multisig bodies are well formed. -/
def anyMultisig : Battery := { Battery.plain with multisigValid := fun _ _ _ => true }

def firstKey : Bytes32 := padTo 32 [0xa1]

def bothKeys : List UInt8 := firstKey.val ++ (padTo 32 [0xa2]).val

/-- Both of two keys. -/
def pairLock : LockEnum := .multisig 2 bothKeys

/-- An account and a config under the lock of one key. -/
def account : UserBody := .withLock 700 ⟨3, 1, 2⟩ (padTo 32 [0x1a]) (.schnorr firstKey)

def settings : ConfigBody := .withLock 1000 10 (padTo 32 [0xcc]) (.schnorr firstKey)

def stored (data : List UInt8) : Resource := ⟨padTo 32 [0x55], .write, data⟩

theorem decodeLock_pair : decodeLock anyMultisig (2 :: 2 :: 2 :: bothKeys) = .ok pairLock [] := by
  rfl

end Sample

/-- A live account and a live config go from the 32 bytes of one key to the 66
of two. -/
theorem locks_agree_pair :
    decodeLockBody Sample.anyMultisig 2 (2 :: 2 :: Sample.bothKeys) = .ok (.ok Sample.pairLock) ∧
      (∃ r' u', setUserLock Sample.anyMultisig Sample.pairLock
          (Sample.stored Sample.account.toBytes) = .ok () r' ∧
        UserBody.fromBytes Sample.anyMultisig r'.data = .ok u' ∧ u'.lock = .ok Sample.pairLock ∧
        u'.lockTag :: u'.lockBody = Sample.pairLock.encode ∧ u'.balance = 700 ∧
        u'.stats = ⟨3, 1, 2⟩ ∧ u'.initialLockHash = padTo 32 [0x1a]) ∧
      (∃ r' c', setConfigLock Sample.anyMultisig Sample.pairLock
          (Sample.stored Sample.settings.toBytes) = .ok () r' ∧
        ConfigBody.fromBytes Sample.anyMultisig r'.data = .ok c' ∧ c'.lock = .ok Sample.pairLock ∧
        c'.lockTag :: c'.lockBody = Sample.pairLock.encode ∧ c'.minWithdrawalAmount = 1000 ∧
        c'.turnTtl = 10 ∧ c'.covenantId = padTo 32 [0xcc]) ∧
      ∃ r' c', writeNewState 5 20 (padTo 32 [0xcc]) Sample.pairLock
          (Sample.stored Sample.settings.toBytes) = .ok () r' ∧
        ConfigBody.fromBytes Sample.anyMultisig r'.data = .ok c' ∧ c'.lock = .ok Sample.pairLock ∧
        c'.lockTag :: c'.lockBody = Sample.pairLock.encode ∧ c'.minWithdrawalAmount = 5 ∧
        c'.turnTtl = 20 ∧ c'.covenantId = padTo 32 [0xcc] := by
  obtain ⟨hlanguage, hrewrites⟩ := locks_agree Sample.anyMultisig
  obtain ⟨huser, hconfig, hnew⟩ :=
    hrewrites (2 :: 2 :: 2 :: Sample.bothKeys) [] Sample.pairLock Sample.decodeLock_pair
  have hbody := ((hlanguage 2 (2 :: 2 :: Sample.bothKeys)).2 Sample.pairLock).1.mp
    Sample.decodeLock_pair
  have hparsed := UserBody.fromBytes_withLock (B := Sample.anyMultisig) 700 ⟨3, 1, 2⟩
    (padTo 32 [0x1a]) (LockEnum.wellFormed_schnorr _ Sample.firstKey)
  have hheader := ConfigBody.fromBytes_withLock (B := Sample.anyMultisig) 1000 10
    (padTo 32 [0xcc]) (LockEnum.wellFormed_schnorr _ Sample.firstKey)
  exact ⟨hbody, huser (Sample.stored Sample.account.toBytes) Sample.account rfl hparsed,
    hconfig (Sample.stored Sample.settings.toBytes) Sample.settings rfl hheader, hnew _ 5 20 _⟩

end TicTacToe
