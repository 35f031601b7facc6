/-
TicTacToe.Invariants.Entry — a deposit and what it pays for, in one
transaction.

The account may not be there yet. Its signer then names a lock nobody has
stored: it stays pending through the deposit, which creates the account,
and resolves before the action that spends. `Credited.run` is that either
way the action is applied to an account that holds the sum and is signed
for; `Signed.createGame` and `Signed.joinGame` that it is accepted there.

No `sorry`, no `axiom`, no `native_decide`.
-/
import TicTacToe.Invariants.Abandoned
import TicTacToe.Invariants.Atomic

namespace TicTacToe

open Lib
open Function (update)

/-! ## Actions that go through -/

section Succeeds

variable {B : Battery} {cx : ApplyContext} {r q rc : Resource} {u : UserBody} {g : GameBody}
  {c : ConfigBody} {i gi ci : UInt8} {stake : UInt64}

/-- `x` is not refused. -/
def Succeeds (x : Guest Unit) (cx : ApplyContext) : Prop :=
  wp x (fun _ _ => True) (fun _ _ => False) cx

theorem checkedAdd_none {a b : UInt64} (h : checkedAdd a b = none) :
    ¬ a.toNat + b.toNat < 2 ^ 64 := by
  intro hlt
  rw [checkedAdd, if_pos hlt] at h
  cases h

theorem succeeds_createGame {rounds : UInt8} {mark : Cell} (hc : cx.Coherent)
    (hpay : CanPay B cx i stake r u) (hcount : u.gamesStarted.toNat + 1 < 2 ^ 64)
    (hq : cx.resources[gi.toNat]? = some q) (hw : q.isWritable = true) (hempty : q.data = [])
    (hid : q.id = deriveGameResource B u.initialLockHash u.gamesStarted) (hrounds : rounds ≠ 0)
    (hmark : mark ≠ .empty) : Succeeds (applyCreateGame B i gi stake rounds mark) cx := by
  have hnew := Lifecycle.fromResource_new.mpr hempty
  unfold Succeeds applyCreateGame
  simp only [hrounds, if_false, wp_bind, wp_lifecycleAt (hc.lifecycle_at hq), hnew, ne_eq,
    not_true_eq_false]
  refine wp_requireUserLock hpay.resource (fun hno => absurd hpay.opens (hno u hpay.parses))
    fun u' hu' _ => ?_
  obtain rfl := Except.ok.inj (hpay.parses.symm.trans hu')
  simp only [wp_resourceAt hq, hid, not_true_eq_false, if_false, wp_bind]
  refine wp_modifyUserAt hpay.resource (fun hno => hno hpay.writable u hpay.parses)
    fun u' _ hu' => ?_
  obtain rfl := Except.ok.inj (hpay.parses.symm.trans hu')
  rw [debitCreator, wp_bind]
  refine wp_debitBalance (fun hle => hle hpay.funded) fun b _ => ?_
  simp only [wp_bind, wp_get, wp_okOr, wp_set]
  refine ⟨fun n _ => ?_, fun hnone => checkedAdd_none hnone (by simpa using hcount)⟩
  -- the creator's slot holds data, the game's does not
  have hne : i.toNat ≠ gi.toNat := by
    intro e
    have hr := hpay.resource
    rw [e, hq] at hr
    cases hr
    exact data_ne_nil_of_user hpay.parses hempty
  have hlife : cx.lifecycle[gi.toNat]? = some .new := (hc.lifecycle_at hq).trans (by rw [hnew])
  refine (wp_markCreated (by exact hlife)).mpr ?_
  refine (wp_resourceAt (by exact ApplyContext.setResource_self hpay.resource)).mpr ?_
  refine (wp_onResource (by exact (ApplyContext.setResource_ne hne).trans hq)).mpr ?_
  exact wp_initGame hmark (fun hro => by rw [hw] at hro; cases hro) (fun hd => hd hempty)
    fun _ _ => trivial

theorem succeeds_joinGame (hpay : CanPay B cx i g.stake r u)
    (hq : cx.resources[gi.toNat]? = some q) (hw : q.isWritable = true)
    (hg : GameBody.fromBytes q.data = .ok g) (hopen : g.state = .open) (hself : r.id ≠ g.creator) :
    Succeeds (applyJoinGame B gi i) cx := by
  unfold Succeeds applyJoinGame
  simp only [wp_bind]
  refine wp_requireUserLock hpay.resource (fun hno => absurd hpay.opens (hno u hpay.parses))
    fun u' hu' _ => ?_
  simp only [wp_resourceAt hq, wp_okOr]
  refine ⟨?_, fun hnone => ?_⟩
  swap
  · rw [viewGame, viewBody, hg] at hnone
    cases hnone
  rintro ⟨state, creator, stake⟩ hview
  obtain ⟨g', hg', e⟩ := viewBody_eq_some.mp hview
  obtain rfl := Except.ok.inj (hg.symm.trans hg')
  obtain ⟨rfl, e'⟩ := Prod.mk.inj e
  obtain ⟨rfl, rfl⟩ := Prod.mk.inj e'
  simp only [hopen, ne_eq, not_true_eq_false, if_false, wp_bind, wp_resourceAt hpay.resource, hself]
  refine wp_modifyUserAt hpay.resource (fun hno => hno hpay.writable u hpay.parses)
    fun u' _ hu' => ?_
  obtain rfl := Except.ok.inj (hpay.parses.symm.trans hu')
  refine wp_debitBalance (fun hle => hle hpay.funded) fun b _ => ?_
  -- a user is not a game
  have hne : i.toNat ≠ gi.toNat := by
    intro e
    have hr := hpay.resource
    rw [e, hq] at hr
    cases hr
    have hslot := Slot.parse_eq_user.mpr hpay.parses
    rw [Slot.parse_eq_game.mpr hg] at hslot
    cases hslot
  rw [wp_get]
  refine wp_modifyGameAt ((ApplyContext.setResource_ne hne).trans hq)
    (fun hno => hno hw g hg) fun g' _ hg' => ?_
  rw [wp_modify]
  trivial

theorem succeeds_deposit {oi : UInt32} {lock : LockEnum} {out : Output} (hc : cx.Coherent)
    (hfresh : oi ∉ cx.consumedOutputs) (hrc : cx.resources[ci.toNat]? = some rc)
    (hconfig : ConfigBody.fromBytes B rc.data = .ok c)
    (hout : B.parseOutputAtIndexV1 cx.tx.restPreimage oi = some out) (hver : out.spkVersion = 0)
    (hspk : out.spk = p2shScript (B.delegateEntrySpkHash c.covenantId))
    (hsink : ∃ sink, B.depositSet cx.deposit (B.delegateEntrySpkHash c.covenantId) = .ok sink)
    (hr : cx.resources[i.toNat]? = some r) (hw : r.isWritable = true)
    (hcredit : Creditable B (covenantDepositPolicy B) ⟨i, some lock⟩ lock out.value r
      (Lifecycle.fromResource r)) :
    Succeeds (applyDeposit B (covenantDepositPolicy B) i ci oi lock) cx := by
  obtain ⟨sink, hsink⟩ := hsink
  unfold Succeeds applyDeposit
  simp only [wp_bind, wp_get, hfresh, if_false]
  refine wp_viewConfigAt hrc (fun hno => absurd hconfig (hno c)) fun c' hc' => ?_
  obtain rfl := Except.ok.inj (hconfig.symm.trans hc')
  have hpays : ¬ (out.spkVersion ≠ 0 ∨ out.spk ≠ (covenantDepositPolicy B).depositSpk ⟨i, oi, lock⟩
      c.covenantId) := by
    rw [hver, hspk]
    simp [covenantDepositPolicy]
  have htarget : (covenantDepositPolicy B).creditTarget ⟨i, oi, lock⟩ = .ok ⟨i, some lock⟩ := rfl
  have hrange : ¬ i.toNat ≥ cx.resources.length :=
    Nat.not_le.mpr (List.getElem?_eq_some_iff.mp hr).1
  simp only [hout, wp_okOr_some, hpays, if_false, wp_bind, htarget, Except.mapError, wp_liftE_ok,
    hrange]
  unfold depositCreditKind
  simp only [wp_bind, wp_lifecycleAt (hc.lifecycle_at hr)]
  cases hl : Lifecycle.fromResource r with
  | deleted => exact absurd hl Lifecycle.fromResource_ne_deleted
  | new =>
    rw [hl] at hcredit
    obtain ⟨-, hid, hmin⟩ := hcredit
    simp only [wp_bind, wp_resourceAt hr]
    refine wp_validateUserCreate (fun hno => absurd ⟨hid, hmin⟩ hno) fun _ _ => ?_
    simp only [wp_pure, hsink, wp_liftE_ok, wp_modify, depositCredit, wp_bind]
    refine (wp_markCreated ?_).mpr ?_
    · exact (hc.lifecycle_at hr).trans (by rw [hl])
    · refine (wp_onResource (by exact hr)).mpr ?_
      exact wp_initUser (fun hro => by rw [hw] at hro; cases hro)
        (fun hd => hd (Lifecycle.fromResource_new.mp hl)) fun _ _ => trivial
  | live =>
    rw [hl] at hcredit
    obtain ⟨w, hu, hilh, hlt⟩ := hcredit
    have hview : viewUser B r (fun v => (v.balance, v.initialLockHash))
        = some (w.balance, w.initialLockHash) := by
      rw [viewUser, viewBody, hu]
      rfl
    simp only [wp_bind, wp_resourceAt hr, hview, wp_okOr_some]
    rw [if_neg (not_not.mpr hilh), wp_bind, wp_okOr]
    refine ⟨fun b _ => ?_, fun hnone => checkedAdd_none hnone hlt⟩
    simp only [wp_pure, hsink, wp_liftE_ok, wp_modify, depositCredit]
    refine wp_modifyUserAt (by exact hr) (fun hno => hno hw w hu) fun _ _ _ => ?_
    rw [wp_modify]
    trivial

end Succeeds

/-! ## A signer that waits -/

/-- The auth context of one schnorr key. -/
def AuthContext.signed (i : UInt8) (pk : Bytes32) : AuthContext := ⟨[(i, pk)], []⟩

section Signers

variable {B : Battery} {P : DepositPolicy} {presig : List UInt8} {cx cx' : ApplyContext}
  {i : UInt8} {off : UInt32} {pk : Bytes32} {r : Resource} {u : UserBody} {a : ActionBody}

theorem sortUnstable_nil {α : Type} : (B.sortUnstable ([] : List (UInt8 × α))).val = [] :=
  List.perm_nil.mp (B.sortUnstable []).property.1

theorem sortUnstable_singleton {α : Type} (x : UInt8 × α) : (B.sortUnstable [x]).val = [x] :=
  List.perm_singleton.mp (B.sortUnstable [x]).property.1

theorem lockBearing_empty (hr : cx.resources[i.toNat]? = some r) (hempty : r.data = []) :
    lockBearing cx.resources i = false := by
  simp only [lockBearing, hr, hempty, List.head?_nil, Option.bind_none]

theorem kind_of_user (hu : UserBody.fromBytes B r.data = .ok u) :
    r.data.head?.bind Kind.tryFrom = some .user := by
  rw [(UserBody.fromBytes_ok.mp hu).1]
  rfl

theorem lockBearing_user (hr : cx.resources[i.toNat]? = some r)
    (hu : UserBody.fromBytes B r.data = .ok u) : lockBearing cx.resources i = true := by
  simp only [lockBearing, hr, kind_of_user hu]

/-- While there is no lock to read, the signer stays pending. -/
theorem resolveSigners_waiting (hauth : cx.authCtx = .default)
    (hbare : lockBearing cx.resources i = false) :
    resolveSigners B presig ⟨cx, [(i, .schnorrSigPtr off)]⟩
      = .ok () ⟨cx, [(i, .schnorrSigPtr off)]⟩ := by
  have hpend : resolvePending B [(i, .schnorrSigPtr off)] cx.authCtx (signerContext presig cx)
      cx.resources = .ok ([(i, .schnorrSigPtr off)], cx.authCtx) := by
    simp only [resolvePending, resolveEach, SignerEnum.gated, hbare, Bool.not_false, Bool.and_self,
      if_true, hauth, AuthContext.default, sortUnstable_nil]
  exact ok_bind.mpr ⟨_, _, rfl, ok_bind.mpr ⟨_, _, by rw [hpend]; rfl, rfl⟩⟩

/-- Once the lock is stored, the signer resolves to its key. -/
theorem resolveSigners_signed (hauth : cx.authCtx = .default)
    (hr : cx.resources[i.toNat]? = some r) (hu : UserBody.fromBytes B r.data = .ok u)
    (hlock : u.lock = .ok (.schnorr pk))
    (hsig : verifiedKey B pk off (signerContext presig cx) "signer.schnorr: invalid signature"
      = .ok pk) :
    resolveSigners B presig ⟨cx, [(i, .schnorrSigPtr off)]⟩
      = .ok () ⟨{ cx with authCtx := .signed i pk }, []⟩ := by
  have hkey : readSchnorrLockPubkey B i (signerContext presig cx) = .ok pk := by
    have hat : (signerContext presig cx).resources[i.toNat]? = some r := hr
    simp only [readSchnorrLockPubkey, readLock, hat, kind_of_user hu, hu, hlock]
  have hresolve : (SignerEnum.schnorrSigPtr off).resolve B i (signerContext presig cx)
      = .ok (.schnorr pk) := by
    simp only [SignerEnum.resolve, resolveSchnorrSigPtr, hkey, hsig, Except.map]
  have hpend : resolvePending B [(i, .schnorrSigPtr off)] cx.authCtx (signerContext presig cx)
      cx.resources = .ok ([], .signed i pk) := by
    simp only [resolvePending, resolveEach, lockBearing_user hr hu, Bool.not_true, Bool.and_false,
      Bool.false_eq_true, if_false, resolveOne, hresolve, hauth, AuthContext.default,
      List.nil_append, sortUnstable_nil, sortUnstable_singleton, AuthContext.signed]
  exact ok_bind.mpr ⟨_, _, rfl, ok_bind.mpr ⟨_, _, by rw [hpend]; rfl, rfl⟩⟩

theorem runAction_of {s : RunState} {pending : List SignerEntry}
    (hretry : retrySigners B presig s = .ok () ⟨cx, pending⟩)
    (happly : applyAction B P a cx = .ok () cx') :
    runAction B P presig a s = .ok () ⟨cx', pending⟩ :=
  ok_bind.mpr ⟨(), _, hretry, by simp only [zoom, happly]⟩

/-- Signers resolve first, and change nothing else. -/
theorem runAction_applies {s s' : RunState} (h : runAction B P presig a s = .ok () s') :
    ∃ cx, (∃ authCtx, cx = { s.cx with authCtx }) ∧ applyAction B P a cx = .ok () s'.cx := by
  obtain ⟨_, s₁, hretry, hzoom⟩ := ok_bind.mp h
  refine ⟨s₁.cx, wp_retrySigners.ok hretry, ?_⟩
  unfold zoom at hzoom
  dsimp only at hzoom
  cases happly : applyAction B P a s₁.cx with
  | error e cx' =>
    rw [happly] at hzoom
    cases hzoom
  | ok x cx' =>
    rw [happly] at hzoom
    cases hzoom
    rfl

end Signers

/-! ## A deposit before -/

/-- What a deposit of `value` under the lock of `pk` makes of the account `uid`. -/
inductive Credited (B : Battery) (L : Ledger) (uid : ResourceId) (pk : Bytes32) (value : UInt64) :
    UserBody → Prop
  | newborn : L uid = .empty →
      uid = deriveUserResource B ((LockEnum.schnorr pk).idHash B) → ¬ value < minCreateBalance →
      Credited B L uid pk value
        (.withLock value .default ((LockEnum.schnorr pk).idHash B) (.schnorr pk))
  | live {u : UserBody} {b : UInt64} : L uid = .user u → u.lock = .ok (.schnorr pk) →
      u.initialLockHash = (LockEnum.schnorr pk).idHash B →
      b.toNat = u.balance.toNat + value.toNat → Credited B L uid pk value { u with balance := b }

/-- The output and the sink a deposit of `value` draws on. -/
structure Bridged (B : Battery) (R : Rollup) (sub : Submission) (ci : UInt8) (value : UInt64) :
    Prop where
  output : ∃ cid mode c out, sub.access[ci.toNat]? = some (cid, mode) ∧
    ConfigBody.fromBytes B (R.store cid) = .ok c ∧
    B.parseOutputAtIndexV1 sub.tx.restPreimage 0 = some out ∧ out.value = value ∧
    out.spkVersion = 0 ∧ out.spk = p2shScript (B.delegateEntrySpkHash c.covenantId) ∧
    ∃ sink, B.depositSet sub.deposit (B.delegateEntrySpkHash c.covenantId) = .ok sink

/-- The account `uid` at `i` holds `u` and is signed for with `pk`; everything
else is as `R` has it. -/
structure Signed (B : Battery) (R : Rollup) (sub : Submission) (uid : ResourceId) (i : UInt8)
    (pk : Bytes32) (u : UserBody) (cx : ApplyContext) : Prop where
  coherent : cx.Coherent
  keys : cx.resources.map (fun r => (r.id, r.accessType)) = sub.access
  context : cx.context = sub.context
  auth : cx.authCtx = .signed i pk
  ledger : cx.ledger B R.store = update (R.store.ledger B) uid (.user u)

section Funded

variable {B : Battery} {R : Rollup} {sub : Submission} {uid : ResourceId} {i ci : UInt8}
  {pk : Bytes32} {off : UInt32} {value : UInt64} {u : UserBody} {cx : ApplyContext}
  {presig : List UInt8}

/-- An action with the deposit of `value` before it, if there is one. -/
def withDeposit (i ci : UInt8) (value : UInt64) (lock : LockEnum) (a : ActionBody) :
    List ActionBody :=
  if 0 < value then [.deposit i ci 0 lock, a] else [a]

theorem toNat_eq_zero_of_not_pos (h : ¬ 0 < value) : value.toNat = 0 := by
  rw [UInt64.lt_iff_toNat_lt] at h
  exact Nat.le_zero.mp (Nat.not_lt.mp h)

/-- What is attached under an access entry. -/
theorem exists_attached {access : List (ResourceId × AccessType)} {k : UInt8} {id : ResourceId}
    {mode : AccessType} (hkeys : cx.resources.map (fun r => (r.id, r.accessType)) = access)
    (hk : access[k.toNat]? = some (id, mode)) :
    ∃ r, cx.resources[k.toNat]? = some r ∧ r.id = id ∧ r.accessType = mode := by
  rw [← hkeys, List.getElem?_map] at hk
  obtain ⟨r, hr, he⟩ := Option.map_eq_some_iff.mp hk
  obtain ⟨rfl, rfl⟩ := Prod.mk.inj he
  exact ⟨r, hr, rfl, rfl⟩

theorem Credited.parses (h : Credited B (R.store.ledger B) uid pk value u) :
    u.lock = .ok (.schnorr pk) ∧ u.initialLockHash = (LockEnum.schnorr pk).idHash B := by
  cases h with
  | newborn => exact ⟨decodeLockBodyUnchecked_body (.schnorr pk), rfl⟩
  | live _ hlock hilh => exact ⟨hlock, hilh⟩

/-- The deposit goes through before any signer has resolved, or after. -/
theorem Credited.deposit (h : Credited B (R.store.ledger B) uid pk value u)
    (hn : (sub.access.map Prod.fst).Nodup) (hi : sub.access[i.toNat]? = some (uid, .write))
    (hb : Bridged B R sub ci value) (auth : AuthContext) :
    ∃ cx, applyAction B (covenantDepositPolicy B) (.deposit i ci 0 (.schnorr pk))
        { (R.startOf sub []).cx with authCtx := auth } = .ok () cx ∧
      cx.Coherent ∧ cx.resources.map (fun r => (r.id, r.accessType)) = sub.access ∧
      cx.context = sub.context ∧ cx.tx = sub.tx ∧ cx.authCtx = auth ∧
      cx.ledger B R.store = update (R.store.ledger B) uid (.user u) := by
  set cx₀ : ApplyContext := { (R.startOf sub []).cx with authCtx := auth } with hcx₀
  have hstart := Rollup.coherent_start (R := R) hn []
  have hc : cx₀.Coherent := ⟨hstart.nodup, hstart.lifecycle⟩
  have hkeys : cx₀.resources.map (fun r => (r.id, r.accessType)) = sub.access :=
    Rollup.keys_start (R := R) []
  have hledger : cx₀.ledger B R.store = R.store.ledger B := Rollup.ledger_start []
  obtain ⟨cid, mode, c, out, hci, hconfig, hout, rfl, hver, hspk, hsink⟩ := hb.output
  obtain ⟨r, hr, hrid, hracc⟩ := exists_attached hkeys hi
  obtain ⟨rc, hrc, hrcid, -⟩ := exists_attached hkeys hci
  have hat : ∀ {k : UInt8} {q : Resource}, cx₀.resources[k.toNat]? = some q →
      Slot.parse B q.data = R.store.ledger B q.id := by
    intro k q hq
    rw [← hledger, ApplyContext.ledger_apply _ hc hq]
  have hconfig' : ConfigBody.fromBytes B rc.data = .ok c := by
    refine Slot.parse_eq_config.mp ?_
    rw [hat hrc, hrcid]
    exact Slot.parse_eq_config.mpr hconfig
  have hcredit : Creditable B (covenantDepositPolicy B) ⟨i, some (.schnorr pk)⟩ (.schnorr pk)
      out.value r (Lifecycle.fromResource r) := by
    cases h with
    | newborn hempty hid hmin =>
      have hdata : r.data = [] := Slot.parse_eq_empty.mp (by rw [hat hr, hrid]; exact hempty)
      rw [Lifecycle.fromResource_new.mpr hdata]
      exact ⟨rfl, hrid.trans hid, hmin⟩
    | @live u b hu hlock hilh hsum =>
      have hparse : UserBody.fromBytes B r.data = .ok u :=
        Slot.parse_eq_user.mp (by rw [hat hr, hrid]; exact hu)
      rw [Lifecycle.fromResource_live.mpr (data_ne_nil_of_user hparse)]
      have := b.toNat_lt
      exact ⟨u, hparse, hilh, by omega⟩
  have hsucc : Succeeds (applyDeposit B (covenantDepositPolicy B) i ci 0 (.schnorr pk)) cx₀ :=
    succeeds_deposit hc List.not_mem_nil hrc hconfig' hout hver hspk hsink hr
      (by rw [Resource.isWritable, hracc]; rfl) hcredit
  obtain ⟨_, cx, happly, -⟩ := wp_total hsucc
  have hacc := (wp_applyDeposit (P := covenantDepositPolicy B) hc
    (List.getElem?_eq_some_iff.mp hrc).1 (LockEnum.wellFormed_schnorr B pk)).ok happly
  refine ⟨cx, happly, hacc.coherent, hacc.frame.keys.trans hkeys, hacc.frame.context,
    hacc.frame.tx, hacc.frame.authCtx, ?_⟩
  obtain ⟨flow, hstep, -, -⟩ := hacc.step
  have hstep' := hstep R.store
  rw [hledger] at hstep'
  have hidx : cx₀.idAt i = some uid := by rw [ApplyContext.idAt_of hr, hrid]
  generalize cx.ledger B R.store = L' at hstep'
  cases hstep' with
  | depositCreate _ _ _ hout' _ _ htarget hid hempty =>
    cases htarget
    obtain rfl := Option.some.inj (hidx.symm.trans hid)
    obtain rfl := Option.some.inj (hout.symm.trans hout')
    cases h with
    | newborn => rfl
    | live hu =>
      rw [hempty] at hu
      cases hu
  | depositCredit _ _ _ hout' _ _ htarget hid hu' _ hsum' =>
    cases htarget
    obtain rfl := Option.some.inj (hidx.symm.trans hid)
    obtain rfl := Option.some.inj (hout.symm.trans hout')
    cases h with
    | newborn hempty =>
      rw [hempty] at hu'
      cases hu'
    | live hu _ _ hsum =>
      rw [hu] at hu'
      cases hu'
      rw [UInt64.toNat_inj.mp (hsum.trans hsum'.symm)]
  | play hmove => cases hmove
  | finish hmove => cases hmove

theorem runSignersAndActions_of {P : DepositPolicy} {as : List ActionBody} {s₀ s₁ : RunState}
    (hres : resolveSigners B presig s₀ = .ok () s₁)
    (hacts : runActions B P presig as s₁ = .ok () ⟨cx, []⟩) :
    runSignersAndActions B P presig as s₀ = .ok () ⟨cx, []⟩ :=
  ok_bind.mpr ⟨(), _, hres, ok_bind.mpr ⟨(), _, hacts, rfl⟩⟩

/-- The signer of the account resolves before or after the deposit, whichever
finds the lock stored; then the entry is applied. -/
theorem Credited.run (h : Credited B (R.store.ledger B) uid pk value u)
    (hn : (sub.access.map Prod.fst).Nodup) (hi : sub.access[i.toNat]? = some (uid, .write))
    (hb : 0 < value → Bridged B R sub ci value)
    (hsig : ∀ resources, verifiedKey B pk off
      ⟨sub.tx.payload.bytes, sub.tx.restPreimage, presig, resources⟩
      "signer.schnorr: invalid signature" = .ok pk) :
    ∃ cx, Signed B R sub uid i pk u cx ∧
      ∀ a cx', applyAction B (covenantDepositPolicy B) a cx = .ok () cx' →
        runSignersAndActions B (covenantDepositPolicy B) presig
          (withDeposit i ci value (.schnorr pk) a) (R.startOf sub [(i, .schnorrSigPtr off)])
          = .ok () ⟨cx', []⟩ := by
  set cx₀ := (R.startOf sub []).cx with hcx₀
  have hc : cx₀.Coherent := Rollup.coherent_start hn []
  have hkeys : cx₀.resources.map (fun r => (r.id, r.accessType)) = sub.access :=
    Rollup.keys_start (R := R) []
  have hledger : cx₀.ledger B R.store = R.store.ledger B := Rollup.ledger_start []
  obtain ⟨r, hr, hrid, -⟩ := exists_attached hkeys hi
  have hat : Slot.parse B r.data = R.store.ledger B uid := by
    rw [← hledger, ← hrid, ApplyContext.ledger_apply _ hc hr]
  obtain ⟨hlock, -⟩ := h.parses
  have hverified : ∀ cx : ApplyContext, cx.tx = sub.tx → verifiedKey B pk off
      (signerContext presig cx) "signer.schnorr: invalid signature" = .ok pk := by
    intro cx htx
    rw [signerContext, htx]
    exact hsig cx.resources
  have hdeposit := fun (hpos : 0 < value) auth => h.deposit hn hi (hb hpos) auth
  cases h with
  | newborn hempty _ hmin =>
    have hpos : 0 < value := by
      rw [minCreateBalance, UInt64.lt_iff_toNat_lt] at hmin
      rw [UInt64.lt_iff_toNat_lt]
      exact Nat.lt_of_lt_of_le (by decide) (Nat.not_lt.mp hmin)
    have hdata : r.data = [] := Slot.parse_eq_empty.mp (hat.trans hempty)
    obtain ⟨cx₁, happly, hc₁, hkeys₁, hcontext, htx, hauth, hledger₁⟩ := hdeposit hpos .default
    have hwait : resolveSigners B presig ⟨cx₀, [(i, .schnorrSigPtr off)]⟩
        = .ok () ⟨cx₀, [(i, .schnorrSigPtr off)]⟩ :=
      resolveSigners_waiting rfl (lockBearing_empty hr hdata)
    obtain ⟨r₁, hr₁, hrid₁, -⟩ := exists_attached hkeys₁ hi
    have hparse : UserBody.fromBytes B r₁.data = .ok (.withLock value .default
        ((LockEnum.schnorr pk).idHash B) (.schnorr pk)) := by
      refine Slot.parse_eq_user.mp ?_
      rw [← ApplyContext.ledger_apply R.store hc₁ hr₁, hledger₁, hrid₁, Function.update_self]
    have hresolve := resolveSigners_signed hauth hr₁ hparse hlock (hverified cx₁ htx)
    refine ⟨{ cx₁ with authCtx := .signed i pk },
      ⟨⟨hc₁.nodup, hc₁.lifecycle⟩, hkeys₁, hcontext, rfl, hledger₁⟩, fun a cx' ha => ?_⟩
    rw [withDeposit, if_pos hpos]
    refine runSignersAndActions_of hwait ?_
    exact ok_bind.mpr ⟨(), _, runAction_of hwait happly,
      ok_bind.mpr ⟨(), _, runAction_of hresolve ha, rfl⟩⟩
  | @live u b hu hlock hilh hsum =>
    have hparse : UserBody.fromBytes B r.data = .ok u := Slot.parse_eq_user.mp (hat.trans hu)
    have hresolve : resolveSigners B presig ⟨cx₀, [(i, .schnorrSigPtr off)]⟩
        = .ok () ⟨{ cx₀ with authCtx := .signed i pk }, []⟩ :=
      resolveSigners_signed rfl hr hparse hlock (hverified cx₀ rfl)
    by_cases hpos : 0 < value
    · obtain ⟨cx₁, happly, hc₁, hkeys₁, hcontext, -, hauth, hledger₁⟩ :=
        hdeposit hpos (.signed i pk)
      refine ⟨cx₁, ⟨hc₁, hkeys₁, hcontext, hauth, hledger₁⟩, fun a cx' ha => ?_⟩
      rw [withDeposit, if_pos hpos]
      refine runSignersAndActions_of hresolve ?_
      exact ok_bind.mpr ⟨(), _, runAction_of retrySigners_none happly,
        ok_bind.mpr ⟨(), _, runAction_of retrySigners_none ha, rfl⟩⟩
    · have hsame : b = u.balance :=
        UInt64.toNat_inj.mp (by rw [hsum, toNat_eq_zero_of_not_pos hpos, Nat.add_zero])
      refine ⟨{ cx₀ with authCtx := .signed i pk },
        ⟨⟨hc.nodup, hc.lifecycle⟩, hkeys, rfl, rfl, ?_⟩, fun a cx' ha => ?_⟩
      · show cx₀.ledger B R.store = _
        rw [hledger, hsame, ← hu, Function.update_eq_self]
      · rw [withDeposit, if_neg hpos]
        refine runSignersAndActions_of hresolve ?_
        exact ok_bind.mpr ⟨(), _, runAction_of retrySigners_none ha, rfl⟩

end Funded

/-! ## The entry itself -/

section Entries

variable {B : Battery} {R : Rollup} {sub : Submission} {uid gid : ResourceId} {i gi : UInt8}
  {pk : Bytes32} {u : UserBody} {cx : ApplyContext} {stake : UInt64}

theorem Signed.canPay (h : Signed B R sub uid i pk u cx)
    (hopens : B.schnorrTryUnlock pk i [(i, pk)] = true) (hlock : u.lock = .ok (.schnorr pk))
    (hi : sub.access[i.toNat]? = some (uid, .write)) (hfunds : stake.toNat ≤ u.balance.toNat) :
    ∃ r, r.id = uid ∧ CanPay B cx i stake r u := by
  obtain ⟨r, hr, hrid, hracc⟩ := exists_attached h.keys hi
  refine ⟨r, hrid, ⟨hr, ?_, .schnorr pk, hlock, ?_⟩, by rw [Resource.isWritable, hracc]; rfl,
    hfunds⟩
  · refine Slot.parse_eq_user.mp ?_
    rw [← ApplyContext.ledger_apply R.store h.coherent hr, h.ledger, hrid, Function.update_self]
  · rw [LockEnum.unlock, h.auth]
    exact hopens

/-- The game slot is as the rollup has it. -/
theorem Signed.game (h : Signed B R sub uid i pk u cx) (hne : gid ≠ uid)
    (hg : sub.access[gi.toNat]? = some (gid, .write)) :
    ∃ q, cx.resources[gi.toNat]? = some q ∧ q.id = gid ∧ q.isWritable = true ∧
      Slot.parse B q.data = R.store.ledger B gid := by
  obtain ⟨q, hq, hqid, hqacc⟩ := exists_attached h.keys hg
  refine ⟨q, hq, hqid, by rw [Resource.isWritable, hqacc]; rfl, ?_⟩
  rw [← ApplyContext.ledger_apply R.store h.coherent hq, h.ledger, hqid,
    Function.update_of_ne hne]

/-- A game is created out of an account that can pay for it. -/
theorem Signed.createGame (h : Signed B R sub uid i pk u cx)
    (hopens : B.schnorrTryUnlock pk i [(i, pk)] = true) (hlock : u.lock = .ok (.schnorr pk))
    (hi : sub.access[i.toNat]? = some (uid, .write))
    (hg : sub.access[gi.toNat]? = some (gid, .write)) (hne : gid ≠ uid)
    (hempty : R.store.ledger B gid = .empty)
    (hid : gid = deriveGameResource B u.initialLockHash u.gamesStarted)
    (hcount : u.gamesStarted.toNat + 1 < 2 ^ 64) (hfunds : stake.toNat ≤ u.balance.toNat)
    {rounds : UInt8} {mark : Cell} (hrounds : rounds ≠ 0) (hmark : mark ≠ .empty) :
    ∃ cx' u', applyAction B (covenantDepositPolicy B) (.createGame i gi stake rounds mark) cx
        = .ok () cx' ∧ cx'.ledger B R.store uid = .user u' ∧
      u'.balance.toNat + stake.toNat = u.balance.toNat ∧
      u'.gamesStarted.toNat = u.gamesStarted.toNat + 1 ∧
      cx'.ledger B R.store gid = .game (.fresh uid mark stake rounds) := by
  obtain ⟨r, hrid, hpay⟩ := h.canPay hopens hlock hi hfunds
  obtain ⟨q, hq, hqid, hw, hparse⟩ := h.game hne hg
  have hdata : q.data = [] := Slot.parse_eq_empty.mp (hparse.trans hempty)
  have hsucc := succeeds_createGame h.coherent hpay hcount hq hw hdata (hqid.trans hid) hrounds
    hmark
  obtain ⟨_, cx', happly, -⟩ := wp_total hsucc
  have hacc := (wp_applyCreateGame (P := covenantDepositPolicy B) h.coherent
    (List.getElem?_eq_some_iff.mp hpay.resource).1 (List.getElem?_eq_some_iff.mp hq).1 hmark).ok
      happly
  obtain ⟨flow, hstep, -, -⟩ := hacc.step
  have hstep' := hstep R.store
  rw [h.ledger] at hstep'
  have hidx : cx.idAt i = some uid := by rw [ApplyContext.idAt_of hpay.resource, hrid]
  have hgidx : cx.idAt gi = some gid := by rw [ApplyContext.idAt_of hq, hqid]
  generalize hL : cx'.ledger B R.store = L' at hstep'
  refine ⟨cx', ?_⟩
  cases hstep' with
  | createGame hci hu _ hb hn hgi _ _ _ _ =>
    obtain rfl := Option.some.inj (hidx.symm.trans hci)
    obtain rfl := Option.some.inj (hgidx.symm.trans hgi)
    rw [Function.update_self] at hu
    cases hu
    refine ⟨{ u with balance := _, gamesStarted := _ }, happly, ?_, hb, hn, ?_⟩
    · rw [hL, Function.update_of_ne hne.symm, Function.update_self]
    · rw [hL, Function.update_self]
  | play hmove => cases hmove
  | finish hmove => cases hmove

/-- A game is joined by an account that can pay for it. -/
theorem Signed.joinGame (h : Signed B R sub uid i pk u cx)
    (hopens : B.schnorrTryUnlock pk i [(i, pk)] = true) (hlock : u.lock = .ok (.schnorr pk))
    (hi : sub.access[i.toNat]? = some (uid, .write))
    (hg : sub.access[gi.toNat]? = some (gid, .write)) (hne : gid ≠ uid) {g : GameBody}
    (hgame : R.store.ledger B gid = .game g) (hopen : g.state = .open) (hself : uid ≠ g.creator)
    (hfunds : g.stake.toNat ≤ u.balance.toNat) :
    ∃ cx' u', applyAction B (covenantDepositPolicy B) (.joinGame gi i) cx = .ok () cx' ∧
      cx'.ledger B R.store uid = .user u' ∧
      u'.balance.toNat + g.stake.toNat = u.balance.toNat ∧
      u'.gamesStarted = u.gamesStarted ∧
      cx'.ledger B R.store gid = .game (g.seatJoiner uid sub.context.daaScore) := by
  obtain ⟨r, hrid, hpay⟩ := h.canPay hopens hlock hi hfunds
  obtain ⟨q, hq, hqid, hw, hparse⟩ := h.game hne hg
  have hbody : GameBody.fromBytes q.data = .ok g := Slot.parse_eq_game.mp (hparse.trans hgame)
  have hsucc := succeeds_joinGame hpay hq hw hbody hopen (by rw [hrid]; exact hself)
  obtain ⟨_, cx', happly, -⟩ := wp_total hsucc
  have hacc := (wp_applyJoinGame (P := covenantDepositPolicy B) h.coherent
    (List.getElem?_eq_some_iff.mp hq).1 (List.getElem?_eq_some_iff.mp hpay.resource).1).ok happly
  obtain ⟨flow, hstep, -, -⟩ := hacc.step
  have hstep' := hstep R.store
  rw [h.ledger] at hstep'
  have hidx : cx.idAt i = some uid := by rw [ApplyContext.idAt_of hpay.resource, hrid]
  have hgidx : cx.idAt gi = some gid := by rw [ApplyContext.idAt_of hq, hqid]
  generalize hL : cx'.ledger B R.store = L' at hstep'
  refine ⟨cx', ?_⟩
  cases hstep' with
  | joinGame hji hu _ hgi hg' _ _ hb =>
    obtain rfl := Option.some.inj (hidx.symm.trans hji)
    obtain rfl := Option.some.inj (hgidx.symm.trans hgi)
    rw [Function.update_self] at hu
    cases hu
    rw [Function.update_of_ne hne, hgame] at hg'
    cases hg'
    refine ⟨{ u with balance := _ }, happly, ?_, hb, rfl, ?_⟩
    · rw [hL, Function.update_of_ne hne.symm, Function.update_self]
    · rw [hL, Function.update_self, h.context]
  | play hmove => cases hmove
  | finish hmove => cases hmove

/-- A run that ends with nothing pending is taken over by the store. -/
theorem Rollup.submit_of {P : DepositPolicy} {ix : DecodedIx ActionBody} {presig : List UInt8}
    (hix : R.decoded B sub = .ok ix)
    (hpre : payloadPresig sub.tx.payload ix.endOfActionsInIx = .ok presig)
    (hrun : runSignersAndActions B P presig ix.actions (R.startOf sub ix.signers)
      = .ok () ⟨cx, []⟩) :
    (R.submit B P sub).store.ledger B = cx.ledger B R.store := by
  have hok : R.runOn B P sub = .ok cx := by
    unfold Rollup.runOn
    rw [run_of_decoded hix hpre]
    simp only [Rollup.startOf] at hrun
    simp only [hrun]
  unfold Rollup.submit
  simp only [hix, hok]
  rfl

end Entries
end TicTacToe
