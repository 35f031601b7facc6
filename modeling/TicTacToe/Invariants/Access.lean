/-
TicTacToe.Invariants.Access — which writes the declared access mode stops.

Eight of the ten handlers write through the combinators of `Resources.Ext`
only, and these do nothing to a resource that is not declared writable:
`keeps_applyAction`. The two config handlers write through `writeNewState`,
which does not look at the access mode. `Rewrites` is what such a handler
stores once its checks have passed, so a read-only resource is left alone
exactly when nothing is stored over it or what is stored is already there.

No `sorry`, no `axiom`, no `native_decide`.
-/
import TicTacToe.Lib.Frame
import TicTacToe.Rollup

namespace TicTacToe

open Lib

/-- Every resource that is not declared writable is as it was. -/
def ReadOnlyKept (cx cx' : ApplyContext) : Prop :=
  ∀ (i : Nat) (r : Resource), cx.resources[i]? = some r → r.isWritable = false →
    cx'.resources[i]? = some r

instance : IsPreorder ApplyContext ReadOnlyKept where
  refl _ _ _ hi _ := hi
  trans _ _ _ h h' i r hi hro := h' i r (h i r hi hro) hro

/-- A resource that changes only if it is declared writable. -/
def Gated (r r' : Resource) : Prop := r.isWritable = false → r' = r

instance : IsPreorder Resource Gated where
  refl _ _ := rfl
  trans r r' r'' h h' hro := by
    have hsame : r' = r := h hro
    rw [hsame] at h'
    exact h' hro

/-! ## The combinators -/

section Combinators

variable {α β : Type} {B : Battery}

/-- What a computation does to a writable resource is not restricted. -/
theorem keeps_gated {x : EStateM Fault Resource α}
    (h : ∀ r, r.isWritable = false → KeepsAt Gated x r) : Keeps Gated x := by
  intro r
  cases hw : r.isWritable with
  | false => exact h r hw
  | true =>
    have hfree : ∀ r', Gated r r' := fun r' hro => by
      rw [hw] at hro
      cases hro
    unfold KeepsAt wp
    cases x r with
    | ok a r' => exact hfree r'
    | error e r' => exact hfree r'

theorem keeps_modifyBody {fromBytes : List UInt8 → Except String β} {toBytes : β → List UInt8}
    {f : EStateM Fault β α} : Keeps Gated (modifyBody fromBytes toBytes f) := by
  refine keeps_gated fun r hro => ?_
  refine wp_modifyBody (fun _ => refl_of Gated r) fun v hw _ => ?_
  rw [hro] at hw
  cases hw

theorem keeps_initUser {balance : UInt64} {ilh : Bytes32} {lock : LockEnum} :
    Keeps Gated (initUser balance ilh lock) := by
  refine keeps_gated fun r hro => ?_
  refine wp_initUser (fun _ => refl_of Gated r) (fun _ => refl_of Gated r) fun hw _ => ?_
  rw [hro] at hw
  cases hw

theorem keeps_initGame {creator : ResourceId} {mark : Cell} {stake : UInt64} {rounds : UInt8} :
    Keeps Gated (initGame creator mark stake rounds) := by
  refine keeps_gated fun r hro => ?_
  simp only [KeepsAt, initGame, wp_bind, wp_get, hro, Bool.not_false, if_true, wp_throw]
  exact refl_of Gated r

theorem keeps_setUserLock {lock : LockEnum} : Keeps Gated (setUserLock B lock) := by
  refine keeps_gated fun r hro => ?_
  refine wp_setUserLock (fun _ => refl_of Gated r) (refl_of Gated r) fun u hw _ => ?_
  rw [hro] at hw
  cases hw

/-- A gated change at one index leaves every read-only resource alone. -/
theorem keeps_onResource {i : Nat} {x : EStateM Fault Resource α} (h : Keeps Gated x) :
    Keeps ReadOnlyKept (onResource i x) := by
  refine keeps_zoom h fun cx r r' hi hgate j q hj hro => ?_
  by_cases hij : i = j
  · subst hij
    rw [hi] at hj
    cases hj
    rw [ApplyContext.setResource_self hi, hgate hro]
  · rwa [ApplyContext.setResource_ne hij]

theorem keeps_resourceAt (i : Nat) : Keeps ReadOnlyKept (resourceAt i) :=
  keeps_get.bind fun _ => keeps_okOr _ _

theorem keeps_lifecycleAt (i : Nat) : Keeps ReadOnlyKept (lifecycleAt i) :=
  keeps_get.bind fun _ => keeps_okOr _ _

theorem keeps_markCreated (i : Nat) : Keeps ReadOnlyKept (markCreated i) :=
  (keeps_lifecycleAt i).bind fun _ =>
    .ite (keeps_modify fun _ _ _ hj _ => hj) (keeps_throw _)

theorem keeps_viewConfigAt {i : UInt8} {f : ConfigBody → α} :
    Keeps ReadOnlyKept (viewConfigAt B i f) :=
  (keeps_resourceAt _).bind fun _ => keeps_okOr _ _

theorem keeps_requireUserLock {i : UInt8} {notLive notSatisfied : String} :
    Keeps ReadOnlyKept (requireUserLock B i notLive notSatisfied) := by
  refine keeps_get.bind fun cx => (keeps_resourceAt _).bind fun r => (keeps_okOr _ _).bind ?_
  rintro ⟨opens, v⟩
  exact (keeps_liftE _).bind fun _ => .ite (keeps_pure _) (keeps_throw _)

theorem keeps_modifyUserAt {i : Nat} {f : EStateM Fault UserBody Unit} {notLive : String} :
    Keeps ReadOnlyKept (modifyUserAt B i f notLive) :=
  (keeps_onResource keeps_modifyBody).bind fun _ => keeps_okOr _ _

end Combinators

/-! ## The handlers that only use the combinators -/

section Handlers

variable {B : Battery} {P : DepositPolicy}

theorem keeps_transferCreatePlan {create : Bool} {destIdx : UInt8} {amount : UInt64}
    {destInit : Option LockEnum} :
    Keeps ReadOnlyKept (transferCreatePlan B P create destIdx amount destInit) := by
  unfold transferCreatePlan
  refine .ite ?_ (keeps_pure _)
  exact (keeps_okOr _ _).bind fun lock => (keeps_resourceAt _).bind fun dst =>
    (keeps_liftE _).bind fun ilh => keeps_pure _

theorem keeps_applyTransfer {s d : UInt8} {amount : UInt64} {destInit : Option LockEnum} :
    Keeps ReadOnlyKept (applyTransfer B P s d amount destInit) := by
  unfold applyTransfer
  refine .ite (keeps_throw _) ((keeps_lifecycleAt _).bind fun l => .ite (keeps_throw _) ?_)
  refine keeps_get.bind fun cx => .ite (keeps_throw _) ?_
  refine keeps_requireUserLock.bind fun _ => keeps_transferCreatePlan.bind fun plan => ?_
  refine keeps_modifyUserAt.bind fun _ => ?_
  cases plan with
  | none => exact keeps_modifyUserAt
  | some p => exact (keeps_onResource keeps_initUser).bind fun _ => keeps_markCreated _

theorem keeps_applyUpdateUserLock {i : UInt8} {lock : LockEnum} :
    Keeps ReadOnlyKept (applyUpdateUserLock B i lock) :=
  keeps_requireUserLock.bind fun _ => keeps_onResource keeps_setUserLock

theorem keeps_depositCreditKind {target : CreditTarget} {lock : LockEnum} {value : UInt64} :
    Keeps ReadOnlyKept (depositCreditKind B P target lock value) := by
  refine (keeps_lifecycleAt _).bind fun l => ?_
  cases l with
  | new =>
    cases target.createWith with
    | none => exact keeps_throw _
    | some _ =>
      exact (keeps_resourceAt _).bind fun slot => (keeps_liftE _).bind fun ilh => keeps_pure _
  | live =>
    refine (keeps_resourceAt _).bind fun slot => (keeps_okOr _ _).bind ?_
    rintro ⟨curBalance, storedIlh⟩
    exact .ite (keeps_throw _) ((keeps_okOr _ _).bind fun new => keeps_pure _)
  | deleted => exact keeps_throw _

theorem keeps_depositCredit {idx : Nat} {value : UInt64} {lock : LockEnum} {kind : CreditKind} :
    Keeps ReadOnlyKept (depositCredit B idx value lock kind) := by
  cases kind with
  | create ilh => exact (keeps_markCreated _).bind fun _ => keeps_onResource keeps_initUser
  | creditExisting newBalance => exact keeps_modifyUserAt

theorem keeps_applyDeposit {u c : UInt8} {output : UInt32} {lock : LockEnum} :
    Keeps ReadOnlyKept (applyDeposit B P u c output lock) := by
  refine keeps_get.bind fun cx => .ite (keeps_throw _) ?_
  refine keeps_viewConfigAt.bind fun covenantId => (keeps_okOr _ _).bind fun out => ?_
  refine .ite (keeps_throw _) ((keeps_liftE _).bind fun target => .ite (keeps_throw _) ?_)
  refine keeps_depositCreditKind.bind fun kind => (keeps_liftE _).bind fun deposit => ?_
  exact (keeps_modify fun _ _ _ hj _ => hj).bind fun _ => keeps_depositCredit

theorem keeps_applyWithdraw {u c : UInt8} {amount : UInt64} {dest : StandardSpk} :
    Keeps ReadOnlyKept (applyWithdraw B u c amount dest) := by
  refine keeps_viewConfigAt.bind fun min => keeps_requireUserLock.bind fun _ => ?_
  refine .ite (keeps_throw _) ((keeps_resourceAt _).bind fun r => ?_)
  refine (keeps_okOr _ _).bind fun cur => (keeps_okOr _ _).bind fun newBalance => ?_
  refine keeps_modifyUserAt.bind fun _ => keeps_get_bind fun cx => ?_
  -- the sink is set on the context just read, so the resources are the same
  cases hemit : cx.exits.emit B dest amount with
  | none => exact keeps_throw _ cx
  | some exits => exact refl_of ReadOnlyKept cx

theorem keeps_applyCreateGame {c g : UInt8} {stake : UInt64} {rounds : UInt8} {mark : Cell} :
    Keeps ReadOnlyKept (applyCreateGame B c g stake rounds mark) := by
  refine .ite (keeps_throw _) ((keeps_lifecycleAt _).bind fun l => .ite (keeps_throw _) ?_)
  refine keeps_requireUserLock.bind fun v => (keeps_resourceAt _).bind fun slot => ?_
  refine .ite (keeps_throw _) (keeps_modifyUserAt.bind fun _ => (keeps_markCreated _).bind ?_)
  exact fun _ => (keeps_resourceAt _).bind fun creator => keeps_onResource keeps_initGame

theorem keeps_applyJoinGame {g j : UInt8} : Keeps ReadOnlyKept (applyJoinGame B g j) := by
  refine keeps_requireUserLock.bind fun _ => (keeps_resourceAt _).bind fun game => ?_
  refine (keeps_okOr _ _).bind ?_
  rintro ⟨state, creatorId, stake⟩
  refine .ite (keeps_throw _) ((keeps_resourceAt _).bind fun joiner => .ite (keeps_throw _) ?_)
  refine keeps_modifyUserAt.bind fun _ => keeps_get.bind fun cx => ?_
  exact (keeps_onResource keeps_modifyBody).bind fun res => keeps_okOr _ _

theorem keeps_settleSeat {player : ResourceId} {credit : UInt64} {won : Bool} :
    Keeps ReadOnlyKept (settleSeat B player credit won) :=
  keeps_get.bind fun _ => (keeps_okOr _ _).bind fun _ => keeps_modifyUserAt

theorem keeps_settleMatch {g : UInt8} : Keeps ReadOnlyKept (settleMatch B g) := by
  refine (keeps_resourceAt _).bind fun game => (keeps_okOr _ _).bind ?_
  rintro ⟨state, creator, joiner, stake⟩
  refine (keeps_okOr _ _).bind fun joiner => (keeps_okOr _ _).bind fun pot => ?_
  refine (keeps_liftE _).bind ?_
  rintro ⟨credits, winner⟩
  exact keeps_settleSeat.bind fun _ => keeps_settleSeat

theorem keeps_applyTurn {g u cell : UInt8} : Keeps ReadOnlyKept (applyTurn B g u cell) := by
  refine keeps_requireUserLock.bind fun _ => (keeps_resourceAt _).bind fun mover => ?_
  refine keeps_get.bind fun cx => (keeps_onResource keeps_modifyBody).bind fun res => ?_
  exact (keeps_okOr _ _).bind fun finished => .ite keeps_settleMatch (keeps_pure _)

theorem keeps_applyTimeout {g c : UInt8} : Keeps ReadOnlyKept (applyTimeout B g c) := by
  refine keeps_viewConfigAt.bind fun turnTtl => keeps_get.bind fun cx => ?_
  refine (keeps_onResource keeps_modifyBody).bind fun res => (keeps_okOr _ _).bind fun finished => ?_
  exact .ite keeps_settleMatch (keeps_pure _)

end Handlers

/-! ## The two config handlers -/

section Config

variable {B : Battery} {P : DepositPolicy} {cx : ApplyContext}

/-- What an authorised config action stores, and where. -/
inductive Rewrites (B : Battery) (cx : ApplyContext) : ActionBody → Nat → List UInt8 → Prop
  | update {i : UInt8} {min ttl : UInt64} {covenantId : Bytes32} {lock l : LockEnum}
      {r : Resource} {cur : ConfigBody} :
      cx.lifecycle[i.toNat]? = some .live → cx.resources[i.toNat]? = some r →
      ConfigBody.fromBytes B r.data = .ok cur → covenantId = cur.covenantId →
      cur.lock = .ok l → l.unlock B i cx.authCtx = true →
      Rewrites B cx (.update i min ttl covenantId lock) i.toNat
        (ConfigBody.withLock min ttl covenantId lock).toBytes
  | init {i : UInt8} {min ttl : UInt64} {covenantId : Bytes32} {lock : LockEnum} {r : Resource} :
      cx.resources[i.toNat]? = some r → r.id = configResourceId B →
      cx.lifecycle[i.toNat]? = some .new →
      (LockEnum.schnorr B.genesisPubkey).unlock B i cx.authCtx = true →
      Rewrites B cx (.init i min ttl covenantId lock) i.toNat
        (ConfigBody.withLock min ttl covenantId lock).toBytes

/-- No config action passes its checks on a resource that is not declared
writable and does not hold what the action stores. -/
def RewritesWritable (B : Battery) (cx : ApplyContext) (a : ActionBody) : Prop :=
  ∀ i bytes r, Rewrites B cx a i bytes → cx.resources[i]? = some r → r.isWritable = false →
    r.data = bytes

variable {a : ActionBody} {i : Nat} {r : Resource}

/-- A config action that stores nothing meets the condition and has to leave
the context alone. -/
theorem keepsAt_iff_of_stays {x : Guest Unit} (hstays : KeepsAt ReadOnlyKept x cx)
    (hno : ∀ i bytes, ¬ Rewrites B cx a i bytes) :
    KeepsAt ReadOnlyKept x cx ↔ RewritesWritable B cx a :=
  ⟨fun _ i bytes _ hrw _ _ => absurd hrw (hno i bytes), fun _ => hstays⟩

/-- What a store at one index means for the read-only resources. -/
theorem readOnlyKept_store (hr : cx.resources[i]? = some r) (bytes : List UInt8) :
    ReadOnlyKept cx (cx.setResource i (r.setData bytes)) ↔
      (r.isWritable = false → r.data = bytes) := by
  constructor
  · intro h hro
    have hkept := h i r hr hro
    rw [ApplyContext.setResource_self hr] at hkept
    exact (congrArg Resource.data (Option.some.inj hkept)).symm
  · intro h j q hj hro
    by_cases hij : i = j
    · subst hij
      rw [hr] at hj
      cases hj
      rw [ApplyContext.setResource_self hr, ← h hro]
      rfl
    · rwa [ApplyContext.setResource_ne hij]

/-- An action whose stored bytes and place are known. -/
theorem rewritesWritable_iff {bytes : List UInt8} (hr : cx.resources[i]? = some r)
    (hrw : Rewrites B cx a i bytes)
    (hall : ∀ i' bytes', Rewrites B cx a i' bytes' → i' = i ∧ bytes' = bytes) :
    RewritesWritable B cx a ↔ (r.isWritable = false → r.data = bytes) := by
  constructor
  · exact fun h => h i bytes r hrw hr
  · intro h i' bytes' r' hrw' hr' hro
    obtain ⟨rfl, rfl⟩ := hall i' bytes' hrw'
    rw [hr] at hr'
    cases hr'
    exact h hro

/-- The store itself cannot fail, and looks at no access mode. -/
theorem writeNewState_ok {min ttl : UInt64} {cov : Bytes32} {lock : LockEnum} (r : Resource) :
    writeNewState min ttl cov lock r
      = .ok () (r.setData (ConfigBody.withLock min ttl cov lock).toBytes) := by
  have hwp : wp (writeNewState min ttl cov lock)
      (fun _ r' => r' = r.setData (ConfigBody.withLock min ttl cov lock).toBytes)
      (fun _ _ => False) r := wp_writeNewState rfl
  obtain ⟨_, r', hrun, rfl⟩ := wp_total hwp
  exact hrun

theorem keepsAt_applyUpdate {i : UInt8} {min ttl : UInt64} {cov : Bytes32} {lock : LockEnum} :
    KeepsAt ReadOnlyKept (applyUpdate B i min ttl cov lock) cx ↔
      RewritesWritable B cx (.update i min ttl cov lock) := by
  cases hlife : cx.lifecycle[i.toNat]? with
  | none =>
    refine keepsAt_iff_of_stays ?_ fun _ _ hrw => ?_
    · simp only [KeepsAt, applyUpdate, lifecycleAt, wp_bind, wp_get, hlife, wp_okOr_none]
      exact refl_of ReadOnlyKept cx
    · cases hrw with
      | update hlive => cases hlife.symm.trans hlive
  | some l =>
    cases l with
    | new | deleted =>
      refine keepsAt_iff_of_stays ?_ fun _ _ hrw => ?_
      · simp only [KeepsAt, applyUpdate, wp_bind, wp_lifecycleAt hlife]
        exact refl_of ReadOnlyKept cx
      · cases hrw with
        | update hlive => cases hlife.symm.trans hlive
    | live =>
      cases hr : cx.resources[i.toNat]? with
      | none =>
        refine keepsAt_iff_of_stays ?_ fun _ _ hrw => ?_
        · simp only [KeepsAt, applyUpdate, wp_bind, wp_lifecycleAt hlife, wp_get, resourceAt, hr,
            wp_okOr_none]
          exact refl_of ReadOnlyKept cx
        · cases hrw with
          | update _ hr' => cases hr.symm.trans hr'
      | some r =>
        cases hcur : ConfigBody.fromBytes B r.data with
        | error m =>
          refine keepsAt_iff_of_stays ?_ fun _ _ hrw => ?_
          · simp only [KeepsAt, applyUpdate, wp_bind, wp_lifecycleAt hlife, wp_get,
              wp_resourceAt hr, hcur]
            exact refl_of ReadOnlyKept cx
          · cases hrw with
            | update _ hr' hcur' =>
              cases hr.symm.trans hr'
              cases hcur.symm.trans hcur'
        | ok cur =>
          obtain ⟨k, hlock, -⟩ := ConfigBody.lock_of_fromBytes hcur
          obtain ⟨b, hb, hopens⟩ := lockOpens_ok B cx hlock i
          by_cases hcov : cov = cur.covenantId
          · subst hcov
            cases b with
            | false =>
              refine keepsAt_iff_of_stays ?_ fun _ _ hrw => ?_
              · simp only [KeepsAt, applyUpdate, wp_bind, wp_lifecycleAt hlife, wp_get,
                  wp_resourceAt hr, hcur, ne_eq, not_true_eq_false, if_false, hb, wp_liftE_ok]
                exact refl_of ReadOnlyKept cx
              · cases hrw with
                | update _ hr' hcur' _ hlock' hopen =>
                  cases hr.symm.trans hr'
                  cases hcur.symm.trans hcur'
                  exact absurd (hopens.mpr ⟨_, hlock', hopen⟩) (by decide)
            | true =>
              obtain ⟨k', hlock', hopen⟩ := hopens.mp rfl
              rw [rewritesWritable_iff hr (.update hlife hr hcur rfl hlock' hopen) fun _ _ hrw => by
                cases hrw
                exact ⟨rfl, rfl⟩, ← readOnlyKept_store hr]
              simp only [KeepsAt, applyUpdate, wp_bind, wp_lifecycleAt hlife, wp_get,
                wp_resourceAt hr, hcur, ne_eq, not_true_eq_false, if_false, hb, wp_liftE_ok,
                if_true, wp_onResource hr, wp_of_ok (writeNewState_ok r)]
          · refine keepsAt_iff_of_stays ?_ fun _ _ hrw => ?_
            · simp only [KeepsAt, applyUpdate, wp_bind, wp_lifecycleAt hlife, wp_get,
                wp_resourceAt hr, hcur, ne_eq, hcov, not_false_eq_true, if_true]
              exact refl_of ReadOnlyKept cx
            · cases hrw with
              | update _ hr' hcur' hcov' =>
                cases hr.symm.trans hr'
                cases hcur.symm.trans hcur'
                exact hcov hcov'

theorem keepsAt_applyInit {i : UInt8} {min ttl : UInt64} {cov : Bytes32} {lock : LockEnum} :
    KeepsAt ReadOnlyKept (applyInit B i min ttl cov lock) cx ↔
      RewritesWritable B cx (.init i min ttl cov lock) := by
  cases hr : cx.resources[i.toNat]? with
  | none =>
    refine keepsAt_iff_of_stays ?_ fun _ _ hrw => ?_
    · simp only [KeepsAt, applyInit, wp_bind, resourceAt, wp_get, hr, wp_okOr_none]
      exact refl_of ReadOnlyKept cx
    · cases hrw with
      | init hr' => cases hr.symm.trans hr'
  | some r =>
    by_cases hid : r.id = configResourceId B
    · cases hlife : cx.lifecycle[i.toNat]? with
      | none =>
        refine keepsAt_iff_of_stays ?_ fun _ _ hrw => ?_
        · simp only [KeepsAt, applyInit, wp_bind, wp_resourceAt hr, hid, ne_eq, not_true_eq_false,
            if_false, lifecycleAt, wp_get, hlife, wp_okOr_none]
          exact refl_of ReadOnlyKept cx
        · cases hrw with
          | init _ _ hnew => cases hlife.symm.trans hnew
      | some l =>
        by_cases hl : l = .new
        · subst hl
          by_cases hopen : (LockEnum.schnorr B.genesisPubkey).unlock B i cx.authCtx = true
          · rw [rewritesWritable_iff hr (.init hr hid hlife hopen) fun _ _ hrw => by
              cases hrw
              exact ⟨rfl, rfl⟩, ← readOnlyKept_store hr]
            -- marking the slot touches no resource
            simp only [KeepsAt, applyInit, wp_bind, wp_resourceAt hr, hid, ne_eq,
              not_true_eq_false, if_false, wp_lifecycleAt hlife, wp_get, hopen, if_true,
              wp_onResource hr, wp_of_ok (writeNewState_ok r)]
            exact wp_markCreated hlife
          · refine keepsAt_iff_of_stays ?_ fun _ _ hrw => ?_
            · simp only [KeepsAt, applyInit, wp_bind, wp_resourceAt hr, hid, ne_eq,
                not_true_eq_false, if_false, wp_lifecycleAt hlife, wp_get, hopen]
              exact refl_of ReadOnlyKept cx
            · cases hrw with
              | init _ _ _ hopen' => exact hopen hopen'
        · refine keepsAt_iff_of_stays ?_ fun _ _ hrw => ?_
          · simp only [KeepsAt, applyInit, wp_bind, wp_resourceAt hr, hid, ne_eq,
              not_true_eq_false, if_false, wp_lifecycleAt hlife, hl, not_false_eq_true, if_true]
            exact refl_of ReadOnlyKept cx
          · cases hrw with
            | init _ _ hnew => exact hl (Option.some.inj (hlife.symm.trans hnew))
    · refine keepsAt_iff_of_stays ?_ fun _ _ hrw => ?_
      · simp only [KeepsAt, applyInit, wp_bind, wp_resourceAt hr, ne_eq, hid, not_false_eq_true,
          if_true]
        exact refl_of ReadOnlyKept cx
      · cases hrw with
        | init hr' hid' =>
          cases hr.symm.trans hr'
          exact hid hid'

/-- **Declared access.** Whether it succeeds or fails, an action leaves every
resource not declared writable as it was, exactly when no config action gets
to store new bytes over such a resource: the other eight never do. -/
theorem access_respected_iff (B : Battery) (P : DepositPolicy) (a : ActionBody)
    (cx : ApplyContext) :
    KeepsAt ReadOnlyKept (applyAction B P a) cx ↔ RewritesWritable B cx a := by
  cases a with
  | update => exact keepsAt_applyUpdate
  | init => exact keepsAt_applyInit
  | transfer => exact keepsAt_iff_of_stays (keeps_applyTransfer cx) fun _ _ hrw => by cases hrw
  | updateUserLock =>
    exact keepsAt_iff_of_stays (keeps_applyUpdateUserLock cx) fun _ _ hrw => by cases hrw
  | deposit => exact keepsAt_iff_of_stays (keeps_applyDeposit cx) fun _ _ hrw => by cases hrw
  | withdraw => exact keepsAt_iff_of_stays (keeps_applyWithdraw cx) fun _ _ hrw => by cases hrw
  | createGame => exact keepsAt_iff_of_stays (keeps_applyCreateGame cx) fun _ _ hrw => by cases hrw
  | joinGame => exact keepsAt_iff_of_stays (keeps_applyJoinGame cx) fun _ _ hrw => by cases hrw
  | turn => exact keepsAt_iff_of_stays (keeps_applyTurn cx) fun _ _ hrw => by cases hrw
  | timeout => exact keepsAt_iff_of_stays (keeps_applyTimeout cx) fun _ _ hrw => by cases hrw

end Config

/-! ## A read-only config that is written -/

namespace Sample

/-- An update that the config's lock authorises, with the config attached for
reading. -/
def peeking : Submission :=
  { submission [(0, 0x01, aliceKey)] [.update 0 2000 10 covenant aliceLock] with
    access := [(configId, .read)] }

@[irreducible] def peekingUpdate : List ActionBody × ActionBody × ApplyContext :=
  (opened.moment .plain policy peeking 0).get (by decide +kernel)

/-- The update is accepted and the config it was to read is another one. -/
theorem peeking_writes :
    opened.Applying .plain policy peeking peekingUpdate.1 peekingUpdate.2.1 peekingUpdate.2.2 ∧
      ¬ KeepsAt ReadOnlyKept (applyAction .plain policy peekingUpdate.2.1) peekingUpdate.2.2 := by
  constructor
  · unfold peekingUpdate
    exact Rollup.applying_get _
  · intro h
    have hro : (peekingUpdate.2.2.resources[0]?).any (fun r => r.isWritable = false) = true := by
      decide +kernel
    have hdiff : (match applyAction .plain policy peekingUpdate.2.1 peekingUpdate.2.2 with
        | .ok _ cx' => decide (cx'.resources[0]? ≠ peekingUpdate.2.2.resources[0]?)
        | .error _ _ => false) = true := by
      decide +kernel
    obtain ⟨r, hr, hro⟩ := (Option.any_eq_true _ _).mp hro
    unfold KeepsAt wp at h
    cases hrun : applyAction .plain policy peekingUpdate.2.1 peekingUpdate.2.2 with
    | ok _ cx' =>
      rw [hrun] at h hdiff
      exact of_decide_eq_true hdiff ((h 0 r hr (of_decide_eq_true hro)).trans hr.symm)
    | error e cx' =>
      rw [hrun] at hdiff
      cases hdiff

end Sample

end TicTacToe
