/-
TicTacToe.Ledger.Handlers — the ten handlers implement the ledger
machine: an accepted action is a `LedgerStep` of its context, and a
refused one is a rejection, never a panic.

One theorem per handler; `wp_applyAction` collects them.

No `sorry`, no `axiom`, no `native_decide`.
-/
import TicTacToe.Ledger.Rules

namespace TicTacToe

open Lib

/-- What an accepted action leaves behind. -/
structure Accepted (B : Battery) (P : DepositPolicy) (cx : ApplyContext) (a : ActionBody)
    (cx' : ApplyContext) : Prop where
  frame : Frame cx cx'
  coherent : cx'.Coherent
  step : ∃ flow : Flow, (∀ st, LedgerStep B P cx (cx.ledger B st) a flow (cx'.ledger B st)) ∧
    cx'.exits = cx.exits ++ flow.exits ∧
    cx'.consumedOutputs = cx.consumedOutputs ++ flow.outputs

section Handlers

variable {B : Battery} {P : DepositPolicy} {cx : ApplyContext}

theorem Lifecycle.fromResource_new {r : Resource} : fromResource r = .new ↔ r.data = [] := by
  unfold fromResource
  by_cases h : r.data = [] <;> simp [h]

theorem Lifecycle.fromResource_live {r : Resource} : fromResource r = .live ↔ r.data ≠ [] := by
  unfold fromResource
  by_cases h : r.data = [] <;> simp [h]

theorem Lifecycle.fromResource_ne_deleted {r : Resource} : fromResource r ≠ .deleted := by
  unfold fromResource
  by_cases h : r.data = [] <;> simp [h]

/-! ## Config -/

theorem wp_writeNewState {min ttl : UInt64} {cov : Bytes32} {lock : LockEnum}
    {Q : Unit → Resource → Prop} {E : Fault → Resource → Prop} {r : Resource}
    (hQ : Q () (r.setData (ConfigBody.withLock min ttl cov lock).toBytes)) :
    wp (writeNewState min ttl cov lock) Q E r := by
  simp only [writeNewState, wp_bind, wp_get, wp_set]
  by_cases h : r.data = [] ∨ r.data.length ≠ configTotalLen lock
  · have hlen := Resource.length_resize r (configTotalLen lock)
    simp only [if_pos h, writeConfig_ok _ _ _ hlen, wp_liftE_ok]
    exact hQ
  · have hlen : r.data.length = configTotalLen lock := by
      rw [not_or, ne_eq, not_not] at h
      exact h.2
    simp only [if_neg h, writeConfig_ok _ _ _ hlen, wp_liftE_ok]
    exact hQ

theorem parse_withLock_config (min ttl : UInt64) (cov : Bytes32) {lock : LockEnum}
    (h : lock.WellFormed B) :
    Slot.parse B (ConfigBody.withLock min ttl cov lock).toBytes
      = .config (.withLock min ttl cov lock) :=
  Slot.parse_config h

theorem wp_applyUpdate {i : UInt8} {min ttl : UInt64} {cov : Bytes32} {lock : LockEnum}
    (hc : cx.Coherent) (hi : i.toNat < cx.resources.length) (hl : lock.WellFormed B) :
    wp (applyUpdate B i min ttl cov lock)
      (fun _ cx' => Accepted B P cx (.update i min ttl cov lock) cx')
      (fun e _ => e.IsReject) cx := by
  obtain ⟨r, hr⟩ := ApplyContext.exists_resource hi
  simp only [applyUpdate, wp_bind, wp_lifecycleAt (hc.lifecycle_at hr)]
  cases Lifecycle.fromResource r with
  | new => trivial
  | deleted => trivial
  | live =>
    simp only [wp_bind, wp_get, wp_resourceAt hr]
    cases hcur : ConfigBody.fromBytes B r.data with
    | error m => trivial
    | ok cur =>
      by_cases hcov : cov = cur.covenantId
      · obtain ⟨l, hlock, -⟩ := ConfigBody.lock_of_fromBytes hcur
        obtain ⟨b, hb, hopens⟩ := lockOpens_ok B cx hlock i
        subst hcov
        simp only [ne_eq, not_true_eq_false, if_false, wp_bind, hb, wp_liftE_ok]
        cases b with
        | false => trivial
        | true =>
          simp only [if_true, wp_onResource hr]
          refine wp_writeNewState ⟨ApplyContext.frame_setResource hr rfl rfl,
            hc.setResource hr rfl (data_ne_nil_of_config hcur) (List.cons_ne_nil _ _),
            .none, fun st => ?_, (List.append_nil _).symm, (List.append_nil _).symm⟩
          rw [ApplyContext.ledger_setData hc hr, parse_withLock_config _ _ _ hl]
          exact .update (ApplyContext.idAt_of hr) (ApplyContext.ledger_config hc hr hcur)
            (hopens.mp rfl) hl
      · simp only [ne_eq, hcov, not_false_eq_true, if_true]
        trivial

theorem wp_applyInit {i : UInt8} {min ttl : UInt64} {cov : Bytes32} {lock : LockEnum}
    (hc : cx.Coherent) (hi : i.toNat < cx.resources.length) (hl : lock.WellFormed B) :
    wp (applyInit B i min ttl cov lock)
      (fun _ cx' => Accepted B P cx (.init i min ttl cov lock) cx')
      (fun e _ => e.IsReject) cx := by
  obtain ⟨r, hr⟩ := ApplyContext.exists_resource hi
  simp only [applyInit, wp_bind, wp_resourceAt hr]
  by_cases hid : r.id = configResourceId B
  · simp only [hid, ne_eq, not_true_eq_false, if_false, wp_bind,
      wp_lifecycleAt (hc.lifecycle_at hr)]
    by_cases hnew : Lifecycle.fromResource r = .new
    · simp only [hnew, not_true_eq_false, if_false, wp_bind, wp_get]
      by_cases hopen : (LockEnum.schnorr B.genesisPubkey).unlock B i cx.authCtx = true
      · have hlife : cx.lifecycle[i.toNat]? = some .new := (hc.lifecycle_at hr).trans (by rw [hnew])
        simp only [hopen, if_true, wp_bind, wp_onResource hr]
        refine wp_writeNewState ((wp_markCreated ?_).mpr ?_)
        · exact hlife
        · have hempty := Lifecycle.fromResource_new.mp hnew
          change Accepted B P cx _ (cx.createResource i.toNat
            (r.setData (ConfigBody.withLock min ttl cov lock).toBytes))
          refine ⟨ApplyContext.frame_createResource hr rfl rfl,
            hc.createResource hr rfl (List.cons_ne_nil _ _), .none, fun st => ?_,
            (List.append_nil _).symm, (List.append_nil _).symm⟩
          rw [ApplyContext.ledger_createData hc hr, parse_withLock_config _ _ _ hl, hid]
          refine .init ?_ ?_ ⟨_, rfl, hopen⟩ hl
          · rw [ApplyContext.idAt_of hr, hid]
          · rw [← hid]
            exact ApplyContext.ledger_empty hc hr hempty
      · simp only [hopen]
        trivial
    · simp only [hnew, not_false_eq_true, if_true]
      trivial
  · simp only [ne_eq, hid, not_false_eq_true, if_true]
    trivial

/-! ## Users -/

theorem parse_withLock_user (b : UInt64) (st : GameStats) (h : Bytes32) {lock : LockEnum}
    (hl : lock.WellFormed B) :
    Slot.parse B (UserBody.withLock b st h lock).toBytes = .user (.withLock b st h lock) :=
  Slot.parse_user hl

theorem wp_applyTransfer {s d : UInt8} {amount : UInt64} {lock : Option LockEnum}
    (hc : cx.Coherent) (hs : s.toNat < cx.resources.length) (hd : d.toNat < cx.resources.length)
    (hl : ∀ l, lock = some l → l.WellFormed B) :
    wp (applyTransfer B P s d amount lock)
      (fun _ cx' => Accepted B P cx (.transfer s d amount lock) cx')
      (fun e _ => e.IsReject) cx := by
  obtain ⟨r, hr⟩ := ApplyContext.exists_resource hs
  obtain ⟨q, hq⟩ := ApplyContext.exists_resource hd
  unfold applyTransfer
  by_cases hsd : s = d
  · rw [if_pos hsd]
    trivial
  have hne : s.toNat ≠ d.toNat := fun e => hsd (UInt8.toNat_inj.mp e)
  have hid : r.id ≠ q.id := hc.id_ne hr hq hne
  have hbounds : ¬ (s.toNat ≥ cx.resources.length ∨ d.toNat ≥ cx.resources.length) := by omega
  simp only [hsd, if_false, wp_bind, wp_lifecycleAt (hc.lifecycle_at hq),
    Lifecycle.fromResource_ne_deleted, wp_get, hbounds]
  refine wp_requireUserLock hr (fun _ _ => trivial) fun u hu hop => ?_
  by_cases hempty : q.data = []
  · -- the destination is born
    have hnew : (Lifecycle.fromResource q == .new) = true := by
      rw [Lifecycle.fromResource_new.mpr hempty]
      rfl
    cases lock with
    | none =>
      simp only [transferCreatePlan, hnew, if_true, wp_bind, wp_okOr_none]
      trivial
    | some lock =>
      simp only [transferCreatePlan, hnew, if_true, wp_bind, wp_okOr_some, wp_resourceAt hq,
        wp_pure]
      refine wp_validateUserCreate (fun _ _ => trivial) fun hderive hmin => ?_
      refine wp_modifyKnownUser hr hu trivial ?_
      refine wp_debitBalance (fun _ => trivial) fun b hb => ?_
      have hparse := parse_modified { u with balance := b } hu rfl rfl
      set cx₁ := cx.setResource s.toNat (r.setData (UserBody.toBytes { u with balance := b }))
        with hcx₁
      have hc₁ : cx₁.Coherent := hc.setData hr (data_ne_nil_of_user hu) UserBody.toBytes_ne_nil
      have hq₁ : cx₁.resources[d.toNat]? = some q := (ApplyContext.setResource_ne hne).trans hq
      rw [wp_onResource hq₁]
      refine wp_initUser (fun _ => trivial) (fun _ => trivial) fun _ _ =>
        (wp_markCreated ?_).mpr ?_
      · exact (hc₁.lifecycle_at hq₁).trans (by rw [Lifecycle.fromResource_new.mpr hempty])
      · change Accepted B P cx _ (cx₁.createResource d.toNat
          (q.setData (UserBody.withLock amount .default (lock.idHash B) lock).toBytes))
        refine ⟨(ApplyContext.frame_setData hr _).trans (ApplyContext.frame_createData hq₁ _),
          hc₁.createData hq₁ UserBody.toBytes_ne_nil, .none, fun st => ?_,
          (List.append_nil _).symm, (List.append_nil _).symm⟩
        rw [ApplyContext.ledger_createData hc₁ hq₁, hcx₁, ApplyContext.ledger_setData hc hr, hparse,
          parse_withLock_user _ _ _ (hl lock rfl)]
        exact .transferCreate (ApplyContext.idAt_of hr) (ApplyContext.idAt_of hq) hid
          (ApplyContext.ledger_user hc hr hu) hop hb (ApplyContext.ledger_empty hc hq hempty)
          hderive hmin (hl lock rfl)
  · -- the destination is credited
    have hnew : (Lifecycle.fromResource q == .new) = false := by
      rw [Lifecycle.fromResource_live.mpr hempty]
      rfl
    simp only [transferCreatePlan, hnew, Bool.false_eq_true, if_false, wp_pure]
    refine wp_modifyKnownUser hr hu trivial ?_
    refine wp_debitBalance (fun _ => trivial) fun b hb => ?_
    have hparse := parse_modified { u with balance := b } hu rfl rfl
    set cx₁ := cx.setResource s.toNat (r.setData (UserBody.toBytes { u with balance := b }))
      with hcx₁
    have hc₁ : cx₁.Coherent := hc.setData hr (data_ne_nil_of_user hu) UserBody.toBytes_ne_nil
    have hq₁ : cx₁.resources[d.toNat]? = some q := (ApplyContext.setResource_ne hne).trans hq
    refine wp_modifyUserAt hq₁ (fun _ => trivial) fun w _ hw => ?_
    refine wp_creditBalance (fun _ => trivial) fun b' hb' => ?_
    have hparse' := parse_modified { w with balance := b' } hw rfl rfl
    refine ⟨(ApplyContext.frame_setData hr _).trans (ApplyContext.frame_setData hq₁ _),
      hc₁.setData hq₁ hempty UserBody.toBytes_ne_nil, .none, fun st => ?_,
      (List.append_nil _).symm, (List.append_nil _).symm⟩
    rw [ApplyContext.ledger_setData hc₁ hq₁, hcx₁, ApplyContext.ledger_setData hc hr, hparse,
      hparse']
    exact .transfer (ApplyContext.idAt_of hr) (ApplyContext.idAt_of hq) hid
      (ApplyContext.ledger_user hc hr hu) hop hb (ApplyContext.ledger_user hc hq hw) hb'

theorem wp_applyUpdateUserLock {i : UInt8} {lock : LockEnum} (hc : cx.Coherent)
    (hi : i.toNat < cx.resources.length) (hl : lock.WellFormed B) :
    wp (applyUpdateUserLock B i lock)
      (fun _ cx' => Accepted B P cx (.updateUserLock i lock) cx')
      (fun e _ => e.IsReject) cx := by
  obtain ⟨r, hr⟩ := ApplyContext.exists_resource hi
  simp only [applyUpdateUserLock, wp_bind]
  refine wp_requireUserLock hr (fun _ _ => trivial) fun u hu hop => ?_
  rw [wp_onResource hr]
  refine wp_setUserLock (fun _ => trivial) trivial fun u' _ hu' => ?_
  rw [hu] at hu'
  cases hu'
  refine ⟨ApplyContext.frame_setData hr _,
    hc.setData hr (data_ne_nil_of_user hu) UserBody.toBytes_ne_nil, .none, fun st => ?_,
    (List.append_nil _).symm, (List.append_nil _).symm⟩
  rw [ApplyContext.ledger_setData hc hr, parse_withLock_user _ _ _ hl]
  exact .rotate (ApplyContext.idAt_of hr) (ApplyContext.ledger_user hc hr hu) hop hl

/-! ## Deposits and withdrawals -/

/-- What the create-or-credit decision knows about its target. -/
inductive CreditKind.For (B : Battery) (P : DepositPolicy) (r : Resource) (lock : LockEnum)
    (value : UInt64) : CreditKind → Prop
  | create : r.data = [] → r.id = deriveUserResource B (lock.idHash B) →
      ¬ value < P.minCreateBalance → For B P r lock value (.create (lock.idHash B))
  | creditExisting {u : UserBody} {b : UInt64} : UserBody.fromBytes B r.data = .ok u →
      u.initialLockHash = lock.idHash B → b.toNat = u.balance.toNat + value.toNat →
      For B P r lock value (.creditExisting b)

theorem wp_depositCreditKind {target : CreditTarget} {lock : LockEnum} {value : UInt64}
    {r : Resource} (hc : cx.Coherent) (hr : cx.resources[target.userIdx.toNat]? = some r) :
    wp (depositCreditKind B P target lock value)
      (fun kind cx' => cx' = cx ∧ CreditKind.For B P r lock value kind)
      (fun e _ => e.IsReject) cx := by
  simp only [depositCreditKind, wp_bind, wp_lifecycleAt (hc.lifecycle_at hr)]
  by_cases hempty : r.data = []
  · rw [Lifecycle.fromResource_new.mpr hempty]
    cases target.createWith with
    | none => trivial
    | some _ =>
      simp only [wp_bind, wp_resourceAt hr]
      refine wp_validateUserCreate (fun _ _ => trivial) fun hderive hmin => ?_
      exact ⟨rfl, .create hempty hderive hmin⟩
  · rw [Lifecycle.fromResource_live.mpr hempty]
    simp only [wp_bind, wp_resourceAt hr, wp_okOr]
    refine ⟨?_, fun _ => trivial⟩
    rintro ⟨bal, ilh⟩ hview
    obtain ⟨u, hu, e⟩ := viewBody_eq_some.mp hview
    obtain ⟨rfl, rfl⟩ := Prod.mk.inj e
    by_cases hilh : u.initialLockHash = lock.idHash B
    · simp only [ne_eq, hilh, not_true_eq_false, if_false, wp_bind, wp_okOr, wp_pure]
      exact ⟨fun b hb => ⟨trivial, .creditExisting hu hilh (checkedAdd_eq_some.mp hb)⟩,
        fun _ => trivial⟩
    · simp only [ne_eq, hilh, not_false_eq_true, if_true]
      trivial

theorem wp_applyDeposit {ui ci : UInt8} {oi : UInt32} {lock : LockEnum} (hc : cx.Coherent)
    (hci : ci.toNat < cx.resources.length) (hl : lock.WellFormed B) :
    wp (applyDeposit B P ui ci oi lock)
      (fun _ cx' => Accepted B P cx (.deposit ui ci oi lock) cx')
      (fun e _ => e.IsReject) cx := by
  obtain ⟨rc, hrc⟩ := ApplyContext.exists_resource hci
  simp only [applyDeposit, wp_bind, wp_get]
  by_cases hdup : oi ∈ cx.consumedOutputs
  · rw [if_pos hdup]
    trivial
  simp only [hdup, if_false, wp_bind]
  refine wp_viewConfigAt hrc (fun _ _ => trivial) fun c hconfig => ?_
  rw [wp_okOr]
  refine ⟨fun out hout => ?_, fun _ => trivial⟩
  by_cases hspk : out.spkVersion ≠ 0 ∨ out.spk ≠ P.depositSpk ⟨ui, oi, lock⟩ c.covenantId
  · rw [if_pos hspk]
    trivial
  rw [if_neg hspk, wp_bind]
  obtain ⟨hver, hscript⟩ := not_or.mp hspk
  rw [ne_eq, not_not] at hver hscript
  cases htarget : P.creditTarget ⟨ui, oi, lock⟩ with
  | error m => trivial
  | ok target =>
    simp only [Except.mapError, wp_liftE_ok]
    by_cases hrange : target.userIdx.toNat ≥ cx.resources.length
    · rw [if_pos hrange]
      trivial
    rw [if_neg hrange]
    obtain ⟨r, hr⟩ := ApplyContext.exists_resource (Nat.lt_of_not_le hrange)
    simp only [wp_bind]
    refine wp_mono (wp_depositCreditKind hc hr) ?_ (fun _ _ e => e)
    rintro kind cx' ⟨hsame, hkind⟩
    rw [hsame]
    cases hset : B.depositSet cx.deposit (B.delegateEntrySpkHash c.covenantId) with
    | error m => trivial
    | ok deposit =>
      simp only [wp_liftE_ok, wp_modify]
      set cx₁ : ApplyContext := { cx with deposit, consumedOutputs := cx.consumedOutputs ++ [oi] }
        with hcx₁
      have hc₁ : cx₁.Coherent := ⟨hc.nodup, hc.lifecycle⟩
      have hr₁ : cx₁.resources[target.userIdx.toNat]? = some r := hr
      have hframe₁ : Frame cx cx₁ := ⟨rfl, rfl, rfl, rfl⟩
      have hledger₁ : ∀ st, cx₁.ledger B st = cx.ledger B st := fun _ => rfl
      cases hkind with
      | create hempty hderive hmin =>
        simp only [depositCredit, wp_bind]
        refine (wp_markCreated ?_).mpr ?_
        · exact (hc₁.lifecycle_at hr₁).trans (by rw [Lifecycle.fromResource_new.mpr hempty])
        · have hr₂ : ({ cx₁ with
              lifecycle := cx₁.lifecycle.set target.userIdx.toNat .live } :
                ApplyContext).resources[target.userIdx.toNat]? = some r := hr
          rw [wp_onResource hr₂]
          refine wp_initUser (fun _ => trivial) (fun _ => trivial) fun _ _ => ?_
          change Accepted B P cx _ (cx₁.createResource target.userIdx.toNat
            (r.setData (UserBody.withLock out.value .default (lock.idHash B) lock).toBytes))
          refine ⟨hframe₁.trans (ApplyContext.frame_createData hr₁ _),
            hc₁.createData hr₁ UserBody.toBytes_ne_nil, .deposited oi out.value, fun st => ?_,
            (List.append_nil _).symm, rfl⟩
          rw [ApplyContext.ledger_createData hc₁ hr₁, hledger₁, parse_withLock_user _ _ _ hl]
          exact .depositCreate hdup (ApplyContext.idAt_of hrc)
            (ApplyContext.ledger_config hc hrc hconfig) hout hver hscript htarget
            (ApplyContext.idAt_of hr) (ApplyContext.ledger_empty hc hr hempty) hderive hmin hl
      | @creditExisting u b hu hilh hb =>
        refine wp_modifyKnownUser hr₁ hu trivial ?_
        rw [wp_modify]
        refine ⟨hframe₁.trans (ApplyContext.frame_setData hr₁ _),
          hc₁.setData hr₁ (data_ne_nil_of_user hu) UserBody.toBytes_ne_nil,
          .deposited oi out.value, fun st => ?_, (List.append_nil _).symm, rfl⟩
        rw [ApplyContext.ledger_setData hc₁ hr₁, hledger₁,
          parse_modified { u with balance := b } hu rfl rfl]
        exact .depositCredit hdup (ApplyContext.idAt_of hrc)
          (ApplyContext.ledger_config hc hrc hconfig) hout hver hscript htarget
          (ApplyContext.idAt_of hr) (ApplyContext.ledger_user hc hr hu) hilh hb

theorem wp_applyWithdraw {ui ci : UInt8} {amount : UInt64} {dest : StandardSpk}
    (hc : cx.Coherent) (hui : ui.toNat < cx.resources.length)
    (hci : ci.toNat < cx.resources.length) :
    wp (applyWithdraw B ui ci amount dest)
      (fun _ cx' => Accepted B P cx (.withdraw ui ci amount dest) cx')
      (fun e _ => e.IsReject) cx := by
  obtain ⟨rc, hrc⟩ := ApplyContext.exists_resource hci
  obtain ⟨r, hr⟩ := ApplyContext.exists_resource hui
  simp only [applyWithdraw, wp_bind]
  refine wp_viewConfigAt hrc (fun _ _ => trivial) fun c hconfig => ?_
  refine wp_requireUserLock hr (fun _ _ => trivial) fun u hu hop => ?_
  by_cases hmin : amount < c.minWithdrawalAmount
  · rw [if_pos hmin]
    trivial
  simp only [hmin, if_false, wp_bind, wp_resourceAt hr, wp_okOr]
  refine ⟨fun cur hview => ⟨fun b hb => ?_, fun _ => trivial⟩, fun _ => trivial⟩
  obtain ⟨u', hu', rfl⟩ := viewBody_eq_some.mp hview
  rw [hu] at hu'
  cases hu'
  refine wp_modifyKnownUser hr hu trivial ?_
  simp only [wp_modify, wp_get, wp_set]
  refine ⟨fun exits hexits => ?_, fun _ => trivial⟩
  have hemit : exits = cx.exits ++ [⟨dest, amount⟩] := by
    unfold ExitSink.emit at hexits
    split at hexits
    · exact (Option.some.inj hexits).symm
    · cases hexits
  have hc₁ := hc.setData hr (data_ne_nil_of_user hu)
    (UserBody.toBytes_ne_nil (u := { u with balance := b }))
  refine ⟨⟨(ApplyContext.frame_setData hr _).keys, rfl, rfl, rfl⟩, ⟨hc₁.nodup, hc₁.lifecycle⟩,
    .withdrawn ⟨dest, amount⟩, fun st => ?_, hemit, (List.append_nil _).symm⟩
  show LedgerStep B P cx _ _ _ ((cx.setResource ui.toNat _).ledger B st)
  rw [ApplyContext.ledger_setData hc hr, parse_modified { u with balance := b } hu rfl rfl]
  exact .withdraw (ApplyContext.idAt_of hrc) (ApplyContext.ledger_config hc hrc hconfig) hmin
    (ApplyContext.idAt_of hr) (ApplyContext.ledger_user hc hr hu) hop (checkedSub_eq_some.mp hb)

end Handlers

end TicTacToe
