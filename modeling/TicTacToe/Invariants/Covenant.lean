/-
TicTacToe.Invariants.Covenant — who may write the config, and what of it
never changes.

`LedgerStep.config` says for one accepted action that a slot with the
config in it, before or after, is the same, was just born by an `Init` the
genesis key opened, or was rewritten by an `Update` its own lock opened.
`Covenant` is what follows by induction over a run: one `Init` at most, and
one covenant that the config keeps and every deposit paid.

No `sorry`, no `axiom`, no `native_decide`.
-/
import TicTacToe.Invariants.Authority

namespace TicTacToe

open Lib

def ActionBody.isInit : ActionBody → Bool
  | .init .. => true
  | _ => false

/-! ## One action -/

section Step

variable {B : Battery} {P : DepositPolicy} {cx : ApplyContext} {L L' : Ledger} {a : ActionBody}
  {flow : Flow}

/-- What an accepted action does to a slot that holds the config before or
after it. -/
inductive ConfigStep (B : Battery) (cx : ApplyContext) (a : ActionBody) (L L' : Ledger)
    (id : ResourceId) : Prop
  | same : L' id = L id → ConfigStep B cx a L L' id
  | born {i : UInt8} {min ttl : UInt64} {cov : Bytes32} {lock : LockEnum} :
      a = .init i min ttl cov lock → id = configResourceId B → cx.idAt i = some id →
      L id = .empty → (LockEnum.schnorr B.genesisPubkey).unlock B i cx.authCtx = true →
      L' id = .config (.withLock min ttl cov lock) → ConfigStep B cx a L L' id
  | updated {i : UInt8} {min ttl : UInt64} {lock : LockEnum} {c : ConfigBody} :
      a = .update i min ttl c.covenantId lock → cx.idAt i = some id → L id = .config c →
      Opens B c.lock i cx → L' id = .config (.withLock min ttl c.covenantId lock) →
      ConfigStep B cx a L L' id

/-- No slot that holds a config, before or after, changed. -/
def ConfigsKept (L L' : Ledger) : Prop :=
  ∀ id, (∃ c, L id = .config c) ∨ (∃ c, L' id = .config c) → L' id = L id

theorem ConfigsKept.trans {L'' : Ledger} (h : ConfigsKept L L') (h' : ConfigsKept L' L'') :
    ConfigsKept L L'' := by
  intro id hcfg
  rcases hcfg with ⟨c, hc⟩ | ⟨c, hc⟩
  · have hfirst := h id (.inl ⟨c, hc⟩)
    exact (h' id (.inl ⟨c, hfirst.trans hc⟩)).trans hfirst
  · have hsecond := h' id (.inr ⟨c, hc⟩)
    exact hsecond.trans (h id (.inr ⟨c, hsecond.symm.trans hc⟩))

def Slot.NotConfig (s : Slot) : Prop := ∀ c, s ≠ .config c

theorem Slot.notConfig_of_eq {s t : Slot} (h : s = t) (ht : ∀ c, t ≠ .config c) : s.NotConfig :=
  h ▸ ht

theorem notConfig_update {i j : ResourceId} {s : Slot} (hi : (L i).NotConfig)
    (hs : s.NotConfig) : (Function.update L j s i).NotConfig := by
  by_cases he : i = j
  · subst he
    rwa [Function.update_self]
  · rwa [Function.update_of_ne he]

theorem configsKept_update {i : ResourceId} {s : Slot} (hi : (L i).NotConfig)
    (hs : s.NotConfig) : ConfigsKept L (Function.update L i s) := by
  intro id hcfg
  by_cases he : id = i
  · subst he
    rw [Function.update_self] at hcfg ⊢
    rcases hcfg with ⟨c, hc⟩ | ⟨c, hc⟩
    · exact absurd hc (hi c)
    · exact absurd hc (hs c)
  · exact Function.update_of_ne he ..

theorem configsKept_update₂ {i j : ResourceId} {s t : Slot} (hi : (L i).NotConfig)
    (hs : s.NotConfig) (hj : (L j).NotConfig) (ht : t.NotConfig) :
    ConfigsKept L (Function.update (Function.update L i s) j t) :=
  (configsKept_update hi hs).trans (configsKept_update (notConfig_update hj hs) ht)

theorem Settlement.configsKept {g : GameBody} (h : Settlement L g L') : ConfigsKept L L' := by
  intro id hcfg
  rcases h.slot id with hsame | ⟨u, u', hu, hu', -⟩
  · exact hsame
  · rcases hcfg with ⟨c, hc⟩ | ⟨c, hc⟩
    · cases hu.symm.trans hc
    · cases hu'.symm.trans hc

theorem Slot.notConfig_empty : Slot.empty.NotConfig := fun _ e => by cases e

theorem Slot.notConfig_user (u : UserBody) : (Slot.user u).NotConfig := fun _ e => by cases e

theorem Slot.notConfig_game (g : GameBody) : (Slot.game g).NotConfig := fun _ e => by cases e

theorem LedgerStep.config (h : LedgerStep B P cx L a flow L') {id : ResourceId}
    (hcfg : (∃ c, L id = .config c) ∨ ∃ c, L' id = .config c) : ConfigStep B cx a L L' id := by
  cases h with
  | @update i min ttl lock cid c hi hc hopens =>
    by_cases he : id = cid
    · subst he
      exact .updated rfl hi hc hopens (Function.update_self ..)
    · exact .same (Function.update_of_ne he ..)
  | @init i min ttl cov lock hi hempty hopens =>
    by_cases he : id = configResourceId B
    · subst he
      obtain ⟨l, hl, hopen⟩ := hopens
      cases hl
      exact .born rfl rfl hi hempty hopen (Function.update_self ..)
    · exact .same (Function.update_of_ne he ..)
  | transfer _ _ _ hu _ _ hw =>
    exact .same (configsKept_update₂ (Slot.notConfig_of_eq hu (Slot.notConfig_user _))
      (Slot.notConfig_user _) (Slot.notConfig_of_eq hw (Slot.notConfig_user _))
      (Slot.notConfig_user _) id hcfg)
  | transferCreate _ _ _ hu _ _ hempty =>
    exact .same (configsKept_update₂ (Slot.notConfig_of_eq hu (Slot.notConfig_user _))
      (Slot.notConfig_user _) (Slot.notConfig_of_eq hempty Slot.notConfig_empty)
      (Slot.notConfig_user _) id hcfg)
  | rotate _ hu | depositCredit _ _ _ _ _ _ _ _ hu | withdraw _ _ _ _ hu =>
    exact .same (configsKept_update (Slot.notConfig_of_eq hu (Slot.notConfig_user _))
      (Slot.notConfig_user _) id hcfg)
  | depositCreate _ _ _ _ _ _ _ _ hempty =>
    exact .same (configsKept_update (Slot.notConfig_of_eq hempty Slot.notConfig_empty)
      (Slot.notConfig_user _) id hcfg)
  | createGame _ hu _ _ _ _ hempty =>
    exact .same (configsKept_update₂ (Slot.notConfig_of_eq hu (Slot.notConfig_user _))
      (Slot.notConfig_user _) (Slot.notConfig_of_eq hempty Slot.notConfig_empty)
      (Slot.notConfig_game _) id hcfg)
  | joinGame _ hu _ _ hg =>
    exact .same (configsKept_update₂ (Slot.notConfig_of_eq hu (Slot.notConfig_user _))
      (Slot.notConfig_user _) (Slot.notConfig_of_eq hg (Slot.notConfig_game _))
      (Slot.notConfig_game _) id hcfg)
  | play _ hg =>
    exact .same (configsKept_update (Slot.notConfig_of_eq hg (Slot.notConfig_game _))
      (Slot.notConfig_game _) id hcfg)
  | finish _ hg hsettle =>
    exact .same (ConfigsKept.trans (configsKept_update
      (Slot.notConfig_of_eq hg (Slot.notConfig_game _)) (Slot.notConfig_game _))
      hsettle.configsKept id hcfg)

/-- The config stays, with its covenant. -/
theorem LedgerStep.config_stays (h : LedgerStep B P cx L a flow L') {id : ResourceId}
    {c : ConfigBody} (hc : L id = .config c) :
    ∃ c', L' id = .config c' ∧ c'.covenantId = c.covenantId := by
  cases h.config (.inl ⟨c, hc⟩) with
  | same e => exact ⟨c, e.trans hc, rfl⟩
  | born _ _ _ hempty => cases hempty.symm.trans hc
  | updated _ _ hold _ hnew =>
    cases hold.symm.trans hc
    exact ⟨_, hnew, rfl⟩

/-! ## A run -/

/-- A deposit that paid what the policy asks for under the covenant `cov`. -/
def Event.Pays (B : Battery) (P : DepositPolicy) (cov : Bytes32) (e : Event) : Prop :=
  ∀ u c o lock, e.action = .deposit u c o lock → ∃ out,
    B.parseOutputAtIndexV1 e.tx.restPreimage o = some out ∧ out.spkVersion = 0 ∧
      out.spk = P.depositSpk ⟨u, o, lock⟩ cov

/-- The covenant an `Init` of the history set. -/
def Event.Sets (cov : Bytes32) (e : Event) : Prop :=
  ∀ i min ttl cov' lock, e.action = .init i min ttl cov' lock → cov' = cov

/-- Where a run stands: no config, no `Init` and no deposit yet, or one of each
config and `Init`, with one covenant for them and every deposit. -/
inductive Covenant (B : Battery) (P : DepositPolicy) (h : List Event) (L : Ledger) : Prop
  | none : (h.countP fun e => e.action.isInit) = 0 → (∀ id, (L id).NotConfig) →
      (∀ e ∈ h, ∀ cov, e.Pays B P cov) → Covenant B P h L
  | fixed (c : ConfigBody) : (h.countP fun e => e.action.isInit) = 1 →
      L (configResourceId B) = .config c → (∀ e ∈ h, e.Sets c.covenantId) →
      (∀ e ∈ h, e.Pays B P c.covenantId) → Covenant B P h L

/-- A deposit reads the one config there is. -/
theorem LedgerStep.pays (h : LedgerStep B P cx L a flow L') (hb : Bound B L) {c : ConfigBody}
    (hc : L (configResourceId B) = .config c) : Event.Pays B P c.covenantId ⟨cx.tx, a⟩ := by
  rintro u ci o lock rfl
  cases h with
  | depositCreate _ _ hcid hout hversion hspk | depositCredit _ _ hcid hout hversion hspk =>
    obtain rfl := hb.config hcid
    cases hcid.symm.trans hc
    exact ⟨_, hout, hversion, hspk⟩
  | play hmove | finish hmove => cases hmove

theorem LedgerStep.pays_of_none (h : LedgerStep B P cx L a flow L')
    (hno : ∀ id, (L id).NotConfig) (cov : Bytes32) : Event.Pays B P cov ⟨cx.tx, a⟩ := by
  rintro u ci o lock rfl
  cases h with
  | depositCreate _ _ hcid | depositCredit _ _ hcid => exact absurd hcid (hno _ _)
  | play hmove | finish hmove => cases hmove

/-- An accepted `Init` finds no config and leaves one, with its covenant. -/
theorem LedgerStep.init_births (h : LedgerStep B P cx L a flow L') (ha : a.isInit = true) :
    L (configResourceId B) = .empty ∧ ∃ c, L' (configResourceId B) = .config c ∧
      Event.Sets c.covenantId ⟨cx.tx, a⟩ := by
  cases h with
  | init hi hempty =>
    refine ⟨hempty, _, Function.update_self .., ?_⟩
    intro _ _ _ _ _ e
    cases e
    rfl
  | play hmove | finish hmove => cases hmove <;> cases ha
  | _ => cases ha

theorem Event.sets_of_not_init {e : Event} (h : e.action.isInit = false) (cov : Bytes32) :
    e.Sets cov := by
  intro _ _ _ _ _ he
  rw [he] at h
  cases h

theorem countP_append_singleton (h : List Event) (e : Event) :
    (h ++ [e]).countP (fun e => e.action.isInit)
      = h.countP (fun e => e.action.isInit) + e.action.isInit.toNat := by
  rw [List.countP_append, List.countP_singleton]
  cases e.action.isInit <;> rfl

theorem Covenant.step {hist : List Event} (h : LedgerStep B P cx L a flow L') (hb : Bound B L)
    (hcov : Covenant B P hist L) : Covenant B P (hist ++ [⟨cx.tx, a⟩]) L' := by
  cases hcov with
  | none hcount hno hpays =>
    cases hinit : a.isInit with
    | true =>
      obtain ⟨-, c, hc, hsets⟩ := h.init_births hinit
      refine .fixed c (by rw [countP_append_singleton, hcount, hinit]; rfl) hc ?_ ?_
      · intro e he
        rcases List.mem_append.mp he with hold | hnew
        · refine Event.sets_of_not_init ?_ _
          simpa using List.countP_eq_zero.mp hcount e hold
        · rw [List.mem_singleton.mp hnew]
          exact hsets
      · intro e he
        rcases List.mem_append.mp he with hold | hnew
        · exact hpays e hold _
        · rw [List.mem_singleton.mp hnew]
          exact h.pays_of_none hno _
    | false =>
      refine .none (by rw [countP_append_singleton, hcount, hinit]; rfl) (fun id c hc => ?_) ?_
      · cases h.config (.inr ⟨c, hc⟩) with
        | same e => exact hno id c (e.symm.trans hc)
        | born ha =>
          rw [ha] at hinit
          cases hinit
        | updated _ _ hold => exact hno id _ hold
      · intro e he cov
        rcases List.mem_append.mp he with hold | hnew
        · exact hpays e hold cov
        · rw [List.mem_singleton.mp hnew]
          exact h.pays_of_none hno cov
  | fixed c hcount hc hsets hpays =>
    have hinit : a.isInit = false := by
      by_contra hne
      obtain ⟨hempty, -⟩ := h.init_births (Bool.eq_true_of_not_eq_false hne)
      cases hempty.symm.trans hc
    obtain ⟨c', hc', hsame⟩ := h.config_stays hc
    refine .fixed c' (by rw [countP_append_singleton, hcount, hinit]; rfl) hc' ?_ ?_
    · intro e he
      rw [hsame]
      rcases List.mem_append.mp he with hold | hnew
      · exact hsets e hold
      · rw [List.mem_singleton.mp hnew]
        exact Event.sets_of_not_init hinit _
    · intro e he
      rw [hsame]
      rcases List.mem_append.mp he with hold | hnew
      · exact hpays e hold
      · rw [List.mem_singleton.mp hnew]
        exact h.pays hb hc

theorem covenant_of_run {hist : List Event} (hrun : LedgerRun B P hist L) :
    Covenant B P hist L := by
  induction hrun with
  | genesis =>
    exact .none rfl (fun _ => Slot.notConfig_empty) fun _ he => absurd he List.not_mem_nil
  | step hprev hstep ih => exact ih.step hstep (bound_of_run hprev)

/-- At most one `Init`, and it set the covenant of the config there is. -/
theorem Covenant.inits_le {hist : List Event} (h : Covenant B P hist L) :
    (hist.countP fun e => e.action.isInit) ≤ 1 := by
  cases h with
  | none hcount => omega
  | fixed _ hcount => omega

/-- One covenant that every deposit of the history paid. -/
theorem Covenant.exists_paid {hist : List Event} (h : Covenant B P hist L) :
    ∃ cov, ∀ e ∈ hist, e.Pays B P cov := by
  cases h with
  | none _ _ hpays => exact ⟨ResourceId.default, fun e he => hpays e he _⟩
  | fixed c _ _ _ hpays => exact ⟨c.covenantId, hpays⟩

end Step

/-! ## The store -/

/-- A schnorr lock opens only for its own key, resolved for that index. -/
def Battery.SchnorrByKey (B : Battery) : Prop :=
  ∀ pubkey i keys, B.schnorrTryUnlock pubkey i keys = true → (i, pubkey) ∈ keys

theorem Battery.plain_schnorrByKey : Battery.plain.SchnorrByKey :=
  fun _ _ _ h => of_decide_eq_true h

/-- A signer of the transaction, for the index `i`, resolved to the key. -/
def SignedBy (B : Battery) (P : DepositPolicy) (R : Rollup) (sub : Submission)
    (as : List ActionBody) (i : UInt8) (pubkey : Bytes32) : Prop :=
  ∃ ix presig, R.decoded B sub = .ok ix ∧
    payloadPresig sub.tx.payload ix.endOfActionsInIx = .ok presig ∧
    ∃ s ctx, (i, s) ∈ ix.signers ∧ Snapshot B P presig (R.startOf sub ix.signers) as ctx ∧
      s.resolve B i ctx = .ok (.schnorr pubkey)

/-- Who may have written the config bytes that a slot holds before or after an
action. -/
inductive ConfigWrite (B : Battery) (P : DepositPolicy) (R : Rollup) (sub : Submission)
    (as : List ActionBody) (a : ActionBody) (cx : ApplyContext) (id : ResourceId)
    (before after : List UInt8) : Prop
  | kept : after = before → ConfigWrite B P R sub as a cx id before after
  | born {i : UInt8} {min ttl : UInt64} {cov : Bytes32} {lock : LockEnum} :
      a = .init i min ttl cov lock → id = configResourceId B → cx.idAt i = some id →
      before = [] → SignedBy B P R sub as i B.genesisPubkey →
      after = (ConfigBody.withLock min ttl cov lock).toBytes →
      ConfigWrite B P R sub as a cx id before after
  | updated {i : UInt8} {min ttl : UInt64} {lock : LockEnum} {c : ConfigBody} :
      a = .update i min ttl c.covenantId lock → cx.idAt i = some id →
      ConfigBody.fromBytes B before = .ok c → Opens B c.lock i cx →
      SignedAt B P R sub as cx i →
      after = (ConfigBody.withLock min ttl c.covenantId lock).toBytes →
      ConfigWrite B P R sub as a cx id before after

/-- `R'` is `R` after more submissions. -/
def Rollup.Later (B : Battery) (P : DepositPolicy) : Rollup → Rollup → Prop :=
  Relation.ReflTransGen fun R R' =>
    ∃ sub : Submission, (sub.access.map Prod.fst).Nodup ∧ R' = R.submit B P sub

section Stores

variable {B : Battery} {P : DepositPolicy} {R R' : Rollup} {sub : Submission}
  {as : List ActionBody} {a : ActionBody} {cx cx' : ApplyContext}

theorem Rollup.submit_events (R : Rollup) (sub : Submission) :
    R.events <+: (R.submit B P sub).events := by
  unfold Rollup.submit
  cases R.decoded B sub with
  | error e => exact List.prefix_rfl
  | ok ix =>
    cases R.runOn B P sub with
    | error e => exact List.prefix_rfl
    | ok cx =>
      rw [Rollup.events, Rollup.events, List.flatMap_append]
      exact List.prefix_append _ _

theorem Rollup.Later.reachable (h : R.Later B P R') (hR : Reachable B P R) :
    Reachable B P R' ∧ R.events <+: R'.events := by
  induction h with
  | refl => exact ⟨hR, List.prefix_rfl⟩
  | tail _ hstep ih =>
    obtain ⟨sub, hn, rfl⟩ := hstep
    exact ⟨ih.1.submit hn, ih.2.trans (Rollup.submit_events _ sub)⟩

/-- The config of a store is the one the history fixed. -/
theorem Covenant.of_config {hist : List Event} {L : Ledger} (h : Covenant B P hist L)
    (hb : Bound B L) {id : ResourceId} {c : ConfigBody} (hc : L id = .config c) :
    L (configResourceId B) = .config c ∧ (hist.countP fun e => e.action.isInit) = 1 ∧
      ∀ e ∈ hist, e.Sets c.covenantId := by
  obtain rfl := hb.config hc
  cases h with
  | none _ hno => exact absurd hc (hno _ c)
  | fixed c' hcount hc' hsets =>
    cases hc'.symm.trans hc
    exact ⟨hc, hcount, hsets⟩

/-- The covenant of the config is for good. -/
theorem Rollup.Later.covenant (h : R.Later B P R') (hR : Reachable B P R) {id : ResourceId}
    {c : ConfigBody} (hc : ConfigBody.fromBytes B (R.store id) = .ok c) :
    ∃ c', ConfigBody.fromBytes B (R'.store id) = .ok c' ∧ c'.covenantId = c.covenantId := by
  obtain ⟨hR', hinit⟩ := h.reachable hR
  have hrun := hR.refines.1
  have hrun' := hR'.refines.1
  have hslot : R.store.ledger B id = .config c := Slot.parse_eq_config.mpr hc
  obtain rfl := (bound_of_run hrun).config hslot
  obtain ⟨-, hcount, hsets⟩ := (covenant_of_run hrun).of_config (bound_of_run hrun) hslot
  -- the one `Init` of the history is in the longer one too
  obtain ⟨e, he, hisInit⟩ := List.countP_pos_iff.mp (hcount ▸ Nat.one_pos)
  cases covenant_of_run hrun' with
  | none hcount' =>
    have hzero := List.countP_eq_zero.mp hcount' e (hinit.subset he)
    exact absurd hisInit hzero
  | fixed c' _ hc' hsets' =>
    refine ⟨c', Slot.parse_eq_config.mp hc', ?_⟩
    cases ha : e.action with
    | init i min ttl cov lock =>
      exact (hsets' e (hinit.subset he) i min ttl cov lock ha).symm.trans
        (hsets e he i min ttl cov lock ha)
    | _ =>
      rw [ha] at hisInit
      cases hisInit

/-- One accepted action of a running transaction, on the slots with the config. -/
theorem Rollup.Applying.config_write (hB : B.SchnorrByKey) (hR : Reachable B P R)
    (hn : (sub.access.map Prod.fst).Nodup) (happ : R.Applying B P sub as a cx)
    (hact : applyAction B P a cx = .ok () cx') {id : ResourceId}
    (hcfg : (∃ c, ConfigBody.fromBytes B (R.store.commit cx.resources id) = .ok c) ∨
      ∃ c, ConfigBody.fromBytes B (R.store.commit cx'.resources id) = .ok c) :
    ConfigWrite B P R sub as a cx id (R.store.commit cx.resources id)
      (R.store.commit cx'.resources id) := by
  obtain ⟨hinv, hin⟩ := Rollup.Applying.inv hR hn happ
  have hacc := (wp_applyAction hinv.coherent hinv.sound hin).ok hact
  obtain ⟨flow, hstep, -⟩ := hacc.step
  have hslots : (∃ c, cx.ledger B R.store id = .config c) ∨
      ∃ c, cx'.ledger B R.store id = .config c :=
    hcfg.imp (fun ⟨c, hc⟩ => ⟨c, Slot.parse_eq_config.mpr hc⟩)
      fun ⟨c, hc⟩ => ⟨c, Slot.parse_eq_config.mpr hc⟩
  have hbytes : ∀ {cy : ApplyContext} {c : ConfigBody}, cy.ledger B R.store id = .config c →
      R.store.commit cy.resources id = c.toBytes := fun hc =>
    (ConfigBody.fromBytes_ok.mp (Slot.parse_eq_config.mp hc)).1
  cases (hstep R.store).config hslots with
  | same e =>
    refine .kept ?_
    rcases hslots with ⟨c, hc⟩ | ⟨c, hc⟩
    · rw [hbytes hc, hbytes (e.trans hc)]
    · rw [hbytes hc, hbytes (e.symm.trans hc)]
  | @born i min ttl cov lock ha hid hidx hempty hopen hnew =>
    obtain ⟨ix, presig, hix, hpre, hkeys, -⟩ := Rollup.Applying.signed hR hn happ i
    exact .born ha hid hidx (Slot.parse_eq_empty.mp hempty)
      ⟨ix, presig, hix, hpre, hkeys _ (hB _ _ _ hopen)⟩ (hbytes hnew)
  | updated ha hidx hold hopens hnew =>
    exact .updated ha hidx (Slot.parse_eq_config.mp hold) hopens
      (Rollup.Applying.signed hR hn happ _) (hbytes hnew)

/-- What the config id holds, as long as the ids in use do not collide. -/
theorem Rollup.Observed.config_slot (hR : Reachable B P R) {st : Store}
    (hst : R.Observed B P st) (H : CollisionFree B (st.lockHashes B)) :
    st (configResourceId B) = [] ∨
      ∃ c, ConfigBody.fromBytes B (st (configResourceId B)) = .ok c := by
  obtain ⟨hist, hrun⟩ := hst.run hR
  have hb := bound_of_run hrun
  rw [← Store.ledger_lockHashes] at H
  cases hslot : st.ledger B (configResourceId B) with
  | empty => exact .inl (Slot.parse_eq_empty.mp hslot)
  | junk => exact absurd hslot (hb.parses _)
  | config c => exact .inr ⟨c, Slot.parse_eq_config.mp hslot⟩
  | user u => exact absurd (hb.user hslot) (H.config_ne_user (Bound.mem_lockHashes hslot))
  | game g =>
    obtain ⟨u, n, hu, hid, -⟩ := hb.game hslot
    exact absurd hid (H.config_ne_game n (Bound.mem_lockHashes hu))

/-- **Config authority.** At every moment of every run, the config is born only
by an `Init` that a signer resolved to the genesis key at its index signed,
rewritten only by an `Update` that its lock of that moment opens, and keeps its
covenant; a run has one `Init` at most, and all its deposits paid the
delegate-entry script of one covenant. -/
theorem config_governed (hB : B.SchnorrByKey) (hR : Reachable B (covenantDepositPolicy B) R) :
    (∀ sub as a cx cx', (sub.access.map Prod.fst).Nodup →
      R.Applying B (covenantDepositPolicy B) sub as a cx →
      applyAction B (covenantDepositPolicy B) a cx = .ok () cx' →
      (∀ id, (∃ c, ConfigBody.fromBytes B (R.store.commit cx.resources id) = .ok c) ∨
          (∃ c, ConfigBody.fromBytes B (R.store.commit cx'.resources id) = .ok c) →
        ConfigWrite B (covenantDepositPolicy B) R sub as a cx id
          (R.store.commit cx.resources id) (R.store.commit cx'.resources id)) ∧
      (∀ id c, ConfigBody.fromBytes B (R.store.commit cx.resources id) = .ok c →
        ∃ c', ConfigBody.fromBytes B (R.store.commit cx'.resources id) = .ok c' ∧
          c'.covenantId = c.covenantId) ∧
      ((R.events ++ (as ++ [a]).map (Event.mk sub.tx)).countP fun e => e.action.isInit) ≤ 1) ∧
    (R.events.countP fun e => e.action.isInit) ≤ 1 ∧
    (∀ R', R.Later B (covenantDepositPolicy B) R' → ∀ id c,
      ConfigBody.fromBytes B (R.store id) = .ok c →
      ∃ c', ConfigBody.fromBytes B (R'.store id) = .ok c' ∧ c'.covenantId = c.covenantId) ∧
    (∃ cov, ∀ rc ∈ R.accepted, ∀ u c o lock, ActionBody.deposit u c o lock ∈ rc.actions →
      ∃ out, B.parseOutputAtIndexV1 rc.tx.restPreimage o = some out ∧
        out.spk = p2shScript (B.delegateEntrySpkHash cov)) ∧
    ∀ st, R.Observed B (covenantDepositPolicy B) st → CollisionFree B (st.lockHashes B) →
      st (configResourceId B) = [] ∨
        ∃ c, ConfigBody.fromBytes B (st (configResourceId B)) = .ok c := by
  have hcov := covenant_of_run hR.refines.1
  refine ⟨fun sub as a cx cx' hn happ hact => ?_, hcov.inits_le,
    fun R' hlater id c hc => hlater.covenant hR hc, ?_, fun st hst H => hst.config_slot hR H⟩
  · obtain ⟨hinv, hin⟩ := Rollup.Applying.inv hR hn happ
    have hacc := (wp_applyAction hinv.coherent hinv.sound hin).ok hact
    obtain ⟨flow, hstep, -⟩ := hacc.step
    refine ⟨fun id => happ.config_write hB hR hn hact, fun id c hc => ?_, ?_⟩
    · obtain ⟨c', hc', hsame⟩ := (hstep R.store).config_stays (Slot.parse_eq_config.mpr hc)
      exact ⟨c', Slot.parse_eq_config.mp hc', hsame⟩
    · have hafter := (hinv.accepted hacc).ledger
      rw [hacc.frame.tx, hinv.tx] at hafter
      exact (covenant_of_run hafter).inits_le
  · obtain ⟨cov, hpaid⟩ := hcov.exists_paid
    refine ⟨cov, fun rc hrc u c o lock ha => ?_⟩
    have he : (⟨rc.tx, .deposit u c o lock⟩ : Event) ∈ R.events :=
      List.mem_flatMap.mpr ⟨rc, hrc, List.mem_map_of_mem ha⟩
    obtain ⟨out, hout, -, hspk⟩ := hpaid _ he u c o lock rfl
    exact ⟨out, hout, hspk⟩

/-- The run of the sample: it has its `Init`, and both deposits paid the same. -/
theorem config_governed_played :
    (Sample.played.events.countP fun e => e.action.isInit) ≤ 1 ∧
      ∃ cov, ∀ rc ∈ Sample.played.accepted, ∀ u c o lock,
        ActionBody.deposit u c o lock ∈ rc.actions →
        ∃ out, Battery.plain.parseOutputAtIndexV1 rc.tx.restPreimage o = some out ∧
          out.spk = p2shScript (Battery.plain.delegateEntrySpkHash cov) := by
  obtain ⟨-, hinits, -, hpaid, -⟩ :=
    config_governed Battery.plain_schnorrByKey Sample.reachable_played
  exact ⟨hinits, hpaid⟩

end Stores

end TicTacToe
