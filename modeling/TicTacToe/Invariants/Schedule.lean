/-
TicTacToe.Invariants.Schedule — which transactions may run in any order.

The access list of a submission says which resources it reads and which
of them it may write. `scoped_submit` is that the guest keeps to it, for
a submission whose config actions name a slot that is declared writable
(`Declared`; the other actions check the mode themselves): a transaction
depends on what it attached and changes what it declared. So a batch in
which nobody writes what another attaches can be run from one snapshot of
the store, in any order.

No `sorry`, no `axiom`, no `native_decide`.
-/
import TicTacToe.Invariants.Access
import TicTacToe.Lib.Schedule
import TicTacToe.Moments

namespace TicTacToe

open Lib

/-- The index a config action stores at. -/
def ActionBody.rewrites : ActionBody → Option UInt8
  | .update configIdx _ _ _ _ | .init configIdx _ _ _ _ => some configIdx
  | _ => none

namespace Submission

def reads (sub : Submission) : Set ResourceId := {id | id ∈ sub.access.map Prod.fst}

def writes (sub : Submission) : Set ResourceId := {id | (id, .write) ∈ sub.access}

/-- The actions of the instruction, none if it does not decode. -/
def actions (B : Battery) (sub : Submission) : List ActionBody :=
  match decodeIx sub.tx.payload.ixData sub.access.length (decodeAction B) with
  | .ok ix => ix.actions
  | .error _ => []

/-- Every resource is attached once, and what a config action stores at is
declared writable. -/
structure Declared (B : Battery) (sub : Submission) : Prop where
  nodup : (sub.access.map Prod.fst).Nodup
  config : ∀ a ∈ sub.actions B, ∀ i ∈ a.rewrites, ∀ p ∈ sub.access[i.toNat]?, p.2 = .write

end Submission

/-- The receipt a submission gets on `R`, if it is accepted. -/
def Rollup.receipt (B : Battery) (P : DepositPolicy) (R : Rollup) (sub : Submission) :
    Option Receipt :=
  match R.decoded B sub, R.runOn B P sub with
  | .ok ix, .ok cx =>
    some { tx := sub.tx, actions := ix.actions, exits := cx.exits.drop sub.exits.length }
  | _, _ => none

/-- A batch, one submission after the other. -/
def Rollup.submitAll (B : Battery) (P : DepositPolicy) (R : Rollup) (subs : List Submission) :
    Rollup := subs.foldl (Rollup.submit B P) R

/-! ## What a run leaves alone -/

section Runs

variable {B : Battery} {P : DepositPolicy} {st : Store} {h : List Event} {presig : List UInt8}
  {cx cx₀ : ApplyContext} {s s₀ : RunState} {as : List ActionBody}

/-- Apart from the config actions the handlers look at the access mode. -/
theorem keepsAt_applyAction {a : ActionBody}
    (hw : ∀ i ∈ a.rewrites, ∀ r ∈ cx.resources[i.toNat]?, r.isWritable = true) :
    KeepsAt ReadOnlyKept (applyAction B P a) cx := by
  cases a with
  | update i =>
    refine keepsAt_applyUpdate.mpr fun _ _ r hrw hr hro => ?_
    cases hrw
    rw [hw i rfl r hr] at hro
    cases hro
  | init i =>
    refine keepsAt_applyInit.mpr fun _ _ r hrw hr hro => ?_
    cases hrw
    rw [hw i rfl r hr] at hro
    cases hro
  | transfer => exact keeps_applyTransfer cx
  | updateUserLock => exact keeps_applyUpdateUserLock cx
  | deposit => exact keeps_applyDeposit cx
  | withdraw => exact keeps_applyWithdraw cx
  | createGame => exact keeps_applyCreateGame cx
  | joinGame => exact keeps_applyJoinGame cx
  | turn => exact keeps_applyTurn cx
  | timeout => exact keeps_applyTimeout cx

/-- The same slot in two contexts with the same keys. -/
theorem resource_of_keys {i : Nat} {r : Resource}
    (hk : cx.resources.map (fun r => (r.id, r.accessType))
      = cx₀.resources.map (fun r => (r.id, r.accessType))) (hr : cx.resources[i]? = some r) :
    ∃ r₀, cx₀.resources[i]? = some r₀ ∧ r₀.id = r.id ∧ r₀.accessType = r.accessType := by
  have hat := congrArg (fun l : List (ResourceId × AccessType) => l[i]?) hk
  simp only [List.getElem?_map, hr, Option.map_some] at hat
  obtain ⟨r₀, hr₀, hkey⟩ := Option.map_eq_some_iff.mp hat.symm
  exact ⟨r₀, hr₀, (Prod.mk.inj hkey).1, (Prod.mk.inj hkey).2⟩

theorem RunsTo.readOnlyKept (hrun : RunsTo B P presig s₀ as s)
    (hi : RunInv B P st h s₀.cx [] s₀.cx) (hb : ∀ a ∈ as, a.InBounds B s₀.cx.resources.length)
    (hw : ∀ a ∈ as, ∀ i ∈ a.rewrites, ∀ r ∈ s₀.cx.resources[i.toNat]?, r.isWritable = true) :
    ReadOnlyKept s₀.cx s.cx := by
  induction hrun with
  | resolved hres =>
    obtain ⟨authCtx, hcx⟩ := wp_resolveSigners.ok hres
    rw [hcx]
    exact refl_of ReadOnlyKept s₀.cx
  | @acted as a s s' hto hact ih =>
    have hprev : ∀ b ∈ as, b ∈ as ++ [a] := fun b hm => List.mem_append_left [a] hm
    have hlast : a ∈ as ++ [a] := List.mem_append_right as (List.mem_singleton_self a)
    have hkept := ih (fun b hm => hb b (hprev b hm)) fun b hm => hw b (hprev b hm)
    have hinv := hto.inv hi fun b hm => hb b (hprev b hm)
    obtain ⟨s₁, hretry, happly, -⟩ := ok_runAction hact
    obtain ⟨authCtx, hcx⟩ := wp_retrySigners.ok hretry
    have hsame : s₁.cx.resources = s.cx.resources := by rw [hcx]
    have hstep : ReadOnlyKept s₁.cx s'.cx := by
      refine (keepsAt_applyAction fun i hidx r hr => ?_).ok happly
      rw [hsame] at hr
      obtain ⟨r₀, hr₀, -, hacc⟩ := resource_of_keys hinv.keys hr
      have hwritable := hw a hlast i hidx r₀ hr₀
      rwa [Resource.isWritable, hacc] at hwritable
    intro i r hr hro
    refine hstep i r ?_ hro
    rw [hsame]
    exact hkept i r hr hro

end Runs

/-! ## One submission -/

section Submit

variable {B : Battery} {P : DepositPolicy} {R : Rollup} {sub : Submission} {h : List Event}
  {cx : ApplyContext} {id : ResourceId}

theorem Rollup.attach_getElem? {i : Nat} {r : Resource} (hr : (R.attach sub)[i]? = some r) :
    ∃ p, sub.access[i]? = some p ∧ r = { id := p.1, accessType := p.2, data := R.store p.1 } := by
  obtain ⟨p, hp, rfl⟩ := Option.map_eq_some_iff.mp ((List.getElem?_map ..).symm.trans hr)
  exact ⟨p, hp, rfl⟩

/-- A transaction starts on what its access list names, as the store has it. -/
theorem Rollup.keys_start (signers : List SignerEntry) :
    (R.startOf sub signers).cx.resources.map (fun r => (r.id, r.accessType)) = sub.access := by
  show (R.attach sub).map _ = sub.access
  rw [Rollup.attach, List.map_map]
  exact List.map_id _

theorem Rollup.ledger_start (signers : List SignerEntry) :
    (R.startOf sub signers).cx.ledger B R.store = R.store.ledger B := by
  show (R.store.commit (R.attach sub)).ledger B = _
  rw [Rollup.commit_attach]

/-- What an accepted submission leaves in the slots it attached. -/
theorem Rollup.runOn_slots (hn : (sub.access.map Prod.fst).Nodup)
    (hL : LedgerRun B P h (R.store.ledger B)) (hrun : R.runOn B P sub = .ok cx) :
    cx.resources.map (fun r => (r.id, r.accessType)) = sub.access := by
  have hspec := Rollup.runOn_spec sub hn hL
  rw [hrun] at hspec
  obtain ⟨ix, -, hinv⟩ := hspec
  rw [hinv.keys]
  exact Rollup.keys_start (R := R) []

theorem Rollup.runOn_readOnly (hd : sub.Declared B) (hL : LedgerRun B P h (R.store.ledger B))
    (hrun : R.runOn B P sub = .ok cx) :
    ReadOnlyKept (R.startOf sub []).cx cx := by
  obtain ⟨ix, presig, s, hix, -, hto, -, rfl⟩ := Rollup.runOn_runsTo hrun
  have hdec := decodeIx_spec sub.tx.payload.ixData
    (decodes_decodeAction B (R.attach sub).length)
  have hlen : (R.attach sub).length = sub.access.length := List.length_map _
  have hactions : sub.actions B = ix.actions := by
    unfold Rollup.decoded at hix
    rw [hlen] at hix
    unfold Submission.actions
    rw [hix]
  unfold Rollup.decoded at hix
  rw [hix] at hdec
  refine hto.readOnlyKept (Rollup.runInv_start sub hd.nodup hL ix.signers) hdec.2.1
    fun a ha i hi r hr => ?_
  obtain ⟨p, hp, rfl⟩ := Rollup.attach_getElem? hr
  exact beq_iff_eq.mpr (hd.config a (hactions ▸ ha) i hi p hp)

/-- One submission as a step on the store. -/
def Submission.step (B : Battery) (P : DepositPolicy) (sub : Submission) (st : Store) :
    Store × Option Receipt :=
  ((Rollup.submit B P { store := st, accepted := [] } sub).store,
    Rollup.receipt B P { store := st, accepted := [] } sub)

/-- The stores that stand for a ledger with a history. -/
def Store.Historied (B : Battery) (P : DepositPolicy) (st : Store) : Prop :=
  ∃ h, LedgerRun B P h (st.ledger B)

theorem Rollup.submit_eq (B : Battery) (P : DepositPolicy) (R : Rollup) (sub : Submission) :
    (R.submit B P sub).store = (sub.step B P R.store).1 ∧
      (R.submit B P sub).accepted = R.accepted ++ (sub.step B P R.store).2.toList := by
  have hdec : Rollup.decoded B { store := R.store, accepted := [] } sub = R.decoded B sub := rfl
  have hrun : Rollup.runOn B P { store := R.store, accepted := [] } sub = R.runOn B P sub := rfl
  unfold Submission.step Rollup.receipt Rollup.submit
  rw [hdec, hrun]
  cases R.decoded B sub with
  | error e => exact ⟨rfl, (List.append_nil _).symm⟩
  | ok ix =>
    cases R.runOn B P sub with
    | error e => exact ⟨rfl, (List.append_nil _).symm⟩
    | ok cx => exact ⟨rfl, rfl⟩

end Submit

section Scope

variable {B : Battery} {P : DepositPolicy} {sub : Submission} {st st' : Store}

/-- The two ways a step can end. -/
theorem Submission.step_cases (B : Battery) (P : DepositPolicy) (sub : Submission) (st : Store) :
    sub.step B P st = (st, none) ∨
      ∃ ix cx, Rollup.decoded B { store := st, accepted := [] } sub = .ok ix ∧
        Rollup.runOn B P { store := st, accepted := [] } sub = .ok cx ∧
        sub.step B P st = (st.commit cx.resources,
          some { tx := sub.tx, actions := ix.actions, exits := cx.exits.drop sub.exits.length }) := by
  unfold Submission.step Rollup.receipt Rollup.submit
  cases hix : Rollup.decoded B { store := st, accepted := [] } sub with
  | error e => exact .inl rfl
  | ok ix =>
    cases hrun : Rollup.runOn B P { store := st, accepted := [] } sub with
    | error e => exact .inl rfl
    | ok cx => exact .inr ⟨ix, cx, rfl, rfl, rfl⟩

theorem Submission.step_historied (hn : (sub.access.map Prod.fst).Nodup)
    (hst : st.Historied B P) : (sub.step B P st).1.Historied B P := by
  obtain ⟨h, hL⟩ := hst
  obtain hrefused | ⟨ix, cx, hix, hrun, hstep⟩ := sub.step_cases B P st
  · rw [hrefused]
    exact ⟨h, hL⟩
  · rw [hstep]
    have hspec := Rollup.runOn_spec (R := { store := st, accepted := [] }) sub hn hL
    rw [hrun] at hspec
    obtain ⟨ix', -, hinv⟩ := hspec
    exact ⟨_, hinv.ledger⟩

/-- A resource that was not declared writable is as it was. -/
theorem Submission.step_frame (hd : sub.Declared B) (hst : st.Historied B P) {id : ResourceId}
    (hid : id ∉ sub.writes) : (sub.step B P st).1 id = st id := by
  obtain ⟨h, hL⟩ := hst
  obtain hrefused | ⟨ix, cx, -, hrun, hstep⟩ := sub.step_cases B P st
  · rw [hrefused]
  rw [hstep]
  have hslots := Rollup.runOn_slots hd.nodup hL hrun
  have hkept := Rollup.runOn_readOnly hd hL hrun
  show st.commit cx.resources id = st id
  unfold Store.commit
  cases hf : cx.resources.find? fun r => r.id = id with
  | none => rfl
  | some r =>
    have hrid : r.id = id := by simpa using List.find?_some hf
    obtain ⟨i, hi⟩ := List.getElem?_of_mem (List.mem_of_find?_eq_some hf)
    have hacc : sub.access[i]? = some (id, r.accessType) := by
      rw [← hslots, List.getElem?_map, hi, ← hrid]
      rfl
    -- what was attached under the same index
    have hat : (Rollup.attach { store := st, accepted := [] } sub)[i]?
        = some { id, accessType := r.accessType, data := st id } := by
      rw [Rollup.attach, List.getElem?_map, hacc]
      rfl
    have hro : ({ id, accessType := r.accessType, data := st id } : Resource).isWritable
        = false := by
      refine beq_eq_false_iff_ne.mpr fun hw => hid ?_
      have hmem := List.mem_of_getElem? hacc
      rw [show r.accessType = .write from hw] at hmem
      exact hmem
    have hsame := hkept i _ hat hro
    rw [hi] at hsame
    exact congrArg Resource.data (Option.some.inj hsame)

/-- Stores that agree on what a submission attaches give it the same run. -/
theorem Submission.run_congr (h : ∀ id ∈ sub.reads, st id = st' id) :
    Rollup.runOn B P { store := st, accepted := [] } sub
        = Rollup.runOn B P { store := st', accepted := [] } sub ∧
      Rollup.decoded B { store := st, accepted := [] } sub
        = Rollup.decoded B { store := st', accepted := [] } sub := by
  have hattach : Rollup.attach { store := st, accepted := [] } sub
      = Rollup.attach { store := st', accepted := [] } sub :=
    List.map_congr_left fun p hp => by
      have hsame : st p.1 = st' p.1 := h p.1 (List.mem_map_of_mem hp)
      simp only [hsame]
  unfold Rollup.runOn Rollup.decoded
  rw [hattach]
  exact ⟨rfl, rfl⟩

/-- The guest keeps to the access list of a submission. -/
theorem scoped_submit (hd : sub.Declared B) : Scoped (Submission.step B P) Submission.reads
    Submission.writes (Store.Historied B P) sub where
  writes_read hw := List.mem_map.mpr ⟨_, hw, rfl⟩
  keeps hst := Submission.step_historied hd.nodup hst
  frame hst hid := Submission.step_frame hd hst hid
  receipt _ _ hsame := by
    obtain ⟨hrun, hdec⟩ := Submission.run_congr hsame
    unfold Submission.step Rollup.receipt
    rw [hrun, hdec]
  wrote {s t} _ _ hsame id hw := by
    have hread : s id = t id := hsame id (List.mem_map.mpr ⟨_, hw, rfl⟩)
    obtain ⟨hrun, hdec⟩ := Submission.run_congr (B := B) (P := P) hsame
    unfold Submission.step Rollup.submit
    rw [← hrun, ← hdec]
    cases Rollup.decoded B { store := s, accepted := [] } sub with
    | error e => exact hread
    | ok ix =>
      cases Rollup.runOn B P { store := s, accepted := [] } sub with
      | error e => exact hread
      | ok cx =>
        show Store.commit s cx.resources id = Store.commit t cx.resources id
        unfold Store.commit
        cases cx.resources.find? fun r => r.id = id with
        | none => exact hread
        | some r => rfl

end Scope

/-! ## Batches -/

section Batches

variable {B : Battery} {P : DepositPolicy} {R : Rollup} {subs subs' : List Submission}

theorem Rollup.submitAll_eq (B : Battery) (P : DepositPolicy) (R : Rollup)
    (subs : List Submission) :
    (R.submitAll B P subs).store = (runAll (Submission.step B P) subs R.store).1 ∧
      (R.submitAll B P subs).accepted
        = R.accepted ++ (runAll (Submission.step B P) subs R.store).2 := by
  induction subs generalizing R with
  | nil => exact ⟨rfl, (List.append_nil _).symm⟩
  | cons sub subs ih =>
    obtain ⟨hstore, haccepted⟩ := R.submit_eq B P sub
    obtain ⟨ih₁, ih₂⟩ := ih (R.submit B P sub)
    rw [hstore] at ih₁ ih₂
    rw [haccepted, List.append_assoc] at ih₂
    exact ⟨ih₁, ih₂⟩

/-- Nobody writes what another one attaches. -/
def Batch (B : Battery) (subs : List Submission) : Prop :=
  (∀ sub ∈ subs, sub.Declared B) ∧
    subs.Pairwise (Independent Submission.reads Submission.writes)

theorem Reachable.historied (hR : Reachable B P R) : R.store.Historied B P := ⟨_, hR.refines.1⟩

/-- **Snapshot.** A batch in which nobody writes what another attaches gets
the receipts, and leaves the bytes, of running each submission alone on the
store before the batch. -/
theorem batch_runs_alone (hR : Reachable B P R) (hb : Batch B subs) :
    (R.submitAll B P subs).accepted = R.accepted ++ subs.filterMap (R.receipt B P) ∧
      (∀ sub ∈ subs, ∀ id ∈ sub.writes,
        (R.submitAll B P subs).store id = (R.submit B P sub).store id) ∧
      ∀ id, (∀ sub ∈ subs, id ∉ sub.writes) → (R.submitAll B P subs).store id = R.store id := by
  obtain ⟨hstore, haccepted⟩ := R.submitAll_eq B P subs
  obtain ⟨hout, hwrote, hframe⟩ := runAll_alone (fun sub hsub => scoped_submit (hb.1 sub hsub))
    hb.2 (Reachable.historied hR)
  rw [haccepted, hstore, hout]
  refine ⟨rfl, fun sub hsub id hid => ?_, hframe⟩
  rw [hwrote sub hsub id hid, (R.submit_eq B P sub).1]

/-- **Any order.** Such a batch may be submitted in any order: the store is
the same and so are the receipts, which only change places. -/
theorem batch_any_order (hR : Reachable B P R) (hb : Batch B subs) (hperm : subs.Perm subs') :
    (R.submitAll B P subs).store = (R.submitAll B P subs').store ∧
      (R.submitAll B P subs).accepted.Perm (R.submitAll B P subs').accepted := by
  obtain ⟨hstore, haccepted⟩ := R.submitAll_eq B P subs
  obtain ⟨hstore', haccepted'⟩ := R.submitAll_eq B P subs'
  obtain ⟨hsame, hreceipts⟩ := runAll_perm hperm
    (fun sub hsub => scoped_submit (P := P) (hb.1 sub hsub)) hb.2 (Reachable.historied hR)
  rw [hstore, hstore', haccepted, haccepted']
  exact ⟨hsame, hreceipts.append_left R.accepted⟩

theorem Submission.independent_of_access {a b : Submission}
    (ha : ∀ p ∈ a.access, p.2 = .write → p.1 ∉ b.access.map Prod.fst)
    (hb : ∀ p ∈ b.access, p.2 = .write → p.1 ∉ a.access.map Prod.fst) :
    Independent Submission.reads Submission.writes a b :=
  ⟨fun _ hk => ha _ hk rfl, fun _ hk => hb _ hk rfl⟩

end Batches

namespace Sample

/-- The first player re-locks its account, and the second one withdraws. -/
def rotating : Submission :=
  { submission [(0, 0x01, aliceKey)] [.updateUserLock 0 .unlocked] with
    access := [(aliceId, .write)] }

def leaving : Submission :=
  { submission [] [.withdraw 1 0 5000 (.pubKey aliceKey)] with
    access := [(configId, .read), (bobId, .write)] }

theorem batch_leaving : Batch .plain [rotating, leaving] := by
  constructor
  · intro sub hsub
    simp only [List.mem_cons, List.not_mem_nil, or_false] at hsub
    rcases hsub with rfl | rfl
    · exact ⟨by decide +kernel, by decide +kernel⟩
    · exact ⟨by decide +kernel, by decide +kernel⟩
  · refine List.pairwise_pair.mpr (Submission.independent_of_access ?_ ?_)
    · decide +kernel
    · decide +kernel

end Sample

theorem batch_runs_alone_leaving :
    (Sample.opened.submitAll .plain Sample.policy [Sample.rotating, Sample.leaving]).accepted
        = Sample.opened.accepted ++ [Sample.rotating, Sample.leaving].filterMap
          (Sample.opened.receipt .plain Sample.policy) ∧
      (Sample.opened.submitAll .plain Sample.policy [Sample.rotating, Sample.leaving]).store
          Sample.bobId
        = (Sample.opened.submit .plain Sample.policy Sample.leaving).store Sample.bobId := by
  obtain ⟨hreceipts, hwrote, -⟩ :=
    batch_runs_alone Sample.reachable_opened Sample.batch_leaving
  refine ⟨hreceipts, hwrote Sample.leaving (List.mem_cons_of_mem _ List.mem_cons_self) _ ?_⟩
  exact List.mem_cons_of_mem _ List.mem_cons_self

theorem batch_any_order_leaving :
    (Sample.opened.submitAll .plain Sample.policy [Sample.rotating, Sample.leaving]).store
      = (Sample.opened.submitAll .plain Sample.policy [Sample.leaving, Sample.rotating]).store :=
  (batch_any_order Sample.reachable_opened Sample.batch_leaving (List.Perm.swap _ _ _)).1

end TicTacToe
