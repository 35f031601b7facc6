/-
TicTacToe.Moments — a submission, action by action.

`ActionStep` is one applied action of a submission, on the store that
would be written back at that moment. The moments of a run are chained by
such steps (`Rollup.Applying.steps`, `Rollup.submit_steps`), and each of
them is a step of the ledger machine in the submission's own context
(`ActionStep.ledger`); an invariant that the machine keeps at the score of
the submission therefore holds at every moment of it.

No `sorry`, no `axiom`, no `native_decide`.
-/
import TicTacToe.Rollup

namespace TicTacToe

open Lib

/-- One action of `sub` over `R`, on what would be written back. -/
def Rollup.ActionStep (B : Battery) (P : DepositPolicy) (R : Rollup) (sub : Submission)
    (st st' : Store) : Prop :=
  ∃ (as : List ActionBody) (a : ActionBody) (cx cx' : ApplyContext),
    R.Applying B P sub as a cx ∧ applyAction B P a cx = .ok () cx' ∧
    st = R.store.commit cx.resources ∧ st' = R.store.commit cx'.resources

section Steps

variable {B : Battery} {P : DepositPolicy} {R : Rollup} {sub : Submission} {st st' : Store}

/-- A call of `resolve_pending` moves only the signers. -/
theorem ok_resolveSigners {presig : List UInt8} {s s' : RunState}
    (h : resolveSigners B presig s = .ok () s') :
    resolvePending B s.pending s.cx.authCtx (signerContext presig s.cx) s.cx.resources
        = .ok (s'.pending, s'.cx.authCtx) ∧
      s'.cx = { s.cx with authCtx := s'.cx.authCtx } := by
  obtain ⟨_, _, hget, h⟩ := ok_bind.mp h
  cases hget
  obtain ⟨p, _, hres, h⟩ := ok_bind.mp h
  cases hpend : resolvePending B s.pending s.cx.authCtx (signerContext presig s.cx)
      s.cx.resources with
  | error e =>
    rw [hpend] at hres
    cases hres
  | ok q =>
    rw [hpend] at hres
    cases hres
    cases h
    exact ⟨rfl, rfl⟩

/-- A retry is skipped when nothing is pending. -/
theorem ok_retrySigners {presig : List UInt8} {s s' : RunState}
    (h : retrySigners B presig s = .ok () s') :
    s.pending = [] ∧ s' = s ∨ resolveSigners B presig s = .ok () s' := by
  obtain ⟨_, _, hget, h⟩ := ok_bind.mp h
  cases hget
  by_cases hp : s.pending = []
  · rw [if_pos hp] at h
    cases h
    exact .inl ⟨hp, rfl⟩
  · rw [if_neg hp] at h
    exact .inr h

theorem ok_runAction {presig : List UInt8} {a : ActionBody} {s s' : RunState}
    (h : runAction B P presig a s = .ok () s') : ∃ s₁, retrySigners B presig s = .ok () s₁ ∧
      applyAction B P a s₁.cx = .ok () s'.cx ∧ s'.pending = s₁.pending := by
  obtain ⟨_, s₁, hretry, hzoom⟩ := ok_bind.mp h
  refine ⟨s₁, hretry, ?_⟩
  unfold zoom at hzoom
  cases happ : applyAction B P a s₁.cx with
  | error e cx =>
    simp only [happ] at hzoom
    cases hzoom
  | ok u cx =>
    simp only [happ] at hzoom
    cases hzoom
    exact ⟨rfl, rfl⟩

/-- Up to any moment of an accepted run, the store goes action by action. -/
theorem RunsTo.steps {ix : DecodedIx ActionBody} {presig : List UInt8}
    (hix : R.decoded B sub = .ok ix)
    (hpre : payloadPresig sub.tx.payload ix.endOfActionsInIx = .ok presig)
    {as : List ActionBody} {s : RunState}
    (hrun : RunsTo B P presig (R.startOf sub ix.signers) as s) (has : as <+: ix.actions) :
    Relation.ReflTransGen (R.ActionStep B P sub) R.store (R.store.commit s.cx.resources) := by
  induction hrun with
  | resolved hres =>
    obtain ⟨authCtx, hcx⟩ := wp_resolveSigners.ok hres
    rw [hcx]
    have hattach : R.store.commit (R.attach sub) = R.store := R.commit_attach sub
    show Relation.ReflTransGen _ R.store (R.store.commit (R.attach sub))
    rw [hattach]
  | @acted as a s s' hto hact ih =>
    obtain ⟨s₁, hretry, happly, -⟩ := ok_runAction hact
    obtain ⟨authCtx, hcx⟩ := wp_retrySigners.ok hretry
    have happ : R.Applying B P sub as a s₁.cx :=
      ⟨⟨ix, presig, hix, hpre, has, s, s₁, hto, hretry, rfl⟩⟩
    have hsame : s₁.cx.resources = s.cx.resources := by rw [hcx]
    have hprev := ih ((List.prefix_append as [a]).trans has)
    refine hprev.tail ⟨as, a, s₁.cx, s'.cx, happ, happly, ?_, rfl⟩
    rw [hsame]

/-- The store an action is applied to was reached action by action. -/
theorem Rollup.Applying.steps {as : List ActionBody} {a : ActionBody} {cx : ApplyContext}
    (h : R.Applying B P sub as a cx) :
    Relation.ReflTransGen (R.ActionStep B P sub) R.store (R.store.commit cx.resources) := by
  obtain ⟨ix, presig, hix, hpre, hinit, s, s', hto, hretry, rfl⟩ := h.exists_run
  obtain ⟨authCtx, hcx⟩ := wp_retrySigners.ok hretry
  have hsteps := hto.steps hix hpre ((List.prefix_append as [a]).trans hinit)
  have hsame : s'.cx.resources = s.cx.resources := by rw [hcx]
  rwa [hsame]

/-- What an accepted submission leaves, it reached by its actions. -/
theorem Rollup.runOn_runsTo {cx : ApplyContext} (hrun : R.runOn B P sub = .ok cx) :
    ∃ ix presig s, R.decoded B sub = .ok ix ∧
      payloadPresig sub.tx.payload ix.endOfActionsInIx = .ok presig ∧
      RunsTo B P presig (R.startOf sub ix.signers) ix.actions s ∧ s.pending = [] ∧ s.cx = cx := by
  have hdec := decodeIx_spec sub.tx.payload.ixData
    (decodes_decodeAction B (R.attach sub).length)
  unfold Rollup.runOn at hrun
  cases hix : decodeIx sub.tx.payload.ixData (R.attach sub).length (decodeAction B) with
  | error e =>
    rw [run_of_undecoded hix] at hrun
    cases hrun
  | ok ix =>
    rw [hix] at hdec
    obtain ⟨presig, hpre⟩ := payloadPresig_ok hdec.2.2
    rw [run_of_decoded hix hpre] at hrun
    cases hacts : runSignersAndActions B P presig ix.actions (R.startOf sub ix.signers) with
    | error e s =>
      simp only [Rollup.startOf] at hacts
      simp only [hacts] at hrun
      cases hrun
    | ok u s =>
      have hcx : s.cx = cx := by
        have hacts' := hacts
        simp only [Rollup.startOf] at hacts'
        simp only [hacts'] at hrun
        exact Except.ok.inj hrun
      obtain ⟨_, s₁, hres, hrest⟩ := ok_bind.mp hacts
      obtain ⟨_, s₂, hactions, hend⟩ := ok_bind.mp hrest
      have hto := (RunsTo.resolved hres).runActions hactions
      rw [List.nil_append] at hto
      have hlast : s₂ = s ∧ s₂.pending = [] := by
        obtain ⟨_, s₃, hget, hcheck⟩ := ok_bind.mp hend
        cases hget
        split at hcheck
        · exact (ok_throw.mp hcheck).elim
        · rename_i hnone
          exact ⟨(ok_pure.mp hcheck).2, not_not.mp hnone⟩
      refine ⟨ix, presig, s₂, hix, hpre, hto, hlast.2, ?_⟩
      rw [hlast.1, hcx]

/-- A submission goes action by action. -/
theorem Rollup.submit_steps :
    Relation.ReflTransGen (R.ActionStep B P sub) R.store (R.submit B P sub).store := by
  unfold Rollup.submit
  cases hix : R.decoded B sub with
  | error e => exact .refl
  | ok ix =>
    cases hrun : R.runOn B P sub with
    | error e => exact .refl
    | ok cx =>
      obtain ⟨ix', presig, s, hix', hpre, hto, -, rfl⟩ := Rollup.runOn_runsTo hrun
      exact hto.steps hix' hpre List.prefix_rfl

/-- A step of a submission is a step of the ledger machine, at the score of
the submission. -/
theorem Rollup.ActionStep.ledger (hR : Reachable B P R) (hn : (sub.access.map Prod.fst).Nodup)
    (h : R.ActionStep B P sub st st') :
    ∃ cx a flow, cx.context = sub.context ∧ (st.ledger B).Sound ∧
      LedgerStep B P cx (st.ledger B) a flow (st'.ledger B) := by
  obtain ⟨as, a, cx, cx', happ, hact, rfl, rfl⟩ := h
  obtain ⟨hinv, hin⟩ := Rollup.Applying.inv hR hn happ
  have hacc := (wp_applyAction hinv.coherent hinv.sound hin).ok hact
  obtain ⟨flow, hstep, -, -⟩ := hacc.step
  exact ⟨cx, a, flow, hinv.context, sound_of_run hinv.ledger, hstep R.store⟩

/-- An invariant of the ledger machine at one score holds at every moment of
a submission of that score. -/
theorem Rollup.ActionStep.preserves {I : Ledger → Prop} (hR : Reachable B P R)
    (hn : (sub.access.map Prod.fst).Nodup)
    (hstep : ∀ cx a flow L L', cx.context = sub.context → L.Sound →
      LedgerStep B P cx L a flow L' → I L → I L')
    (h : Relation.ReflTransGen (R.ActionStep B P sub) st st') (hI : I (st.ledger B)) :
    I (st'.ledger B) := by
  induction h with
  | refl => exact hI
  | tail _ hone ih =>
    obtain ⟨cx, a, flow, hcx, hsound, hledger⟩ := hone.ledger hR hn
    exact hstep cx a flow _ _ hcx hsound hledger ih

end Steps

end TicTacToe
