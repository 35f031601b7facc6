/-
TicTacToe.Ledger.Transaction — a transaction is a run of the ledger
machine.

`RunInv` is what holds between two actions: the resources are coherent and
stand for a ledger that the actions applied so far lead to, the sinks hold
what those actions say. `wp_runAction` preserves it, and the rest is
induction over the actions; no exit is a panic.

No `sorry`, no `axiom`, no `native_decide`.
-/
import TicTacToe.Ledger.Games
import TicTacToe.Ledger.Effects
import TicTacToe.Run

namespace TicTacToe

open Lib

/-- The exits and consumed outputs an action accounts for. -/
def ActionBody.exits : ActionBody → List Exit
  | .withdraw _ _ amount dest => [⟨dest, amount⟩]
  | _ => []

def ActionBody.outputs : ActionBody → List UInt32
  | .deposit _ _ outputIdx _ => [outputIdx]
  | _ => []

section Flows

variable {B : Battery} {P : DepositPolicy} {cx : ApplyContext} {L L' : Ledger} {a : ActionBody}
  {flow : Flow}

theorem GameMove.no_flow {gid : ResourceId} {g g' : GameBody}
    (h : GameMove B cx L a gid g g') : a.exits = [] ∧ a.outputs = [] := by
  cases h <;> exact ⟨rfl, rfl⟩

theorem LedgerStep.exits (h : LedgerStep B P cx L a flow L') : flow.exits = a.exits := by
  cases h with
  | play hmove | finish hmove => exact hmove.no_flow.1.symm
  | _ => rfl

theorem LedgerStep.outputs (h : LedgerStep B P cx L a flow L') : flow.outputs = a.outputs := by
  cases h with
  | play hmove | finish hmove => exact hmove.no_flow.2.symm
  | _ => rfl

/-- An output is only consumed once. -/
theorem LedgerStep.outputs_fresh (h : LedgerStep B P cx L a flow L') :
    ∀ o ∈ a.outputs, o ∉ cx.consumedOutputs := by
  intro o ho
  cases h with
  | depositCreate hnew | depositCredit hnew =>
    rw [List.mem_singleton.mp ho]
    exact hnew
  | play hmove | finish hmove =>
    rw [hmove.no_flow.2] at ho
    cases ho
  | _ => cases ho

theorem LedgerStep.outputs_nodup (h : LedgerStep B P cx L a flow L')
    (hn : cx.consumedOutputs.Nodup) : (cx.consumedOutputs ++ a.outputs).Nodup := by
  refine hn.append ?_ fun o ho ho' => h.outputs_fresh o ho' ho
  cases a with
  | deposit => exact List.nodup_singleton _
  | _ => exact List.nodup_nil

end Flows

/-! ## Between two actions -/

theorem ApplyContext.sound_of_ledger {B : Battery} {st : Store} {cx : ApplyContext}
    (hc : cx.Coherent) (h : (cx.ledger B st).Sound) : cx.Sound := fun _ _ _ hr hg =>
  h _ _ (ledger_game hc hr hg)

/-- After the actions `as` of a transaction over the store `st`, whose
history is `h`. -/
structure RunInv (B : Battery) (P : DepositPolicy) (st : Store) (h : List Event)
    (cx₀ : ApplyContext) (as : List ActionBody) (cx : ApplyContext) : Prop where
  coherent : cx.Coherent
  ledger : LedgerRun B P (h ++ as.map (⟨cx.tx, ·⟩)) (cx.ledger B st)
  keys : cx.resources.map (fun r => (r.id, r.accessType))
    = cx₀.resources.map (fun r => (r.id, r.accessType))
  tx : cx.tx = cx₀.tx
  context : cx.context = cx₀.context
  exits : cx.exits = cx₀.exits ++ as.flatMap ActionBody.exits
  outputs : cx.consumedOutputs = as.flatMap ActionBody.outputs
  outputs_nodup : cx.consumedOutputs.Nodup
  users : ∀ {id u}, st.ledger B id = .user u →
    ∃ u', cx.ledger B st id = .user u' ∧ u'.initialLockHash = u.initialLockHash

section Runs

variable {B : Battery} {P : DepositPolicy} {st : Store} {h : List Event} {cx₀ cx cx' : ApplyContext}
  {as : List ActionBody} {a : ActionBody} {presig : List UInt8} {s : RunState}

/-- Resolving signers changes no resource. -/
theorem RunInv.withAuth (hi : RunInv B P st h cx₀ as cx) (authCtx : AuthContext) :
    RunInv B P st h cx₀ as { cx with authCtx } :=
  ⟨⟨hi.coherent.nodup, hi.coherent.lifecycle⟩, hi.ledger, hi.keys, hi.tx, hi.context, hi.exits,
    hi.outputs, hi.outputs_nodup, hi.users⟩

theorem RunInv.length (hi : RunInv B P st h cx₀ as cx) :
    cx.resources.length = cx₀.resources.length := by
  have hlen := congrArg List.length hi.keys
  rwa [List.length_map, List.length_map] at hlen

theorem RunInv.sound (hi : RunInv B P st h cx₀ as cx) : cx.Sound :=
  ApplyContext.sound_of_ledger hi.coherent (sound_of_run hi.ledger)

/-- The step lemma: an accepted action extends the run. -/
theorem RunInv.accepted (hi : RunInv B P st h cx₀ as cx) (ha : Accepted B P cx a cx') :
    RunInv B P st h cx₀ (as ++ [a]) cx' := by
  obtain ⟨flow, hstep, hexits, hcons⟩ := ha.step
  have hstep := hstep st
  rw [hstep.exits] at hexits
  rw [hstep.outputs] at hcons
  refine ⟨ha.coherent, ?_, ha.frame.keys.trans hi.keys, ha.frame.tx.trans hi.tx,
    ha.frame.context.trans hi.context, ?_, ?_, ?_, fun {id u} hu => ?_⟩
  · rw [ha.frame.tx, List.map_append, ← List.append_assoc]
    exact hi.ledger.step hstep
  · rw [hexits, hi.exits, List.flatMap_append, List.flatMap_singleton, List.append_assoc]
  · rw [hcons, hi.outputs, List.flatMap_append, List.flatMap_singleton]
  · rw [hcons]
    exact hstep.outputs_nodup hi.outputs_nodup
  · obtain ⟨u₁, hu₁, hilh₁⟩ := hi.users hu
    obtain ⟨u₂, hu₂, hilh₂, -⟩ := (hstep.slot (sound_of_run hi.ledger) id).user_stays hu₁
    exact ⟨u₂, hu₂, hilh₂.trans hilh₁⟩

theorem wp_resolveSigners : wp (resolveSigners B presig)
    (fun _ s' => ∃ authCtx, s'.cx = { s.cx with authCtx }) (fun e _ => e.IsReject) s := by
  simp only [resolveSigners, wp_bind, wp_get]
  cases hres : resolvePending B s.pending s.cx.authCtx (signerContext presig s.cx) s.cx.resources with
  | error e => exact rejects_resolvePending _ _ _ _ e hres
  | ok p => exact ⟨p.2, rfl⟩

theorem wp_retrySigners : wp (retrySigners B presig)
    (fun _ s' => ∃ authCtx, s'.cx = { s.cx with authCtx }) (fun e _ => e.IsReject) s := by
  simp only [retrySigners, wp_bind, wp_get]
  by_cases hp : s.pending = []
  · rw [if_pos hp]
    exact ⟨s.cx.authCtx, rfl⟩
  · rw [if_neg hp]
    exact wp_resolveSigners

theorem wp_runAction (hi : RunInv B P st h cx₀ as s.cx)
    (ha : a.InBounds B cx₀.resources.length) :
    wp (runAction B P presig a) (fun _ s' => RunInv B P st h cx₀ (as ++ [a]) s'.cx)
      (fun e _ => e.IsReject) s := by
  rw [runAction, wp_bind]
  refine wp_mono wp_retrySigners ?_ (fun _ _ h => h)
  rintro - s' ⟨authCtx, hcx⟩
  have hi' := hi.withAuth authCtx
  rw [← hcx] at hi'
  rw [← hi'.length] at ha
  refine (wp_zoom_some RunState.cx).mpr (wp_mono (wp_applyAction hi'.coherent hi'.sound ha) ?_ ?_)
  · exact fun _ cx' hacc => hi'.accepted hacc
  · exact fun _ _ hrej => hrej.1

theorem wp_runActions {bs : List ActionBody} (hi : RunInv B P st h cx₀ as s.cx)
    (hb : ∀ b ∈ bs, b.InBounds B cx₀.resources.length) :
    wp (runActions B P presig bs) (fun _ s' => RunInv B P st h cx₀ (as ++ bs) s'.cx)
      (fun e _ => e.IsReject) s := by
  induction bs generalizing as s with
  | nil =>
    rw [runActions, wp_pure, List.append_nil]
    exact hi
  | cons b rest ih =>
    rw [runActions, wp_bind]
    refine wp_mono (wp_runAction hi (hb b List.mem_cons_self)) ?_ (fun _ _ h => h)
    intro _ s' hi'
    have hrest := ih hi' fun c hc => hb c (List.mem_cons_of_mem b hc)
    rwa [List.append_assoc, List.singleton_append] at hrest

variable (presig) in
theorem wp_runSignersAndActions {bs : List ActionBody} (hi : RunInv B P st h cx₀ [] s.cx)
    (hb : ∀ b ∈ bs, b.InBounds B cx₀.resources.length) :
    wp (runSignersAndActions B P presig bs) (fun _ s' => RunInv B P st h cx₀ bs s'.cx)
      (fun e _ => e.IsReject) s := by
  simp only [runSignersAndActions, wp_bind]
  refine wp_mono wp_resolveSigners ?_ (fun _ _ h => h)
  rintro - s₁ ⟨authCtx, hcx⟩
  have hi₁ := hi.withAuth authCtx
  rw [← hcx] at hi₁
  refine wp_mono (wp_runActions hi₁ hb) ?_ (fun _ _ h => h)
  intro _ s₂ hi₂
  rw [wp_get]
  by_cases hp : s₂.pending ≠ []
  · rw [if_pos hp]
    trivial
  · rw [if_neg hp]
    exact hi₂

/-- Every moment between two actions of a run. -/
theorem RunsTo.inv {s₀ : RunState} (hrun : RunsTo B P presig s₀ as s)
    (hi : RunInv B P st h cx₀ [] s₀.cx) (hb : ∀ b ∈ as, b.InBounds B cx₀.resources.length) :
    RunInv B P st h cx₀ as s.cx := by
  induction hrun with
  | resolved hres =>
    obtain ⟨authCtx, hcx⟩ := wp_resolveSigners.ok hres
    rw [hcx]
    exact hi.withAuth authCtx
  | acted _ hact ih =>
    have hin := ih fun b hm => hb b (List.mem_append_left _ hm)
    exact (wp_runAction hin (hb _ (List.mem_append_right _ (List.mem_singleton_self _)))).ok hact

theorem Applies.inv {s₀ : RunState} (happ : Applies B P presig s₀ as cx)
    (hi : RunInv B P st h cx₀ [] s₀.cx) (hb : ∀ b ∈ as, b.InBounds B cx₀.resources.length) :
    RunInv B P st h cx₀ as cx := by
  obtain ⟨s, s', hrun, hretry, rfl⟩ := happ
  obtain ⟨authCtx, hcx⟩ := wp_retrySigners.ok hretry
  rw [hcx]
  exact (hrun.inv hi hb).withAuth authCtx

end Runs

end TicTacToe
