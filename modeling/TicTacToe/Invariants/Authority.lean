/-
TicTacToe.Invariants.Authority — funds and locks move only under the
owner's authority.

Two parts meet here. `SlotStep` says that a user that loses anything is
named as the spender, with the lock it has at that moment open under the
auth context of that moment; `RunsTo.sourced` says that the keys of that
context all came from signers of the transaction that resolved, however
late, for the index the key is filed under.

No `sorry`, no `axiom`, no `native_decide`.
-/
import TicTacToe.Invariants.Binding

namespace TicTacToe

open Lib

/-- What signers of a run are resolved against: the resources as they were
when it started, or between two of its first actions. -/
def Snapshot (B : Battery) (P : DepositPolicy) (presig : List UInt8) (s₀ : RunState)
    (as : List ActionBody) (ctx : SignerResolveContext) : Prop :=
  ctx = signerContext presig s₀.cx ∨
    ∃ as' s, as' <+: as ∧ RunsTo B P presig s₀ as' s ∧ ctx = signerContext presig s.cx

section Signers

variable {B : Battery} {P : DepositPolicy} {st : Store} {h : List Event} {cx₀ cx : ApplyContext}
  {as : List ActionBody} {presig : List UInt8} {s s₀ : RunState} {signers : List SignerEntry}
  {R : SignerResolveContext → Prop}

/-- The auth context is sourced, and what is pending are signers still. -/
structure SignersOk (B : Battery) (signers : List SignerEntry) (R : SignerResolveContext → Prop)
    (s : RunState) : Prop where
  sourced : Sourced B signers R s.cx.authCtx
  pending : ∀ e ∈ s.pending, e ∈ signers

theorem SignersOk.mono {R' : SignerResolveContext → Prop} (hs : SignersOk B signers R s)
    (hle : ∀ ctx, R ctx → R' ctx) : SignersOk B signers R' s :=
  ⟨hs.sourced.mono hle, hs.pending⟩

theorem wp_resolveSigners_sourced (hs : SignersOk B signers R s)
    (hctx : R (signerContext presig s.cx)) :
    wp (resolveSigners B presig)
      (fun _ s' => SignersOk B signers R s' ∧ ∃ authCtx, s'.cx = { s.cx with authCtx })
      (fun _ _ => True) s := by
  simp only [resolveSigners, wp_bind, wp_get]
  cases hres : resolvePending B s.pending s.cx.authCtx (signerContext presig s.cx)
      s.cx.resources with
  | error e => trivial
  | ok p =>
    obtain ⟨hsourced, hpending⟩ := hs.sourced.resolvePending hs.pending hctx hres
    exact ⟨⟨hsourced, hpending⟩, p.2, rfl⟩

theorem wp_retrySigners_sourced (hs : SignersOk B signers R s)
    (hctx : R (signerContext presig s.cx)) :
    wp (retrySigners B presig)
      (fun _ s' => SignersOk B signers R s' ∧ ∃ authCtx, s'.cx = { s.cx with authCtx })
      (fun _ _ => True) s := by
  simp only [retrySigners, wp_bind, wp_get]
  by_cases hp : s.pending = []
  · rw [if_pos hp]
    exact ⟨hs, s.cx.authCtx, rfl⟩
  · rw [if_neg hp]
    exact wp_resolveSigners_sourced hs hctx

theorem wp_runAction_sourced {a : ActionBody} (hi : RunInv B P st h cx₀ as s.cx)
    (ha : a.InBounds B cx₀.resources.length) (hs : SignersOk B signers R s)
    (hctx : R (signerContext presig s.cx)) :
    wp (runAction B P presig a) (fun _ s' => SignersOk B signers R s') (fun _ _ => True) s := by
  rw [runAction, wp_bind]
  refine wp_mono (wp_retrySigners_sourced hs hctx) ?_ (fun _ _ _ => trivial)
  rintro - s' ⟨hs', authCtx, hcx⟩
  have hi' := hi.withAuth authCtx
  rw [← hcx] at hi'
  rw [← hi'.length] at ha
  refine (wp_zoom_some RunState.cx).mpr (wp_mono (wp_applyAction hi'.coherent hi'.sound ha) ?_ ?_)
  · intro _ cx' hacc
    refine ⟨?_, hs'.pending⟩
    show Sourced B signers R cx'.authCtx
    rw [hacc.frame.authCtx]
    exact hs'.sourced
  · exact fun _ _ _ => trivial

/-- Between any two actions of a run, every key came from a signer. -/
theorem RunsTo.sourced (hrun : RunsTo B P presig s₀ as s)
    (hi : RunInv B P st h cx₀ [] s₀.cx) (hb : ∀ b ∈ as, b.InBounds B cx₀.resources.length)
    (hauth : s₀.cx.authCtx = .default) (hpending : s₀.pending = signers) :
    SignersOk B signers (Snapshot B P presig s₀ as) s := by
  induction hrun with
  | resolved hres =>
    have hstart : SignersOk B signers (Snapshot B P presig s₀ []) s₀ := by
      refine ⟨?_, fun e he => hpending ▸ he⟩
      rw [hauth]
      exact sourced_default
    exact ((wp_resolveSigners_sourced hstart (.inl rfl)).ok hres).1
  | @acted as a s s' hprev hact ih =>
    have hbefore : ∀ b ∈ as, b.InBounds B cx₀.resources.length := fun b hm =>
      hb b (List.mem_append_left _ hm)
    have hlast := hb a (List.mem_append_right _ (List.mem_singleton_self a))
    have hgrown : SignersOk B signers (Snapshot B P presig s₀ (as ++ [a])) s :=
      (ih hbefore).mono fun ctx hctx => hctx.imp id fun ⟨as', s₁, hpre, hto, e⟩ =>
        ⟨as', s₁, hpre.trans (List.prefix_append as [a]), hto, e⟩
    have hnow : Snapshot B P presig s₀ (as ++ [a]) (signerContext presig s.cx) :=
      .inr ⟨as, s, List.prefix_append as [a], hprev, rfl⟩
    exact (wp_runAction_sourced (hprev.inv hi hbefore) hlast hgrown hnow).ok hact

theorem Applies.sourced (happ : Applies B P presig s₀ as cx)
    (hi : RunInv B P st h cx₀ [] s₀.cx) (hb : ∀ b ∈ as, b.InBounds B cx₀.resources.length)
    (hauth : s₀.cx.authCtx = .default) (hpending : s₀.pending = signers) :
    Sourced B signers (Snapshot B P presig s₀ as) cx.authCtx := by
  obtain ⟨s, s', hrun, hretry, rfl⟩ := happ
  have hnow : Snapshot B P presig s₀ as (signerContext presig s.cx) :=
    .inr ⟨as, s, List.prefix_rfl, hrun, rfl⟩
  exact ((wp_retrySigners_sourced (hrun.sourced hi hb hauth hpending) hnow).ok hretry).1.sourced

end Signers

/-! ## Users -/

section Users

variable {B : Battery} {cx : ApplyContext} {L L' : Ledger} {a : ActionBody} {id : ResourceId}

/-- A user loses nothing, or spends. -/
theorem SlotStep.kept_or_spends (h : SlotStep B cx a L L' id) {u : UserBody}
    (hu : L id = .user u) :
    ∃ u', L' id = .user u' ∧ u'.initialLockHash = u.initialLockHash ∧
      (Kept u u' ∨ Spends B cx a id u) := by
  cases h with
  | same e => exact ⟨u, e.trans hu, rfl, .inl (Kept.refl u)⟩
  | kept hold hnew hkept =>
    rw [hu] at hold
    cases hold
    exact ⟨_, hnew, hkept.initialLockHash, .inl hkept⟩
  | spent hold hnew hspends hilh | started hold hnew hspends hilh =>
    rw [hu] at hold
    cases hold
    exact ⟨_, hnew, hilh, .inr hspends⟩
  | config hold | configBorn hold | userBorn hold | gameBorn hold | gameJoined hold
  | gameMoved hold =>
    rw [hu] at hold
    cases hold

end Users

section Authority

variable {B : Battery} {P : DepositPolicy} {R : Rollup} {sub : Submission} {as : List ActionBody}
  {a : ActionBody} {cx cx' : ApplyContext}

/-- The keys filed under the index `i` were produced for it by signers of the
transaction, each resolved against some snapshot of this run. -/
def SignedAt (B : Battery) (P : DepositPolicy) (R : Rollup) (sub : Submission)
    (as : List ActionBody) (cx : ApplyContext) (i : UInt8) : Prop :=
  ∃ ix presig, R.decoded B sub = .ok ix ∧
    payloadPresig sub.tx.payload ix.endOfActionsInIx = .ok presig ∧
    (∀ pk, (i, pk) ∈ cx.authCtx.schnorr → ∃ s ctx, (i, s) ∈ ix.signers ∧
      Snapshot B P presig (R.startOf sub ix.signers) as ctx ∧
      s.resolve B i ctx = .ok (.schnorr pk)) ∧
    ∀ pks pk, (i, pks) ∈ cx.authCtx.multisig → pk ∈ pks → ∃ s ctx ks, (i, s) ∈ ix.signers ∧
      Snapshot B P presig (R.startOf sub ix.signers) as ctx ∧
      s.resolve B i ctx = .ok (.multisig ks) ∧ pk ∈ ks

theorem Rollup.Applying.signed (hR : Reachable B P R) (hn : (sub.access.map Prod.fst).Nodup)
    (happ : R.Applying B P sub as a cx) (i : UInt8) : SignedAt B P R sub as cx i := by
  obtain ⟨ix, presig, hix, hpre, hinit, happ⟩ := happ.exists_run
  have hdec := decodeIx_spec sub.tx.payload.ixData
    (decodes_decodeAction B (R.attach sub).length)
  unfold Rollup.decoded at hix
  rw [hix] at hdec
  obtain ⟨-, hin, -⟩ := hdec
  have hsourced := happ.sourced (Rollup.runInv_start sub hn hR.refines.1 ix.signers)
    (fun b hb => hin b (hinit.subset (List.mem_append_left _ hb))) rfl rfl
  exact ⟨ix, presig, hix, hpre, hsourced.schnorr i, hsourced.multisig i⟩

/-- **Authority.** For every user live before a transaction and every action
that the transaction applies: the user loses nothing, its lock and started
games included, unless the action spends from that user's index, where the
lock the user has at that moment opens, under keys that signers of this
transaction produced for that index. Its birth lock hash never changes. -/
theorem users_keep_or_spend (hR : Reachable B P R) (hn : (sub.access.map Prod.fst).Nodup)
    (happ : R.Applying B P sub as a cx) (hact : applyAction B P a cx = .ok () cx')
    {id : ResourceId} {u₀ : UserBody} (hu₀ : UserBody.fromBytes B (R.store id) = .ok u₀) :
    ∃ u u', cx.ledger B R.store id = .user u ∧ cx'.ledger B R.store id = .user u' ∧
      u.initialLockHash = u₀.initialLockHash ∧ u'.initialLockHash = u.initialLockHash ∧
      (Kept u u' ∨ ∃ i, a.spender = some i ∧ cx.idAt i = some id ∧ Opens B u.lock i cx ∧
        SignedAt B P R sub as cx i) := by
  obtain ⟨hinv, hin⟩ := Rollup.Applying.inv hR hn happ
  obtain ⟨u, hu, hilh⟩ := hinv.users (Slot.parse_eq_user.mpr hu₀)
  have hacc := (wp_applyAction hinv.coherent hinv.sound hin).ok hact
  obtain ⟨flow, hstep, -⟩ := hacc.step
  obtain ⟨u', hu', hilh', heffect⟩ :=
    ((hstep R.store).slot (sound_of_run hinv.ledger) id).kept_or_spends hu
  refine ⟨u, u', hu, hu', hilh, hilh', heffect.imp_right ?_⟩
  rintro ⟨i, hspender, hid, hopens⟩
  exact ⟨i, hspender, hid, hopens, Rollup.Applying.signed hR hn happ i⟩

theorem users_keep_or_spend_withdrawal :
    ∃ cx' u₀, applyAction .plain Sample.policy Sample.withdrawal.2.1 Sample.withdrawal.2.2
        = .ok () cx' ∧
      UserBody.fromBytes .plain (Sample.opened.store Sample.aliceId) = .ok u₀ ∧
      ∃ u u', Sample.withdrawal.2.2.ledger .plain Sample.opened.store Sample.aliceId = .user u ∧
        cx'.ledger .plain Sample.opened.store Sample.aliceId = .user u' ∧
        u.initialLockHash = u₀.initialLockHash ∧ u'.initialLockHash = u.initialLockHash ∧
        (Kept u u' ∨ ∃ i, Sample.withdrawal.2.1.spender = some i ∧
          Sample.withdrawal.2.2.idAt i = some Sample.aliceId ∧
          Opens .plain u.lock i Sample.withdrawal.2.2 ∧
          SignedAt .plain Sample.policy Sample.opened Sample.playing Sample.withdrawal.1
            Sample.withdrawal.2.2 i) := by
  obtain ⟨cx', hact⟩ := Sample.withdrawal_accepted
  obtain ⟨u₀, hu₀⟩ := Sample.opened_alice
  exact ⟨cx', u₀, hact, hu₀, users_keep_or_spend Sample.reachable_opened (Sample.access_nodup _ _)
    Sample.applying_withdrawal hact hu₀⟩

end Authority

end TicTacToe
