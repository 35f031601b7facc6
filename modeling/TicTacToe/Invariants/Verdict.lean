/-
TicTacToe.Invariants.Verdict — when a transaction is refused for a signer
that never resolved.

A sig-pointer signer waits until its resource holds a lock, which a user or
a config does. The signers still waiting are looked for before each action,
and after the last action no more: `pending_after` says what is pending
then, and `verdict_exact` that the final check gives the verdict on the
final resources unless the last action bore the last missing lock.

No `sorry`, no `axiom`, no `native_decide`.
-/
import TicTacToe.Invariants.Binding
import TicTacToe.Moments

namespace TicTacToe

open Lib
open Function (update update_self update_of_ne)

/-! ## The slots that hold a lock -/

/-- User or config data. -/
def Slot.bears : Slot → Bool
  | .user _ | .config _ => true
  | _ => false

/-- The index is of a resource with user or config data. -/
def HoldsLock (B : Battery) (resources : List Resource) (i : UInt8) : Prop :=
  ∃ r, resources[i.toNat]? = some r ∧ (Slot.parse B r.data).bears = true

/-- A sig-pointer signer over a resource without user or config data. -/
def Unresolvable (B : Battery) (resources : List Resource) (e : SignerEntry) : Prop :=
  e.2.gated = true ∧ ¬ HoldsLock B resources e.1

/-- The index at which `a` may bring a user or the config to life. -/
def ActionBody.births (P : DepositPolicy) : ActionBody → Option UInt8
  | .init i .. => some i
  | .transfer _ d _ _ => some d
  | .deposit ui _ oi lock => (P.creditTarget ⟨ui, oi, lock⟩).toOption.map CreditTarget.userIdx
  | _ => none

section Slots

variable {B : Battery} {P : DepositPolicy} {cx : ApplyContext} {L L' : Ledger} {a : ActionBody}
  {flow : Flow}

theorem lockBearing_iff {resources : List Resource} {i : UInt8}
    (hp : ∀ r ∈ resources, Slot.parse B r.data ≠ .junk) :
    lockBearing resources i = true ↔ HoldsLock B resources i := by
  unfold lockBearing HoldsLock
  cases hr : resources[i.toNat]? with
  | none => simp
  | some r =>
    have hparse := hp r (List.mem_of_getElem? hr)
    have hkind : ∀ {k : Kind} {xs : List UInt8}, r.data = k.toByte :: xs →
        r.data.head?.bind Kind.tryFrom = some k := fun hd => by
      rw [hd]
      exact Kind.tryFrom_eq_some.mpr rfl
    cases hslot : Slot.parse B r.data with
    | junk => exact absurd hslot hparse
    | empty => simp [Slot.parse_eq_empty.mp hslot, Slot.bears, Slot.parse]
    | config c =>
      have hd := (ConfigBody.fromBytes_ok.mp (Slot.parse_eq_config.mp hslot)).1
      simp [hkind hd, hslot, Slot.bears]
    | user u =>
      have hd := (UserBody.fromBytes_ok.mp (Slot.parse_eq_user.mp hslot)).1
      simp [hkind hd, hslot, Slot.bears]
    | game g =>
      have hd := GameBody.fromBytes_ok.mp (Slot.parse_eq_game.mp hslot)
      simp [hkind hd, hslot, Slot.bears]

/-- Rewriting a slot with one that bears a lock as it did. -/
theorem bears_update {id : ResourceId} {s : Slot} (h : s.bears = (L id).bears) (j : ResourceId) :
    (update L id s j).bears = (L j).bears := by
  by_cases hj : j = id
  · subst hj
    rw [update_self, h]
  · rw [update_of_ne hj]

theorem bears_born {id : ResourceId} {s : Slot} (hs : s.bears = true) (he : L id = .empty)
    (j : ResourceId) :
    (update L id s j).bears = true ↔ (L j).bears = true ∨ (L j = .empty ∧ j = id) := by
  by_cases hj : j = id
  · subst hj
    simp [hs, he]
  · simp [hj]

theorem Settlement.bears {g : GameBody} (h : Settlement L g L') (j : ResourceId) :
    (L' j).bears = (L j).bears := by
  cases h with
  | paid _ _ hu₀ _ hu₁ _ =>
    rw [bears_update (by rw [hu₁]; rfl), bears_update (by rw [hu₀]; rfl)]

theorem GameMove.no_births {gid : ResourceId} {g g' : GameBody} (h : GameMove B cx L a gid g g') :
    a.births P = none := by
  cases h <;> rfl

/-- **Births.** The slots with a lock after an action are those with one
before, and the empty slot at the index it gives birth at. -/
theorem LedgerStep.bears (h : LedgerStep B P cx L a flow L') (j : ResourceId) :
    (L' j).bears = true ↔ (L j).bears = true ∨
      (L j = .empty ∧ ∃ i, a.births P = some i ∧ cx.idAt i = some j) := by
  -- no birth: the slots written held what they held
  have hkeep : (L' j).bears = (L j).bears → (∀ i, a.births P = some i → cx.idAt i = some j →
      L j ≠ .empty) → ((L' j).bears = true ↔ (L j).bears = true ∨
      (L j = .empty ∧ ∃ i, a.births P = some i ∧ cx.idAt i = some j)) := by
    intro heq hno
    rw [heq]
    constructor
    · exact Or.inl
    · intro hor
      rcases hor with hold | ⟨he, i, hi, hat⟩
      · exact hold
      · exact absurd he (hno i hi hat)
  -- a birth at `i`, whose id was empty
  have hborn : ∀ {i : UInt8} {id : ResourceId}, a.births P = some i → cx.idAt i = some id →
      ((L' j).bears = true ↔ (L j).bears = true ∨ (L j = .empty ∧ j = id)) →
      ((L' j).bears = true ↔ (L j).bears = true ∨
        (L j = .empty ∧ ∃ i, a.births P = some i ∧ cx.idAt i = some j)) := by
    intro i id hb hid hiff
    rw [hiff]
    refine or_congr_right (and_congr_right fun _ => ?_)
    constructor
    · intro e
      exact ⟨i, hb, e ▸ hid⟩
    · intro ⟨i', hb', hid'⟩
      rw [hb] at hb'
      cases hb'
      rw [hid] at hid'
      exact (Option.some.inj hid').symm
  have hslot : ∀ {id : ResourceId} {s : Slot} {i : UInt8}, L id = s → s ≠ .empty →
      cx.idAt i = some id → ∀ {i' : UInt8}, some i = some i' → cx.idAt i' = some j →
      L j ≠ .empty := by
    intro id s i hs hne hi i' e hi'
    cases e
    rw [hi] at hi'
    cases hi'
    rwa [hs]
  cases h with
  | update _ hold _ _ => exact hkeep (bears_update (by rw [hold]; rfl) j) (by intro i e; cases e)
  | init hid hold _ _ => exact hborn rfl hid (bears_born rfl hold j)
  | transfer _ hdst hne hsrc _ _ hold _ =>
    refine hkeep ?_ (fun i e => hslot hold (by simp) hdst e)
    rw [bears_update (by rw [update_of_ne hne.symm, hold]; rfl), bears_update (by rw [hsrc]; rfl)]
  | transferCreate _ hdst hne hsrc _ _ hold _ _ _ =>
    refine hborn rfl hdst ?_
    rw [bears_born rfl (by rw [update_of_ne hne.symm, hold]), bears_update (by rw [hsrc]; rfl)]
    refine or_congr_right (and_congr_left fun e => ?_)
    rw [e, update_of_ne hne.symm]
  | rotate _ hold _ _ => exact hkeep (bears_update (by rw [hold]; rfl) j) (by intro i e; cases e)
  | @depositCreate ui _ oi lock _ _ _ _ target _ _ _ _ _ _ htarget hid hold _ _ _ =>
    refine hborn (i := target.userIdx) ?_ hid (bears_born rfl hold j)
    simp [ActionBody.births, htarget, Except.toOption]
  | @depositCredit ui _ oi lock _ _ _ _ target _ _ _ _ _ _ _ _ htarget hid hold _ _ =>
    refine hkeep (bears_update (by rw [hold]; rfl) j) fun i e => hslot hold (by simp) hid ?_
    rw [← e]
    simp [ActionBody.births, htarget, Except.toOption]
  | withdraw _ _ _ _ hold _ _ =>
    exact hkeep (bears_update (by rw [hold]; rfl) j) (by intro i e; cases e)
  | createGame _ hu _ _ _ _ hempty _ _ _ =>
    refine hkeep ?_ (by intro i e; cases e)
    have hne := ne_of_slot hempty hu (by simp)
    rw [bears_update (by rw [update_of_ne hne, hempty]; rfl), bears_update (by rw [hu]; rfl)]
  | joinGame _ hu _ _ hg _ _ _ =>
    refine hkeep ?_ (by intro i e; cases e)
    have hne := ne_of_slot hg hu (by simp)
    rw [bears_update (by rw [update_of_ne hne, hg]; rfl), bears_update (by rw [hu]; rfl)]
  | play hmove hold _ =>
    refine hkeep (bears_update (by rw [hold]; rfl) j) fun i e => ?_
    rw [hmove.no_births] at e
    cases e
  | finish hmove hold hsettle =>
    refine hkeep ?_ fun i e => ?_
    · rw [hsettle.bears, bears_update (by rw [hold]; rfl)]
    · rw [hmove.no_births] at e
      cases e

end Slots

/-! ## What is pending -/

section Pending

variable {B : Battery} {P : DepositPolicy} {presig : List UInt8} {s₀ s s' : RunState}
  {as : List ActionBody} {a : ActionBody}

/-- The guard of the resolving loop. -/
def waits (resources : List Resource) (e : SignerEntry) : Bool :=
  e.2.gated && !lockBearing resources e.1

theorem resolveEach_still {ctx : SignerResolveContext} {resources : List Resource}
    {pending still : List SignerEntry} {auth auth' : AuthContext}
    (h : resolveEach B ctx resources pending auth = .ok (still, auth')) :
    still = pending.filter (waits resources) := by
  induction pending generalizing auth still with
  | nil =>
    cases h
    rfl
  | cons entry rest ih =>
    unfold resolveEach at h
    split at h
    · rename_i hw
      cases hrec : resolveEach B ctx resources rest auth with
      | error e =>
        rw [hrec] at h
        cases h
      | ok p =>
        rw [hrec] at h
        cases h
        rw [List.filter_cons_of_pos (by exact hw), ← ih hrec]
    · rename_i hw
      cases hone : resolveOne B entry auth ctx with
      | error e =>
        rw [hone] at h
        cases h
      | ok auth₁ =>
        rw [hone] at h
        rw [List.filter_cons_of_neg (by exact hw), ← ih h]

theorem resolveSigners_pending (h : resolveSigners B presig s = .ok () s') :
    s'.cx.resources = s.cx.resources ∧ s'.pending = s.pending.filter (waits s.cx.resources) := by
  obtain ⟨hcall, hcx⟩ := ok_resolveSigners h
  refine ⟨by rw [hcx], ?_⟩
  unfold resolvePending at hcall
  cases heach : resolveEach B (signerContext presig s.cx) s.cx.resources s.pending
      s.cx.authCtx with
  | error e =>
    rw [heach] at hcall
    cases hcall
  | ok r =>
    rw [heach] at hcall
    have hstill : r.1 = s'.pending := congrArg Prod.fst (Except.ok.inj hcall)
    rw [← hstill]
    exact resolveEach_still heach

theorem retrySigners_pending (h : retrySigners B presig s = .ok () s') :
    s'.cx.resources = s.cx.resources ∧ s'.pending = s.pending.filter (waits s.cx.resources) := by
  rcases ok_retrySigners h with ⟨hp, rfl⟩ | hres
  · rw [hp]
    exact ⟨rfl, rfl⟩
  · exact resolveSigners_pending hres

/-- An action leaves pending what waits before it. -/
theorem runAction_pending (h : runAction B P presig a s = .ok () s') :
    s'.pending = s.pending.filter (waits s.cx.resources) := by
  obtain ⟨s₁, hretry, -, hpend⟩ := ok_runAction h
  rw [hpend]
  exact (retrySigners_pending hretry).2

theorem runActions_append {bs : List ActionBody} (h : runActions B P presig as s₀ = .ok () s) :
    runActions B P presig (as ++ bs) s₀ = runActions B P presig bs s := by
  induction as generalizing s₀ with
  | nil =>
    obtain ⟨-, rfl⟩ := ok_pure.mp h
    rfl
  | cons a as ih =>
    obtain ⟨_, s₁, hact, hrest⟩ := ok_bind.mp h
    show (runAction B P presig a >>= fun _ => runActions B P presig (as ++ bs)) s₀ = _
    simp only [bind, EStateM.bind, hact]
    exact ih hrest

/-- The moment after `as` is what running `as` computes. -/
theorem RunsTo.eval (h : RunsTo B P presig s₀ as s) :
    ∃ s₁, resolveSigners B presig s₀ = .ok () s₁ ∧
      TicTacToe.runActions B P presig as s₁ = .ok () s := by
  induction h with
  | resolved hres => exact ⟨_, hres, rfl⟩
  | @acted as a s s' _ hact ih =>
    obtain ⟨s₁, hres, hrun⟩ := ih
    refine ⟨s₁, hres, ?_⟩
    rw [runActions_append hrun]
    exact ok_bind.mpr ⟨(), s', hact, rfl⟩

theorem RunsTo.unique (h : RunsTo B P presig s₀ as s) (h' : RunsTo B P presig s₀ as s') :
    s = s' := by
  obtain ⟨s₁, hres, hrun⟩ := h.eval
  obtain ⟨s₁', hres', hrun'⟩ := h'.eval
  rw [hres] at hres'
  cases hres'
  rw [hrun] at hrun'
  cases hrun'
  rfl

theorem RunsTo.last (h : RunsTo B P presig s₀ (as ++ [a]) s) :
    ∃ s₁, RunsTo B P presig s₀ as s₁ ∧ runAction B P presig a s₁ = .ok () s := by
  generalize hl : as ++ [a] = l at h
  cases h with
  | resolved _ => exact absurd hl (by simp)
  | acted hto hact =>
    obtain ⟨rfl, e⟩ := List.append_inj' hl rfl
    cases e
    exact ⟨_, hto, hact⟩

theorem RunsTo.first (h : RunsTo B P presig s₀ [] s) : resolveSigners B presig s₀ = .ok () s := by
  generalize hl : [] = l at h
  cases h with
  | resolved hres => exact hres
  | acted _ _ => exact absurd hl.symm (by simp)

/-- The final check refuses exactly when a signer is pending. -/
theorem RunsTo.verdict {actions : List ActionBody} (h : RunsTo B P presig s₀ actions s) :
    runSignersAndActions B P presig actions s₀
      = if s.pending ≠ [] then .error (.decode "signer: unknown or absent resource kind") s
        else .ok () s := by
  obtain ⟨s₁, hres, hrun⟩ := h.eval
  unfold runSignersAndActions
  simp only [bind, EStateM.bind, hres, hrun]
  show (if s.pending ≠ [] then _ else _ : RunM Unit) s = _
  split <;> rfl

end Pending

/-! ## The run of a submission -/

/-- The last action to run brings the resource at `i` to life. -/
def Births (P : DepositPolicy) (cx : ApplyContext) (a : ActionBody) (i : UInt8) : Prop :=
  a.births P = some i ∧ ∃ r, cx.resources[i.toNat]? = some r ∧ r.data = []

/-- Before the last action a signer still waits, and the last action brings
to life every resource a signer waits for. -/
def LateBirth (B : Battery) (P : DepositPolicy) (presig : List UInt8) (s₀ : RunState)
    (actions : List ActionBody) : Prop :=
  ∃ (as : List ActionBody) (a : ActionBody) (s₁ : RunState), actions = as ++ [a] ∧
    RunsTo B P presig s₀ as s₁ ∧
    (∃ e ∈ s₀.pending, Unresolvable B s₁.cx.resources e) ∧
    ∀ e ∈ s₀.pending, Unresolvable B s₁.cx.resources e → Births P s₁.cx a e.1

section Submission

variable {B : Battery} {P : DepositPolicy} {R : Rollup} {sub : Submission}
  {ix : DecodedIx ActionBody} {presig : List UInt8} {s s' : RunState} {as : List ActionBody}
  {a : ActionBody}

theorem RunInv.parses {st : Store} {h : List Event} {cx₀ cx : ApplyContext}
    (hi : RunInv B P st h cx₀ as cx) : ∀ r ∈ cx.resources, Slot.parse B r.data ≠ .junk := by
  intro r hr
  obtain ⟨i, hi'⟩ := List.getElem?_of_mem hr
  rw [← ApplyContext.ledger_apply st hi.coherent hi']
  exact (bound_of_run hi.ledger).parses r.id

theorem waits_iff {st : Store} {h : List Event} {cx₀ cx : ApplyContext}
    (hi : RunInv B P st h cx₀ as cx) (e : SignerEntry) :
    waits cx.resources e = true ↔ Unresolvable B cx.resources e := by
  unfold waits Unresolvable
  rw [← lockBearing_iff hi.parses]
  simp

/-- An accepted action in terms of the resources: locks stay, and a birth
adds one. -/
theorem Accepted.holdsLock {cx cx' : ApplyContext} (hc : cx.Coherent)
    (h : Accepted B P cx a cx') (i : UInt8) :
    HoldsLock B cx'.resources i ↔ HoldsLock B cx.resources i ∨ Births P cx a i := by
  obtain ⟨flow, hstep, -, -⟩ := h.step
  have hkey : (cx'.resources[i.toNat]?).map (fun r => (r.id, r.accessType))
      = (cx.resources[i.toNat]?).map (fun r => (r.id, r.accessType)) := by
    rw [← List.getElem?_map, ← List.getElem?_map, h.frame.keys]
  unfold HoldsLock Births
  cases hr : cx.resources[i.toNat]? with
  | none =>
    rw [hr] at hkey
    have hnone : cx'.resources[i.toNat]? = none := by simpa using hkey
    simp [hnone]
  | some r =>
    rw [hr] at hkey
    obtain ⟨r', hr', hsame⟩ := Option.map_eq_some_iff.mp hkey
    have hid : r'.id = r.id := congrArg Prod.fst hsame
    have hold := ApplyContext.ledger_apply (B := B) (fun _ => []) hc hr
    have hnew := ApplyContext.ledger_apply (B := B) (fun _ => []) h.coherent hr'
    have hbears := (hstep fun _ => []).bears r.id
    rw [← hid, hnew, hid, hold] at hbears
    simp only [hr', Option.some.injEq, exists_eq_left', hbears, Slot.parse_eq_empty]
    refine or_congr_right ?_
    constructor
    · intro ⟨hempty, j, hj, hat⟩
      obtain ⟨q, hq, hqid⟩ := Option.map_eq_some_iff.mp hat
      have hij := UInt8.toNat_inj.mp (index_unique hc.nodup hq hr hqid)
      exact ⟨hij ▸ hj, hempty⟩
    · intro ⟨hj, hempty⟩
      exact ⟨hempty, i, hj, ApplyContext.idAt_of hr⟩

theorem RunsTo.runInv (hR : Reachable B P R) (hn : (sub.access.map Prod.fst).Nodup)
    (hix : R.decoded B sub = .ok ix) (hto : RunsTo B P presig (R.startOf sub ix.signers) as s)
    (has : as <+: ix.actions) :
    RunInv B P R.store R.events (R.startOf sub ix.signers).cx as s.cx ∧
      ∀ b ∈ ix.actions, b.InBounds B s.cx.resources.length := by
  have hdec := decodeIx_spec sub.tx.payload.ixData (decodes_decodeAction B (R.attach sub).length)
  unfold Rollup.decoded at hix
  rw [hix] at hdec
  have hinv := hto.inv (Rollup.runInv_start sub hn hR.refines.1 ix.signers)
    fun b hb => hdec.2.1 b (has.subset hb)
  refine ⟨hinv, ?_⟩
  rw [hinv.length]
  exact hdec.2.1

/-- One more action of a submission. -/
theorem RunsTo.holdsLock (hR : Reachable B P R) (hn : (sub.access.map Prod.fst).Nodup)
    (hix : R.decoded B sub = .ok ix) (hto : RunsTo B P presig (R.startOf sub ix.signers) as s)
    (has : as ++ [a] <+: ix.actions) (hact : runAction B P presig a s = .ok () s') (i : UInt8) :
    HoldsLock B s'.cx.resources i ↔ HoldsLock B s.cx.resources i ∨ Births P s.cx a i := by
  obtain ⟨hinv, hin⟩ := hto.runInv hR hn hix ((List.prefix_append as [a]).trans has)
  obtain ⟨s₁, hretry, happly, -⟩ := ok_runAction hact
  obtain ⟨authCtx, hcx⟩ := wp_retrySigners.ok hretry
  have hinv₁ := hinv.withAuth authCtx
  have hsame : s₁.cx.resources = s.cx.resources := by rw [hcx]
  have hb := hin a (has.subset (List.mem_append_right _ (List.mem_singleton_self a)))
  rw [← hcx] at hinv₁
  rw [← hsame] at hb
  have hacc := (wp_applyAction hinv₁.coherent hinv₁.sound hb).ok happly
  have hholds := hacc.holdsLock hinv₁.coherent i
  unfold Births at hholds ⊢
  rwa [hsame] at hholds

/-- What is pending at a moment waited at an earlier one. -/
theorem RunsTo.pending_filter (hR : Reachable B P R) (hn : (sub.access.map Prod.fst).Nodup)
    (hix : R.decoded B sub = .ok ix) (hto : RunsTo B P presig (R.startOf sub ix.signers) as s)
    (has : as <+: ix.actions) :
    ∃ resources, s.pending = ix.signers.filter (waits resources) ∧
      ∀ e, waits s.cx.resources e = true → waits resources e = true := by
  induction hto with
  | @resolved s hres =>
    obtain ⟨hsame, hpend⟩ := resolveSigners_pending hres
    refine ⟨(R.startOf sub ix.signers).cx.resources, hpend, fun e he => ?_⟩
    rwa [hsame] at he
  | @acted as a s s' hto hact ih =>
    have hprev := (List.prefix_append as [a]).trans has
    obtain ⟨resources, hpend, hmono⟩ := ih hprev
    refine ⟨s.cx.resources, ?_, fun e he => ?_⟩
    · rw [runAction_pending hact, hpend, List.filter_filter]
      refine List.filter_congr fun e _ => ?_
      cases hw : waits s.cx.resources e with
      | false => simp
      | true => simp [hmono e hw]
    · rw [waits_iff ((hto.acted hact).runInv hR hn hix has).1] at he
      rw [waits_iff (hto.runInv hR hn hix hprev).1]
      refine ⟨he.1, fun hold => he.2 ?_⟩
      exact (hto.holdsLock hR hn hix has hact e.1).mpr (.inl hold)

/-- What is pending after an action is what waited before it. -/
theorem RunsTo.pending_after (hR : Reachable B P R) (hn : (sub.access.map Prod.fst).Nodup)
    (hix : R.decoded B sub = .ok ix) (hto : RunsTo B P presig (R.startOf sub ix.signers) as s)
    (has : as <+: ix.actions) (hact : runAction B P presig a s = .ok () s') :
    s'.pending = ix.signers.filter (waits s.cx.resources) := by
  obtain ⟨resources, hpend, hmono⟩ := hto.pending_filter hR hn hix has
  rw [runAction_pending hact, hpend, List.filter_filter]
  refine List.filter_congr fun e _ => ?_
  cases hw : waits s.cx.resources e with
  | false => simp
  | true => simp [hmono e hw]

theorem Rollup.runOn_verdict (hix : R.decoded B sub = .ok ix)
    (hpre : payloadPresig sub.tx.payload ix.endOfActionsInIx = .ok presig)
    (hto : RunsTo B P presig (R.startOf sub ix.signers) ix.actions s) :
    R.runOn B P sub = .error (.decode "signer: unknown or absent resource kind") ↔
      s.pending ≠ [] := by
  have hv := hto.verdict
  unfold Rollup.startOf at hv
  unfold Rollup.runOn
  rw [run_of_decoded hix hpre, hv]
  by_cases hp : s.pending = []
  · simp [hp]
  · simp [hp]

theorem filter_waits_ne_nil {st : Store} {h : List Event} {cx₀ cx : ApplyContext}
    (hi : RunInv B P st h cx₀ as cx) (signers : List SignerEntry) :
    signers.filter (waits cx.resources) ≠ [] ↔ ∃ e ∈ signers, Unresolvable B cx.resources e := by
  rw [ne_eq, List.filter_eq_nil_iff]
  simp only [waits_iff hi, not_forall, not_not, exists_prop]

/-- **Verdict.** A transaction whose actions all succeed is refused for an
unresolved signer exactly when some sig-pointer signer is over a resource
without user or config data at the end, unless its last action brings to life
all that the signers still wait for: it is then refused for nothing. -/
theorem verdict_exact (hR : Reachable B P R) (hn : (sub.access.map Prod.fst).Nodup)
    (hix : R.decoded B sub = .ok ix)
    (hpre : payloadPresig sub.tx.payload ix.endOfActionsInIx = .ok presig)
    (hto : RunsTo B P presig (R.startOf sub ix.signers) ix.actions s) :
    (R.runOn B P sub = .error (.decode "signer: unknown or absent resource kind") ↔
      ∃ e ∈ ix.signers, Unresolvable B s.cx.resources e) ↔
    ¬ LateBirth B P presig (R.startOf sub ix.signers) ix.actions := by
  rw [Rollup.runOn_verdict hix hpre hto]
  rcases List.eq_nil_or_concat' ix.actions with hnil | ⟨as, a, hlast⟩
  · have hnone : ¬ LateBirth B P presig (R.startOf sub ix.signers) ix.actions := by
      intro ⟨as, a, s₁, hsplit, _⟩
      rw [hnil] at hsplit
      exact absurd hsplit (by simp)
    have hinv := (hto.runInv hR hn hix List.prefix_rfl).1
    rw [hnil] at hto
    obtain ⟨hsame, hpend⟩ := resolveSigners_pending hto.first
    rw [← hsame] at hpend
    rw [hpend]
    exact iff_of_true (filter_waits_ne_nil hinv _) hnone
  · rw [hlast] at hto
    have hall : as ++ [a] <+: ix.actions := hlast ▸ List.prefix_rfl
    have hprev := (List.prefix_append as [a]).trans hall
    obtain ⟨s₁, hto₁, hact⟩ := hto.last
    have hinv₁ := (hto₁.runInv hR hn hix hprev).1
    have hend : ∀ e, Unresolvable B s.cx.resources e ↔
        Unresolvable B s₁.cx.resources e ∧ ¬ Births P s₁.cx a e.1 := by
      intro e
      unfold Unresolvable
      rw [hto₁.holdsLock hR hn hix hall hact e.1, not_or, and_assoc]
    have hlate : LateBirth B P presig (R.startOf sub ix.signers) ix.actions ↔
        (∃ e ∈ ix.signers, Unresolvable B s₁.cx.resources e) ∧
          ∀ e ∈ ix.signers, Unresolvable B s₁.cx.resources e → Births P s₁.cx a e.1 := by
      constructor
      · intro ⟨as', a', s', hsplit, hto', hsome, hall'⟩
        obtain ⟨rfl, e⟩ := List.append_inj' (hlast.symm.trans hsplit) rfl
        cases e
        cases hto₁.unique hto'
        exact ⟨hsome, hall'⟩
      · intro ⟨hsome, hall'⟩
        exact ⟨as, a, s₁, hlast, hto₁, hsome, hall'⟩
    rw [hto₁.pending_after hR hn hix hprev hact, filter_waits_ne_nil hinv₁, hlate]
    constructor
    · intro hlaw ⟨hsome, hborn⟩
      obtain ⟨e, he, hun⟩ := hlaw.mp hsome
      obtain ⟨hun₁, hnot⟩ := (hend e).mp hun
      exact hnot (hborn e he hun₁)
    · intro hnot
      constructor
      · intro hsome
        by_contra hnone
        refine hnot ⟨hsome, fun e he hun₁ => ?_⟩
        by_contra hunborn
        exact hnone ⟨e, he, (hend e).mpr ⟨hun₁, hunborn⟩⟩
      · intro ⟨e, he, hun⟩
        exact ⟨e, he, ((hend e).mp hun).1⟩

end Submission

namespace Sample

/-- A submission run to its end, before the final check. -/
def ended (B : Battery) (P : DepositPolicy) (R : Rollup) (sub : Submission) :
    Option (DecodedIx ActionBody × List UInt8 × RunState) :=
  match R.decoded B sub with
  | .error _ => none
  | .ok ix =>
    match payloadPresig sub.tx.payload ix.endOfActionsInIx with
    | .error _ => none
    | .ok presig =>
      match (resolveSigners B presig >>= fun _ => runActions B P presig ix.actions)
          (R.startOf sub ix.signers) with
      | .ok _ s => some (ix, presig, s)
      | .error _ _ => none

theorem ended_spec {B : Battery} {P : DepositPolicy} {R : Rollup} {sub : Submission}
    {m : DecodedIx ActionBody × List UInt8 × RunState} (h : ended B P R sub = some m) :
    R.decoded B sub = .ok m.1 ∧
      payloadPresig sub.tx.payload m.1.endOfActionsInIx = .ok m.2.1 ∧
      RunsTo B P m.2.1 (R.startOf sub m.1.signers) m.1.actions m.2.2 := by
  unfold ended at h
  cases hix : R.decoded B sub with
  | error e =>
    rw [hix] at h
    cases h
  | ok ix =>
    cases hpre : payloadPresig sub.tx.payload ix.endOfActionsInIx with
    | error e =>
      simp only [hix, hpre] at h
      cases h
    | ok presig =>
      cases hrun : (resolveSigners B presig >>= fun _ =>
          runActions B P presig ix.actions) (R.startOf sub ix.signers) with
      | error e s =>
        simp only [hix, hpre, hrun] at h
        cases h
      | ok u s =>
        simp only [hix, hpre, hrun] at h
        cases h
        obtain ⟨_, s₁, hres, hacts⟩ := ok_bind.mp hrun
        exact ⟨rfl, hpre, (RunsTo.resolved hres).runActions hacts⟩

/-- The config is set up, and a deposit, the last action, creates the user
that the second signer signs as. -/
def birthLast : Submission :=
  submission [(0, 0x05, genesisKey), (1, 0x01, aliceKey)]
    [.init 0 1000 10 covenant aliceLock, .deposit 1 0 0 aliceLock]

end Sample

/-- All actions succeed and every signer's resource is live at the end, and
still the transaction is refused for an unresolved signer. -/
theorem birthLast_refused :
    ∃ (ix : DecodedIx ActionBody) (presig : List UInt8) (s : RunState),
      Rollup.genesis.decoded .plain Sample.birthLast = .ok ix ∧
      payloadPresig Sample.birthLast.tx.payload ix.endOfActionsInIx = .ok presig ∧
      RunsTo .plain Sample.policy presig (Rollup.genesis.startOf Sample.birthLast ix.signers)
        ix.actions s ∧
      Rollup.genesis.runOn .plain Sample.policy Sample.birthLast
        = .error (.decode "signer: unknown or absent resource kind") ∧
      ¬ ∃ e ∈ ix.signers, Unresolvable .plain s.cx.resources e := by
  have hcheck : (Sample.ended .plain Sample.policy .genesis Sample.birthLast).any (fun m =>
      m.2.2.pending.length = 1 ∧ m.1.signers.all fun e => !waits m.2.2.cx.resources e) = true := by
    decide +kernel
  obtain ⟨m, hm, hmoment⟩ := (Option.any_eq_true _ _).mp hcheck
  replace hmoment := of_decide_eq_true hmoment
  obtain ⟨hix, hpre, hto⟩ := Sample.ended_spec hm
  have hinv := (hto.runInv .genesis (Sample.access_nodup _ _) hix List.prefix_rfl).1
  refine ⟨m.1, m.2.1, m.2.2, hix, hpre, hto, (Rollup.runOn_verdict hix hpre hto).mpr ?_, ?_⟩
  · intro hnil
    rw [hnil] at hmoment
    exact absurd hmoment.1 (by simp)
  · intro ⟨e, he, hun⟩
    have hnot := List.all_eq_true.mp hmoment.2 e he
    rw [(waits_iff hinv e).mpr hun] at hnot
    exact absurd hnot (by simp)

/-- The run that opens a game: the births come before its last action. -/
theorem verdict_exact_opening :
    ∃ (ix : DecodedIx ActionBody) (presig : List UInt8) (s : RunState),
      (Rollup.genesis.runOn .plain Sample.policy Sample.opening
          = .error (.decode "signer: unknown or absent resource kind") ↔
        ∃ e ∈ ix.signers, Unresolvable .plain s.cx.resources e) ↔
      ¬ LateBirth .plain Sample.policy presig (Rollup.genesis.startOf Sample.opening ix.signers)
        ix.actions := by
  have hsome : (Sample.ended .plain Sample.policy .genesis Sample.opening).isSome = true := by decide +kernel
  obtain ⟨m, hm⟩ := Option.isSome_iff_exists.mp hsome
  obtain ⟨hix, hpre, hto⟩ := Sample.ended_spec hm
  exact ⟨m.1, m.2.1, m.2.2, verdict_exact .genesis (Sample.access_nodup _ _) hix hpre hto⟩

end TicTacToe
