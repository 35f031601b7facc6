/-
TicTacToe.Invariants.Value — conservation: what users and games hold is
what was deposited and not withdrawn.

An open game holds the creator's stake, a playing one both stakes, a
finished one nothing. `LedgerStep.held` is the step, one equation with no
subtraction; `held_of_run` is the run.

No `sorry`, no `axiom`, no `native_decide`.
-/
import TicTacToe.Lib.Tally
import TicTacToe.Rollup

namespace TicTacToe

open Lib

/-! ## What is held, and what crosses the bridge -/

/-- The sompi a game keeps for its players. -/
def GameBody.pot (g : GameBody) : Nat :=
  match g.state with
  | .open => g.stake.toNat
  | .playing => 2 * g.stake.toNat
  | _ => 0

def Slot.held : Slot → Nat
  | .user u => u.balance.toNat
  | .game g => g.pot
  | _ => 0

/-- All the sompi in a ledger. -/
noncomputable def Ledger.held (L : Ledger) : Nat := tally Slot.held L

/-- The value of the funding output a deposit names. -/
def ActionBody.deposited (B : Battery) (tx : Transaction) : ActionBody → Nat
  | .deposit _ _ outputIdx _ =>
    ((B.parseOutputAtIndexV1 tx.restPreimage outputIdx).map fun out => out.value.toNat).getD 0
  | _ => 0

def Event.deposited (B : Battery) (e : Event) : Nat := e.action.deposited B e.tx

/-- The sum of the amounts of some exits. -/
def exitTotal (exits : List Exit) : Nat := (exits.map fun e => e.amount.toNat).sum

@[simp] theorem exitTotal_nil : exitTotal [] = 0 := rfl

theorem exitTotal_singleton (e : Exit) : exitTotal [e] = e.amount.toNat := Nat.add_zero _

theorem exitTotal_append (es es' : List Exit) :
    exitTotal (es ++ es') = exitTotal es + exitTotal es' := by
  simp only [exitTotal, List.map_append, List.sum_append]

def Event.withdrawn (e : Event) : Nat := exitTotal e.action.exits

/-- Everything a history deposited, and everything it withdrew. -/
def deposits (B : Battery) (h : List Event) : Nat := (h.map (Event.deposited B)).sum

def withdrawals (h : List Event) : Nat := (h.map Event.withdrawn).sum

/-! ## The step -/

theorem payout_add {g : GameBody} (hfin : g.isFinished = true) (stake : Nat) :
    payout g.state stake 0 + payout g.state stake 1 = 2 * stake := by
  unfold GameBody.isFinished at hfin
  cases hs : g.state with
  | first | second => simp [payout]
  | draw => simp [payout]; omega
  | «open» | playing => simp [hs] at hfin

theorem GameBody.pot_finished {g : GameBody} (hfin : g.isFinished = true) : g.pot = 0 := by
  unfold GameBody.isFinished at hfin
  cases hs : g.state with
  | first | second | draw => simp [GameBody.pot, hs]
  | «open» | playing => simp [hs] at hfin

theorem GameBody.pot_playing {g : GameBody} (h : g.state = .playing) : g.pot = 2 * g.stake.toNat := by
  simp only [GameBody.pot, h]

section Step

variable {B : Battery} {P : DepositPolicy} {cx : ApplyContext} {L L' : Ledger} {a : ActionBody}
  {flow : Flow}

theorem Settlement.held {g : GameBody} (h : Settlement L g L') :
    L'.held = L.held + 2 * g.stake.toNat := by
  cases h with
  | @paid u₀ u₀' u₁ u₁' hfin _ hu₀ hpaid₀ hu₁ hpaid₁ =>
    have h₀ := tally_update Slot.held L (g.players 0) (.user u₀')
    have h₁ := tally_update Slot.held (Function.update L (g.players 0) (.user u₀')) (g.players 1)
      (.user u₁')
    have hsum := payout_add hfin g.stake.toNat
    have hb₀ := hpaid₀.balance
    have hb₁ := hpaid₁.balance
    rw [hu₀] at h₀
    rw [hu₁] at h₁
    unfold Ledger.held
    simp only [Slot.held] at h₀ h₁
    omega

theorem GameMove.no_value {gid : ResourceId} {g g' : GameBody} (h : GameMove B cx L a gid g g')
    (tx : Transaction) : a.deposited B tx = 0 ∧ exitTotal a.exits = 0 := by
  cases h <;> exact ⟨rfl, rfl⟩

/-- One accepted action conserves value across the bridge. -/
theorem LedgerStep.held (h : LedgerStep B P cx L a flow L') (hs : L.Sound) :
    L'.held + exitTotal a.exits = L.held + a.deposited B cx.tx := by
  unfold Ledger.held
  cases h with
  | @update i min ttl lock id c _ hc =>
    have ht := tally_update Slot.held L id (.config (.withLock min ttl c.covenantId lock))
    simp only [hc, Slot.held] at ht
    simpa [ActionBody.exits, ActionBody.deposited] using ht
  | @init i min ttl cov lock _ he =>
    have ht := tally_update Slot.held L (configResourceId B) (.config (.withLock min ttl cov lock))
    simp only [he, Slot.held] at ht
    simpa [ActionBody.exits, ActionBody.deposited] using ht
  | @transfer s d amount lock src dst u w b b' _ _ hne hu _ hb hw hb' =>
    have ht := tally_update_update Slot.held L hne (.user { u with balance := b })
      (.user { w with balance := b' })
    simp only [hu, hw, Slot.held] at ht
    simp only [ActionBody.exits, ActionBody.deposited, exitTotal_nil]
    omega
  | @transferCreate s d amount lock src dst u b _ _ hne hu _ hb he =>
    have ht := tally_update_update Slot.held L hne (.user { u with balance := b })
      (.user (.withLock amount .default (lock.idHash B) lock))
    simp only [hu, he, Slot.held, UserBody.withLock_balance] at ht
    simp only [ActionBody.exits, ActionBody.deposited, exitTotal_nil]
    omega
  | @rotate i lock id u _ hu =>
    have ht := tally_update Slot.held L id
      (.user (.withLock u.balance u.stats u.initialLockHash lock))
    simp only [hu, Slot.held, UserBody.withLock_balance] at ht
    simp only [ActionBody.exits, ActionBody.deposited, exitTotal_nil]
    omega
  | @depositCreate ui ci oi lock cid id c out target _ _ _ hout _ _ _ _ he =>
    have ht := tally_update Slot.held L id
      (.user (.withLock out.value .default (lock.idHash B) lock))
    simp only [he, Slot.held, UserBody.withLock_balance] at ht
    simp only [ActionBody.exits, exitTotal_nil, ActionBody.deposited, hout, Option.map_some,
      Option.getD_some]
    exact ht
  | @depositCredit ui ci oi lock cid id c out target u b _ _ _ hout _ _ _ _ hu _ hb =>
    have ht := tally_update Slot.held L id (.user { u with balance := b })
    simp only [hu, Slot.held] at ht
    simp only [ActionBody.exits, exitTotal_nil, ActionBody.deposited, hout, Option.map_some,
      Option.getD_some]
    omega
  | @withdraw ui ci amount dest cid id c u b _ _ _ _ hu _ hb =>
    have ht := tally_update Slot.held L id (.user { u with balance := b })
    simp only [hu, Slot.held] at ht
    simp only [ActionBody.exits, ActionBody.deposited, exitTotal_singleton]
    omega
  | @createGame ci gi stake rounds mark id gid u b n _ hu _ hb _ _ he =>
    have hne : id ≠ gid := by
      rintro rfl
      rw [hu] at he
      cases he
    have hpot : (GameBody.fresh id mark stake rounds).pot = stake.toNat := rfl
    have ht := tally_update_update Slot.held L hne (.user { u with balance := b, gamesStarted := n })
      (.game (.fresh id mark stake rounds))
    simp only [hu, he, Slot.held, hpot] at ht
    simp only [ActionBody.exits, ActionBody.deposited, exitTotal_nil]
    omega
  | @joinGame gi ji id gid u g b _ hu _ _ hg hopen _ hb =>
    have hne : id ≠ gid := by
      rintro rfl
      rw [hu] at hg
      cases hg
    have hpot : g.pot = g.stake.toNat := by simp only [GameBody.pot, hopen]
    have hpot' : (g.seatJoiner id cx.context.daaScore).pot = 2 * g.stake.toNat :=
      GameBody.pot_playing rfl
    have ht := tally_update_update Slot.held L hne (.user { u with balance := b })
      (.game (g.seatJoiner id cx.context.daaScore))
    simp only [hu, hg, Slot.held, hpot, hpot'] at ht
    simp only [ActionBody.exits, ActionBody.deposited, exitTotal_nil]
    omega
  | @play _ gid g g' hmove hg hfin =>
    obtain ⟨log, hrun⟩ := hs _ _ hg
    obtain ⟨hplaying, hsame, hopen⟩ := hmove.from hrun
    obtain ⟨hdep, hexit⟩ := hmove.no_value cx.tx
    have ht := tally_update Slot.held L gid (.game g')
    simp only [hg, Slot.held, GameBody.pot_playing hplaying,
      GameBody.pot_playing (GameBody.playing_of_unfinished hopen hfin), hsame.stake] at ht
    omega
  | @finish _ gid g g' _ hmove hg hsettle =>
    obtain ⟨log, hrun⟩ := hs _ _ hg
    obtain ⟨hplaying, hsame, -⟩ := hmove.from hrun
    obtain ⟨hdep, hexit⟩ := hmove.no_value cx.tx
    have ht := tally_update Slot.held L gid (.game g')
    have hpaid := hsettle.held
    have hfin : g'.isFinished = true := by
      cases hsettle with
      | paid hfin => exact hfin
    simp only [hg, Slot.held, GameBody.pot_playing hplaying, GameBody.pot_finished hfin] at ht
    rw [hsame.stake] at hpaid
    unfold Ledger.held at hpaid
    omega

end Step

/-! ## The run -/

section Run

variable {B : Battery} {P : DepositPolicy} {L : Ledger} {h : List Event}

theorem deposits_append (h h' : List Event) :
    deposits B (h ++ h') = deposits B h + deposits B h' := by
  simp only [deposits, List.map_append, List.sum_append]

theorem withdrawals_append (h h' : List Event) :
    withdrawals (h ++ h') = withdrawals h + withdrawals h' := by
  simp only [withdrawals, List.map_append, List.sum_append]

theorem held_of_run (hrun : LedgerRun B P h L) : L.held + withdrawals h = deposits B h := by
  induction hrun with
  | genesis =>
    have hzero : Ledger.held (fun _ => .empty) = 0 := tally_const_zero fun _ => rfl
    rw [hzero]
    rfl
  | @step h L L' cx a flow hprev hstep ih =>
    have hheld := hstep.held (sound_of_run hprev)
    have hdep : deposits B [⟨cx.tx, a⟩] = a.deposited B cx.tx := Nat.add_zero _
    have hwd : withdrawals [⟨cx.tx, a⟩] = exitTotal a.exits := Nat.add_zero _
    rw [deposits_append, withdrawals_append, hdep, hwd]
    omega

theorem withdrawals_actions (tx : Transaction) (as : List ActionBody) :
    withdrawals (as.map (⟨tx, ·⟩)) = exitTotal (as.flatMap ActionBody.exits) := by
  induction as with
  | nil => rfl
  | cons a as ih =>
    have hcons : withdrawals ((a :: as).map (⟨tx, ·⟩))
        = exitTotal a.exits + withdrawals (as.map (⟨tx, ·⟩)) := rfl
    rw [hcons, ih, List.flatMap_cons, exitTotal_append]

/-- The exits in the receipts are the withdrawals of the history. -/
theorem withdrawals_receipts {rcs : List Receipt} (hf : ∀ rc ∈ rcs, rc.Faithful) :
    withdrawals (rcs.flatMap fun rc => rc.actions.map (⟨rc.tx, ·⟩))
      = exitTotal (rcs.flatMap Receipt.exits) := by
  induction rcs with
  | nil => rfl
  | cons rc rest ih =>
    have hrest := ih fun r hr => hf r (List.mem_cons_of_mem rc hr)
    rw [List.flatMap_cons, List.flatMap_cons, withdrawals_append, hrest, withdrawals_actions,
      exitTotal_append, (hf rc List.mem_cons_self).exits]

/-- The output of an accepted deposit parses. -/
theorem LedgerStep.outputs_parse {cx : ApplyContext} {L' : Ledger} {a : ActionBody} {flow : Flow}
    (h : LedgerStep B P cx L a flow L') :
    ∀ o ∈ a.outputs, (B.parseOutputAtIndexV1 cx.tx.restPreimage o).isSome := by
  intro o ho
  cases h with
  | depositCreate _ _ _ hout | depositCredit _ _ _ hout =>
    rw [List.mem_singleton.mp ho, hout]
    rfl
  | play hmove | finish hmove =>
    rw [hmove.no_flow.2] at ho
    cases ho
  | _ => cases ho

theorem outputs_parse_of_run (hrun : LedgerRun B P h L) {e : Event} (he : e ∈ h) :
    ∀ o ∈ e.action.outputs, (B.parseOutputAtIndexV1 e.tx.restPreimage o).isSome := by
  induction hrun with
  | genesis => exact absurd he List.not_mem_nil
  | step _ hstep ih =>
    rcases List.mem_append.mp he with hold | hnew
    · exact ih hold
    · rw [List.mem_singleton.mp hnew]
      exact hstep.outputs_parse

/-- **Conservation.** What users and unfinished games hold is the value of the
outputs that accepted deposits name, less the amounts of the exits emitted.
Each of those outputs parses, and no transaction credits one twice. -/
theorem value_conserved {R : Rollup} (hR : Reachable B P R) :
    ((R.store.ledger B).held : Int)
        = deposits B R.events - exitTotal (R.accepted.flatMap Receipt.exits) ∧
      ∀ rc ∈ R.accepted, (rc.actions.flatMap ActionBody.outputs).Nodup ∧
        ∀ o ∈ rc.actions.flatMap ActionBody.outputs,
          (B.parseOutputAtIndexV1 rc.tx.restPreimage o).isSome := by
  obtain ⟨hrun, hfaithful⟩ := hR.refines
  have hheld := held_of_run hrun
  have hexits : withdrawals R.events = exitTotal (R.accepted.flatMap Receipt.exits) :=
    withdrawals_receipts hfaithful
  refine ⟨by omega, fun rc hrc => ⟨(hfaithful rc hrc).outputs_nodup, fun o ho => ?_⟩⟩
  obtain ⟨a, ha, hoa⟩ := List.mem_flatMap.mp ho
  have he : (⟨rc.tx, a⟩ : Event) ∈ R.events :=
    List.mem_flatMap.mpr ⟨rc, hrc, List.mem_map_of_mem ha⟩
  exact outputs_parse_of_run hrun he o hoa

theorem value_conserved_played :
    ((Sample.played.store.ledger .plain).held : Int)
        = deposits .plain Sample.played.events
          - exitTotal (Sample.played.accepted.flatMap Receipt.exits) ∧
      ∀ rc ∈ Sample.played.accepted, (rc.actions.flatMap ActionBody.outputs).Nodup ∧
        ∀ o ∈ rc.actions.flatMap ActionBody.outputs,
          (Battery.plain.parseOutputAtIndexV1 rc.tx.restPreimage o).isSome :=
  value_conserved Sample.reachable_played

end Run

end TicTacToe
