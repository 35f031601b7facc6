/-
TicTacToe.Invariants.Clock — the turn clock.

`TimedRun score starts L` is a run of the ledger machine over scores that
never decrease, with the score at which the ply of every game began: that
of its last join, mark or forfeited round. `last_move_at` is that score
while a match is on (`TimedRun.clock`), so a granted claim comes no earlier
than a full turn after the ply began (`clock_exact`).

A second claim at the same score is refused when the window is not zero
(`forfeitRound_again`). A config can hold a zero window, and with it the
deadline of the fresh round is the very score of the first claim.

No `sorry`, no `axiom`, no `native_decide`.
-/
import TicTacToe.Invariants.Quiescence
import TicTacToe.Moments

namespace TicTacToe

open Lib

/-! ## Claiming twice -/

section Repeat

variable {g g₁ : GameBody} {log l : List PlyEvent} {turnTtl now : UInt64} {fin : Bool}

/-- The clock was just stamped, and the window is not zero. -/
theorem forfeitRound_again (hclock : g₁.lastMoveAt = now) (hne : turnTtl ≠ 0) :
    ∃ e p, forfeitRound turnTtl now ⟨g₁, log⟩ = .error e p ∧ e.IsReject := by
  have hwp : wp (forfeitRound turnTtl now) (fun _ _ => False) (fun e _ => e.IsReject)
      ⟨g₁, log⟩ := by
    simp only [forfeitRound, wp_bind, wp_get, hclock]
    by_cases hon : g₁.state = .playing
    swap
    · simp only [hon, ne_eq, not_false_eq_true, if_true, wp_throw, Fault.isReject_decode]
    simp only [hon, ne_eq, not_true_eq_false, if_false]
    cases hdl : checkedAdd now turnTtl with
    | none => trivial
    | some deadline =>
      have hval := checkedAdd_eq_some.mp hdl
      have hpos : turnTtl.toNat ≠ 0 := fun h0 => hne (UInt64.toNat_inj.mp h0)
      have hlt : now < deadline := UInt64.lt_iff_toNat_lt.mpr (by omega)
      simp only [hlt, if_true, wp_throw, Fault.isReject_decode]
  exact wp_fails hwp

/-- With a zero window the next claim is due at once. -/
theorem forfeitRound_zero (hv : ValidQueues g₁) (hleft : RoundsLeft g₁)
    (hon : g₁.state = .playing) (hclock : g₁.lastMoveAt = now) :
    ∃ fin p, forfeitRound 0 now ⟨g₁, log⟩ = .ok fin p := by
  have hdl : checkedAdd g₁.lastMoveAt 0 = some now := by
    rw [hclock]
    exact checkedAdd_eq_some.mpr (Nat.add_zero _).symm
  have hdue : ¬ now < now := fun hlt => Nat.lt_irrefl _ (UInt64.lt_iff_toNat_lt.mp hlt)
  have hwp : wp (forfeitRound 0 now) _ _ ⟨g₁, log⟩ := wp_forfeitRound_quiet hv hon hdl hdue
  obtain ⟨fin, p, hrun, -⟩ := wp_total (wp_mono hwp (fun _ _ h => h)
    fun _ _ hp => hp.2 hleft)
  exact ⟨fin, p, hrun⟩

/-- **One forfeit per expired ply**, exactly when the window is not zero: after
a granted claim that leaves the match on, the same claim at the same score
is refused if the window is not zero, and, over valid queues, granted again
if it is. -/
theorem repeatForfeit_exact (hfirst : forfeitRound turnTtl now ⟨g, log⟩ = .ok fin ⟨g₁, l⟩)
    (hon : g₁.state = .playing) :
    (turnTtl ≠ 0 → ∃ e p, forfeitRound turnTtl now ⟨g₁, l⟩ = .error e p) ∧
      (ValidQueues g → (∃ e p, forfeitRound turnTtl now ⟨g₁, l⟩ = .error e p) → turnTtl ≠ 0) := by
  obtain ⟨-, -, -, -, hclock⟩ := forfeitRound_first hfirst
  constructor
  · intro hne
    obtain ⟨e, p, hrun, -⟩ : ∃ e p, forfeitRound turnTtl now ⟨g₁, l⟩ = .error e p ∧ e.IsReject :=
      forfeitRound_again hclock hne
    exact ⟨e, p, hrun⟩
  · intro hv hfails hzero
    obtain ⟨e, p, hrun⟩ := hfails
    subst hzero
    obtain ⟨hplaying, deadline, hdl, hdue⟩ := forfeitRound_due hfirst
    obtain ⟨hv₁, -, hleft₁⟩ := (wp_forfeitRound_quiet hv hplaying hdl hdue).ok hfirst
    obtain ⟨fin', p', hrun'⟩ : ∃ fin p, forfeitRound 0 now ⟨g₁, l⟩ = .ok fin p :=
      forfeitRound_zero hv₁ hleft₁ hon hclock
    rw [hrun] at hrun'
    cases hrun'

end Repeat

/-! ## Where plies begin -/

/-- The score a ply began at, once the plies `l` were played at `now`. -/
def plyStart (start now : UInt64) (l : List PlyEvent) : UInt64 := if l = [] then start else now

/-- What an action at the score `now` does to a slot, and to the score at which
the ply of the game in it began. -/
inductive Ticks (now : UInt64) : Slot → UInt64 → Slot → UInt64 → Prop
  | same {s : Slot} {t : UInt64} : Ticks now s t s t
  | written {s s' : Slot} {t : UInt64} : (∀ g, s ≠ .game g) →
      (∀ g, s' = .game g → g.state = .open) → Ticks now s t s' t
  | joined {g : GameBody} {joiner : ResourceId} {t : UInt64} : g.state = .open →
      Ticks now (.game g) t (.game (g.seatJoiner joiner now)) now
  | turned {g g' : GameBody} {mover : ResourceId} {cell : UInt8} {fin : Bool}
      {l : List PlyEvent} {t : UInt64} : playTurn mover cell now ⟨g, []⟩ = .ok fin ⟨g', l⟩ →
      Ticks now (.game g) t (.game g') (plyStart t now l)
  | timedOut {g g' : GameBody} {turnTtl : UInt64} {fin : Bool} {l : List PlyEvent}
      {t : UInt64} : forfeitRound turnTtl now ⟨g, []⟩ = .ok fin ⟨g', l⟩ →
      Ticks now (.game g) t (.game g') (plyStart t now l)

/-- Runs of the ledger machine over scores that never decrease: the score
now, and where the ply of every game began. -/
inductive TimedRun (B : Battery) (P : DepositPolicy) :
    UInt64 → (ResourceId → UInt64) → Ledger → Prop
  | genesis (score : UInt64) : TimedRun B P score (fun _ => 0) fun _ => .empty
  | passed {score score' : UInt64} {starts : ResourceId → UInt64} {L : Ledger} :
      TimedRun B P score starts L → score ≤ score' → TimedRun B P score' starts L
  | step {score : UInt64} {starts starts' : ResourceId → UInt64} {L L' : Ledger}
      {cx : ApplyContext} {a : ActionBody} {flow : Flow} :
      TimedRun B P score starts L → score ≤ cx.context.daaScore →
      LedgerStep B P cx L a flow L' →
      (∀ id, Ticks cx.context.daaScore (L id) (starts id) (L' id) (starts' id)) →
      TimedRun B P cx.context.daaScore starts' L'

section Ticks

variable {now : UInt64} {L L' : Ledger} {t t' : ResourceId → UInt64}

/-- Writing over what is no game starts no ply. -/
theorem ticks_write (h : ∀ id, Ticks now (L id) (t id) (L' id) (t' id)) {i : ResourceId}
    (hi : ∀ g, L' i ≠ .game g) {s : Slot} (hs : ∀ g, s = .game g → g.state = .open)
    (id : ResourceId) : Ticks now (L id) (t id) (Function.update L' i s id) (t' id) := by
  by_cases he : id = i
  · subst he
    rw [Function.update_self]
    -- the slot held no game before the action either
    have hold : (∀ g, L id ≠ .game g) ∧ t' id = t id := by
      have hid := h id
      generalize L id = old, L' id = new, t id = start, t' id = start' at hid hi
      cases hid with
      | same => exact ⟨hi, rfl⟩
      | written hne _ => exact ⟨hne, rfl⟩
      | joined | turned | timedOut => exact absurd rfl (hi _)
    rw [hold.2]
    exact .written hold.1 hs
  · rw [Function.update_of_ne he]
    exact h id

/-- A move of one game. -/
theorem ticks_move (h : ∀ id, Ticks now (L id) (t id) (L' id) (t id)) {gid : ResourceId}
    {g g' : GameBody} {t₁ : UInt64} (hg : L gid = .game g)
    (hmove : Ticks now (.game g) (t gid) (.game g') t₁) (id : ResourceId) :
    Ticks now (L id) (t id) (Function.update L' gid (.game g') id)
      (Function.update t gid t₁ id) := by
  by_cases he : id = gid
  · subst he
    rw [Function.update_self, Function.update_self, hg]
    exact hmove
  · rw [Function.update_of_ne he, Function.update_of_ne he]
    exact h id

theorem GameMove.ticks {B : Battery} {cx : ApplyContext} {a : ActionBody} {gid : ResourceId}
    {g g' : GameBody} (h : GameMove B cx L a gid g g') (start : UInt64) :
    ∃ start', Ticks cx.context.daaScore (.game g) start (.game g') start' := by
  cases h with
  | turn _ _ _ _ hplay => exact ⟨_, .turned hplay⟩
  | timeout _ _ _ hforfeit => exact ⟨_, .timedOut hforfeit⟩

theorem ne_game_of {i : ResourceId} {s : Slot} (h : L i = s) (hs : ∀ g, s ≠ .game g)
    (g : GameBody) : L i ≠ .game g := h ▸ hs g

/-- Every step of the machine moves the starts along. -/
theorem LedgerStep.ticks {B : Battery} {P : DepositPolicy} {cx : ApplyContext} {a : ActionBody}
    {flow : Flow} (h : LedgerStep B P cx L a flow L') (t : ResourceId → UInt64) :
    ∃ t' : ResourceId → UInt64,
      ∀ id, Ticks cx.context.daaScore (L id) (t id) (L' id) (t' id) := by
  have hsame : ∀ id, Ticks cx.context.daaScore (L id) (t id) (L id) (t id) := fun _ => .same
  cases h with
  | update _ hslot | init _ hslot | rotate _ hslot | depositCredit _ _ _ _ _ _ _ _ hslot
  | withdraw _ _ _ _ hslot | depositCreate _ _ _ _ _ _ _ _ hslot =>
    exact ⟨t, ticks_write hsame (ne_game_of hslot (by simp)) (by simp)⟩
  | transfer _ _ hne hu _ _ hdst | transferCreate _ _ hne hu _ _ hdst =>
    refine ⟨t, ticks_write (ticks_write hsame (ne_game_of hu (by simp)) (by simp)) ?_ (by simp)⟩
    rw [Function.update_of_ne hne.symm]
    exact ne_game_of hdst (by simp)
  | createGame _ hu _ _ _ _ he =>
    refine ⟨t, ticks_write (ticks_write hsame (ne_game_of hu (by simp)) (by simp)) ?_ ?_⟩
    · rw [Function.update_of_ne (ne_of_slot he hu (by simp))]
      exact ne_game_of he (by simp)
    · intro g hg
      cases hg
      rfl
  | joinGame _ hu _ _ hg hopen =>
    exact ⟨_, ticks_move (ticks_write hsame (ne_game_of hu (by simp)) (by simp)) hg
      (.joined hopen)⟩
  | @play _ gid g g' hmove hg _ =>
    obtain ⟨t₁, htick⟩ := hmove.ticks (t gid)
    exact ⟨_, ticks_move hsame hg htick⟩
  | @finish _ gid g g' _ hmove hg hsettle =>
    obtain ⟨t₁, htick⟩ := hmove.ticks (t gid)
    cases hsettle with
    | paid _ _ hu₀ _ hu₁ _ =>
      exact ⟨_, ticks_write (ticks_write (ticks_move hsame hg htick) (ne_game_of hu₀ (by simp))
        (by simp)) (ne_game_of hu₁ (by simp)) (by simp)⟩

end Ticks

/-! ## The clock is where the ply began -/

section Clock

variable {g g' : GameBody} {now : UInt64}

/-- What a turn or a claim makes of the clock. -/
theorem Stamped.plyStart {l : List PlyEvent} (h : Stamped now ⟨g, []⟩ ⟨g', l⟩) :
    g'.lastMoveAt = plyStart g.lastMoveAt now l := by
  obtain ⟨l', hlog, hclock⟩ := h
  rw [List.nil_append] at hlog
  dsimp only at hlog hclock
  rw [hlog]
  exact hclock

/-- The clock of a game that someone joined is where its ply began, and not
in the future. -/
def ClockOk (score start : UInt64) (s : Slot) : Prop :=
  ∀ g, s = .game g → g.state ≠ .open → g.lastMoveAt = start ∧ start ≤ score

theorem plyStart_le {start score : UInt64} (hstart : start ≤ score) (hscore : score ≤ now)
    (l : List PlyEvent) : TicTacToe.plyStart start now l ≤ now := by
  unfold TicTacToe.plyStart
  split
  · exact UInt64.le_trans hstart hscore
  · exact UInt64.le_refl now

theorem Ticks.clockOk {score start start' : UInt64} {s s' : Slot}
    (h : Ticks now s start s' start') (hscore : score ≤ now) (hs : ClockOk score start s) :
    ClockOk now start' s' := by
  cases h with
  | same =>
    intro g hg hopen
    obtain ⟨hclock, hle⟩ := hs g hg hopen
    exact ⟨hclock, UInt64.le_trans hle hscore⟩
  | written _ hborn => exact fun g hg hopen => absurd (hborn g hg) hopen
  | joined _ =>
    intro g hg _
    cases hg
    exact ⟨rfl, UInt64.le_refl now⟩
  | turned hplay =>
    intro g hg _
    cases hg
    have hon := playTurn_playing hplay
    obtain ⟨hclock, hle⟩ := hs _ rfl (by rw [hon]; decide)
    refine ⟨?_, plyStart_le hle hscore _⟩
    rw [← hclock]
    exact ((keeps_playTurn _ _ _).ok hplay).plyStart
  | timedOut hforfeit =>
    intro g hg _
    cases hg
    obtain ⟨hon, -⟩ := forfeitRound_due hforfeit
    obtain ⟨hclock, hle⟩ := hs _ rfl (by rw [hon]; decide)
    refine ⟨?_, plyStart_le hle hscore _⟩
    obtain ⟨mover, l, -, hlog, hstamp⟩ := forfeitRound_first hforfeit
    dsimp only at hlog
    rw [hstamp, hlog]
    exact (if_neg (List.cons_ne_nil _ _)).symm

theorem TimedRun.clock {B : Battery} {P : DepositPolicy} {score : UInt64}
    {starts : ResourceId → UInt64} {L : Ledger} (h : TimedRun B P score starts L)
    (id : ResourceId) : ClockOk score (starts id) (L id) := by
  induction h with
  | genesis score => exact fun g hg => by cases hg
  | passed _ hle ih =>
    intro g hg hopen
    obtain ⟨hclock, hstart⟩ := ih g hg hopen
    exact ⟨hclock, UInt64.le_trans hstart hle⟩
  | step _ hle _ hticks ih => exact (hticks id).clockOk hle ih

end Clock

/-! ## Rollups in time -/

/-- Rollups whose submissions come at scores that never decrease. -/
inductive TimedReachable (B : Battery) (P : DepositPolicy) : UInt64 → Rollup → Prop
  | genesis (score : UInt64) : TimedReachable B P score Rollup.genesis
  | submit {score : UInt64} {R : Rollup} {sub : Submission} : TimedReachable B P score R →
      (sub.access.map Prod.fst).Nodup → score ≤ sub.context.daaScore →
      TimedReachable B P sub.context.daaScore (R.submit B P sub)

section Rollups

variable {B : Battery} {P : DepositPolicy} {R : Rollup} {sub : Submission} {score : UInt64}

theorem TimedReachable.reachable (h : TimedReachable B P score R) : Reachable B P R := by
  induction h with
  | genesis => exact .genesis
  | submit _ hn _ ih => exact ih.submit hn

/-- A timed run goes on through the actions of a submission. -/
theorem TimedRun.steps {st st' : Store} (hR : Reachable B P R)
    (hn : (sub.access.map Prod.fst).Nodup)
    (hrun : ∃ starts, TimedRun B P sub.context.daaScore starts (st.ledger B))
    (hsteps : Relation.ReflTransGen (R.ActionStep B P sub) st st') :
    ∃ starts, TimedRun B P sub.context.daaScore starts (st'.ledger B) := by
  refine Rollup.ActionStep.preserves
    (I := fun L => ∃ starts, TimedRun B P sub.context.daaScore starts L) hR hn ?_ hsteps hrun
  intro cx a flow L L' hcx _ hstep hprev
  obtain ⟨starts, hprev⟩ := hprev
  obtain ⟨starts', hticks⟩ := hstep.ticks starts
  have hnext := hprev.step (by rw [hcx]; exact UInt64.le_refl _) hstep hticks
  rw [hcx] at hnext
  exact ⟨starts', hnext⟩

theorem TimedReachable.run (h : TimedReachable B P score R) :
    ∃ starts, TimedRun B P score starts (R.store.ledger B) := by
  induction h with
  | genesis score => exact ⟨_, .genesis score⟩
  | @submit score R sub hR hn hle ih =>
    obtain ⟨starts, hrun⟩ := ih
    exact TimedRun.steps hR.reachable hn ⟨starts, hrun.passed hle⟩ R.submit_steps

/-- What a granted claim read. -/
theorem timeout_reads (st : Store) {cx cx' : ApplyContext} {gi ci : UInt8} (hc : cx.Coherent)
    (hacc : Accepted B P cx (.timeout gi ci) cx') :
    ∃ q g r c, cx.resources[gi.toNat]? = some q ∧ GameBody.fromBytes q.data = .ok g ∧
      cx.resources[ci.toNat]? = some r ∧ ConfigBody.fromBytes B r.data = .ok c ∧
      cx.ledger B st q.id = .game g ∧ g.state = .playing ∧
      g.lastMoveAt.toNat + c.turnTtl.toNat ≤ cx.context.daaScore.toNat := by
  obtain ⟨flow, hstep, -, -⟩ := hacc.step
  have hmove : ∃ gid g g', GameMove B cx (cx.ledger B st) (.timeout gi ci) gid g g' ∧
      cx.ledger B st gid = .game g := by
    have hledger := hstep st
    generalize cx'.ledger B st = L' at hledger
    cases hledger with
    | play hmove hg _ => exact ⟨_, _, _, hmove, hg⟩
    | finish hmove hg _ => exact ⟨_, _, _, hmove, hg⟩
  obtain ⟨gid, g, g', hmove, hg⟩ := hmove
  cases hmove with
  | @timeout _ _ _ cid c _ _ _ _ hgi hci hconfig hforfeit =>
    obtain ⟨q, hq, rfl⟩ := Option.map_eq_some_iff.mp hgi
    obtain ⟨r, hr, rfl⟩ := Option.map_eq_some_iff.mp hci
    obtain ⟨hon, deadline, hdl, hdue⟩ := forfeitRound_due hforfeit
    have hval := checkedAdd_eq_some.mp hdl
    dsimp only at hon hval
    have hle := UInt64.le_iff_toNat_le.mp (UInt64.not_lt.mp hdue)
    refine ⟨q, g, r, c, hq, ?_, hr, ?_, hg, hon, by omega⟩
    · exact Slot.parse_eq_game.mp ((ApplyContext.ledger_apply _ hc hq).symm.trans hg)
    · exact Slot.parse_eq_config.mp ((ApplyContext.ledger_apply _ hc hr).symm.trans hconfig)

/-- **Full turns.** In every run over scores that never decrease, the clock of
a game that is on is the score its ply began at, and not in the future; a
turn without a ply and a rejected submission leave it alone. So a granted
claim of any submission comes at least the config's window after the ply
of the seat to move began. -/
theorem clock_exact (B : Battery) (P : DepositPolicy) :
    (∀ (score : UInt64) (starts : ResourceId → UInt64) (L : Ledger) (id : ResourceId)
      (g : GameBody), TimedRun B P score starts L → L id = .game g → g.state = .playing →
      g.lastMoveAt = starts id ∧ starts id ≤ score) ∧
    (∀ (mover : ResourceId) (cell : UInt8) (now : UInt64) (fin : Bool) (g g' : GameBody),
      playTurn mover cell now ⟨g, []⟩ = .ok fin ⟨g', []⟩ → g'.lastMoveAt = g.lastMoveAt) ∧
    (∀ (R : Rollup) (sub : Submission) (e : Fault), R.runOn B P sub = .error e →
      R.submit B P sub = R) ∧
    (∀ (score : UInt64) (R : Rollup), TimedReachable B P score R →
      ∃ starts, TimedRun B P score starts (R.store.ledger B)) ∧
    ∀ (score : UInt64) (R : Rollup) (sub : Submission) (as : List ActionBody) (gi ci : UInt8)
      (cx cx' : ApplyContext), TimedReachable B P score R → (sub.access.map Prod.fst).Nodup →
      score ≤ sub.context.daaScore → R.Applying B P sub as (.timeout gi ci) cx →
      applyAction B P (.timeout gi ci) cx = .ok () cx' →
      ∃ starts q g r c, TimedRun B P sub.context.daaScore starts (cx.ledger B R.store) ∧
        cx.resources[gi.toNat]? = some q ∧ GameBody.fromBytes q.data = .ok g ∧
        cx.resources[ci.toNat]? = some r ∧ ConfigBody.fromBytes B r.data = .ok c ∧
        (starts q.id).toNat + c.turnTtl.toNat ≤ sub.context.daaScore.toNat := by
  refine ⟨?_, ?_, ?_, fun score R hR => hR.run, ?_⟩
  · intro score starts L id g hrun hg hon
    exact hrun.clock id g hg (by rw [hon]; decide)
  · intro mover cell now fin g g' hplay
    exact ((keeps_playTurn mover cell _).ok hplay).plyStart
  · intro R sub e hrun
    unfold Rollup.submit
    rw [hrun]
    cases R.decoded B sub <;> rfl
  · intro score R sub as gi ci cx cx' hR hn hle happ hact
    obtain ⟨hinv, hin⟩ := Rollup.Applying.inv hR.reachable hn happ
    have hacc := (wp_applyAction hinv.coherent hinv.sound hin).ok hact
    obtain ⟨starts₀, hrun₀⟩ := hR.run
    obtain ⟨starts, hrun⟩ := TimedRun.steps hR.reachable hn ⟨starts₀, hrun₀.passed hle⟩ happ.steps
    obtain ⟨q, g, r, c, hq, hg, hr, hconfig, hslot, hon, hdue⟩ :=
      timeout_reads R.store hinv.coherent hacc
    obtain ⟨hclock, -⟩ := hrun.clock q.id g hslot (by rw [hon]; decide)
    have hcontext : cx.context = sub.context := hinv.context
    refine ⟨starts, q, g, r, c, hrun, hq, hg, hr, hconfig, ?_⟩
    rw [← hclock, ← hcontext]
    exact hdue

end Rollups

/-! ## A claim, and claims without a window -/

namespace Sample

/-- The opened game is claimed ten scores after the join, from the second
player's empty board. -/
def claiming : Submission := { submission [] [.timeout 3 0] with context := { daaScore := 110 } }

@[irreducible] def claim : List ActionBody × ActionBody × ApplyContext :=
  (opened.moment .plain policy claiming 0).get (by decide +kernel)

theorem applying_claim : opened.Applying .plain policy claiming claim.1 (.timeout 3 0) claim.2.2 := by
  have haction : claim.2.1 = .timeout 3 0 := by decide +kernel
  rw [← haction]
  unfold claim
  exact Rollup.applying_get _

theorem claim_granted :
    ∃ cx', applyAction .plain policy (.timeout 3 0) claim.2.2 = .ok () cx' := by
  have hok : (match applyAction .plain policy (.timeout 3 0) claim.2.2 with
      | .ok _ _ => true
      | .error _ _ => false) = true := by
    decide +kernel
  cases h : applyAction .plain policy (.timeout 3 0) claim.2.2 with
  | ok _ cx' => exact ⟨cx', rfl⟩
  | error e cx' =>
    rw [h] at hok
    cases hok

theorem timedReachable_opened : TimedReachable .plain policy 100 opened :=
  .submit (.genesis 0) (access_nodup _ _) (by decide)

/-- Five rounds, just joined. -/
def seated : GameBody := (GameBody.fresh aliceId .x 500 5).seatJoiner bobId 100

theorem gameRun_seated : GameRun seated [] :=
  .joined 100 (.created aliceId 500 (by decide) (by decide)) rfl (by decide +kernel)

/-- The claim of a round of `seated` at the score 200, and then again. -/
def claimedTwice (turnTtl : UInt64) : Bool × Bool :=
  match forfeitRound turnTtl 200 ⟨seated, []⟩ with
  | .error _ _ => (false, false)
  | .ok _ p =>
    (p.game.state = .playing, match forfeitRound turnTtl 200 p with
      | .ok _ _ => true
      | .error _ _ => false)

theorem ok_claimedTwice (turnTtl : UInt64) (h : (claimedTwice turnTtl).1 = true) :
    ∃ fin g₁ l, forfeitRound turnTtl 200 ⟨seated, []⟩ = .ok fin ⟨g₁, l⟩ ∧ g₁.state = .playing ∧
      ((claimedTwice turnTtl).2 = true →
        ∃ fin' p', forfeitRound turnTtl 200 ⟨g₁, l⟩ = .ok fin' p') := by
  unfold claimedTwice at h ⊢
  cases hrun : forfeitRound turnTtl 200 ⟨seated, []⟩ with
  | error e p =>
    rw [hrun] at h
    cases h
  | ok fin p =>
    rw [hrun] at h
    dsimp only at h ⊢
    refine ⟨fin, p.game, p.log, rfl, of_decide_eq_true h, fun htwice => ?_⟩
    cases hrun' : forfeitRound turnTtl 200 ⟨p.game, p.log⟩ with
    | error e p' =>
      rw [hrun'] at htwice
      cases htwice
    | ok fin' p' => exact ⟨fin', p', rfl⟩

end Sample

theorem clock_exact_claim :
    ∃ starts q g r c,
      TimedRun .plain Sample.policy 110 starts (Sample.claim.2.2.ledger .plain Sample.opened.store) ∧
      Sample.claim.2.2.resources[3]? = some q ∧ GameBody.fromBytes q.data = .ok g ∧
      Sample.claim.2.2.resources[0]? = some r ∧ ConfigBody.fromBytes .plain r.data = .ok c ∧
      (starts q.id).toNat + c.turnTtl.toNat ≤ 110 := by
  obtain ⟨cx', hgranted⟩ := Sample.claim_granted
  exact (clock_exact .plain Sample.policy).2.2.2.2 100 Sample.opened Sample.claiming
    Sample.claim.1 3 0 Sample.claim.2.2 cx' Sample.timedReachable_opened
    (Sample.access_nodup [] []) (by decide) Sample.applying_claim hgranted

theorem repeatForfeit_exact_seated :
    ∃ fin g₁ l, forfeitRound 10 200 ⟨Sample.seated, []⟩ = .ok fin ⟨g₁, l⟩ ∧
      ∃ e p, forfeitRound 10 200 ⟨g₁, l⟩ = .error e p := by
  obtain ⟨fin, g₁, l, hfirst, hon, -⟩ :=
    Sample.ok_claimedTwice 10 (by decide +kernel)
  exact ⟨fin, g₁, l, hfirst, (repeatForfeit_exact hfirst hon).1 (by decide)⟩

/-- A config can hold a zero window, and then the rounds of a match are claimed
one after the other at one score. -/
theorem zeroTtl_sweeps :
    ¬ ∀ (c : ConfigBody) (g g₁ : GameBody) (log l : List PlyEvent) (now : UInt64) (fin : Bool),
      ConfigBody.fromBytes .plain c.toBytes = .ok c → GameRun g log →
      forfeitRound c.turnTtl now ⟨g, log⟩ = .ok fin ⟨g₁, l⟩ → g₁.state = .playing →
      ∃ e p, forfeitRound c.turnTtl now ⟨g₁, l⟩ = .error e p := by
  intro hclaim
  obtain ⟨fin, g₁, l, hfirst, hon, htwice⟩ :=
    Sample.ok_claimedTwice 0 (by decide +kernel)
  obtain ⟨fin', p', hsecond⟩ := htwice (by decide +kernel)
  obtain ⟨e, p, hfails⟩ := hclaim (.withLock 1000 0 Sample.covenant .unlocked) Sample.seated g₁ []
    l 200 fin (ConfigBody.fromBytes_withLock 1000 0 Sample.covenant (LockEnum.wellFormed_unlocked _))
    Sample.gameRun_seated hfirst hon
  have hsame : forfeitRound 0 200 ⟨g₁, l⟩ = .error e p := hfails
  rw [hsecond] at hsame
  cases hsame

end TicTacToe
