/-
TicTacToe.Invariants.Stats — the counters of a user count games.

`Scores` says which games a counter of a user is about, and `Exact` that
every counter is the number of them. An action either leaves every score
and every counter alone (`Exact.update`), or is a creation or a finish,
which move both by one.

No `sorry`, no `axiom`, no `native_decide`.
-/
import TicTacToe.Invariants.Binding
import TicTacToe.Lib.Tally

namespace TicTacToe

open Lib
open Function (update)

inductive Stat where
  | started
  | finished
  | won
  deriving DecidableEq

def UserBody.stat (u : UserBody) : Stat → Nat
  | .started => u.gamesStarted.toNat
  | .finished => u.gamesFinished.toNat
  | .won => u.gamesWon.toNat

/-- The games a counter of the user `id` is about. -/
def GameBody.Scores (g : GameBody) (id : ResourceId) : Stat → Prop
  | .started => g.creator = id
  | .finished => g.isFinished = true ∧ (g.creator = id ∨ g.joiner = some id)
  | .won => g.state = .first ∧ g.creator = id ∨ g.state = .second ∧ g.joiner = some id

instance (g : GameBody) (id : ResourceId) (st : Stat) : Decidable (g.Scores id st) :=
  match st with
  | .started => inferInstanceAs (Decidable (g.creator = id))
  | .finished =>
    inferInstanceAs (Decidable (g.isFinished = true ∧ (g.creator = id ∨ g.joiner = some id)))
  | .won => inferInstanceAs
      (Decidable (g.state = .first ∧ g.creator = id ∨ g.state = .second ∧ g.joiner = some id))

def Slot.score (st : Stat) (id : ResourceId) : Slot → Nat
  | .game g => if g.Scores id st then 1 else 0
  | _ => 0

/-- How many games of the ledger a counter of `id` is about. -/
noncomputable def Ledger.score (L : Ledger) (st : Stat) (id : ResourceId) : Nat := tally (Slot.score st id) L

def Ledger.Exact (L : Ledger) : Prop := ∀ st id u, L id = .user u → u.stat st = L.score st id

section Scores

variable {g : GameBody} {id : ResourceId}

theorem Slot.score_game (st : Stat) (g : GameBody) (id : ResourceId) :
    Slot.score st id (.game g) = if g.Scores id st then 1 else 0 := rfl

theorem GameBody.joiner_eq_some (h : g.joiner = some id) : g.players 1 = id := by
  unfold GameBody.joiner at h
  split at h
  · exact Option.some.inj h
  · cases h

/-- A game that is still open or playing only counts as started. -/
theorem GameBody.scores_unfinished (hfin : g.isFinished = false) (st : Stat) :
    g.Scores id st ↔ st = .started ∧ g.creator = id := by
  have hstates : g.state ≠ .first ∧ g.state ≠ .second := by
    unfold GameBody.isFinished at hfin
    constructor <;> intro e <;> simp [e] at hfin
  cases st with
  | started => simp [GameBody.Scores]
  | finished => simp [GameBody.Scores, hfin]
  | won => simp [GameBody.Scores, hstates.1, hstates.2]

/-- A game nobody could score on: neither creator nor joiner is `id`. -/
theorem Bound.scores_zero {B : Battery} {L : Ledger} (hb : Bound B L) (hid : ∀ u, L id ≠ .user u)
    (st : Stat) : L.score st id = 0 := by
  refine tally_const_zero fun gid => ?_
  cases hslot : L gid with
  | game g =>
    rw [Slot.score_game, if_neg]
    intro hscores
    have hcreator : g.creator ≠ id := by
      rintro rfl
      obtain ⟨u, _, hu, -⟩ := hb.game hslot
      exact hid u hu
    have hjoiner : g.state ≠ .open → g.joiner ≠ some id := by
      intro hopen hj
      obtain ⟨u, hu⟩ := hb.joiner hslot hopen
      rw [GameBody.joiner_eq_some hj] at hu
      exact hid u hu
    cases st with
    | started => exact hcreator hscores
    | finished =>
      refine hscores.2.elim hcreator (hjoiner fun e => ?_)
      have hfin := hscores.1
      simp [GameBody.isFinished, e] at hfin
    | won => exact hscores.elim (fun h => hcreator h.2) fun h => hjoiner (by simp [h.1]) h.2
  | empty | config | user | junk => rfl

end Scores

section Step

variable {B : Battery} {P : DepositPolicy} {cx : ApplyContext} {L L' : Ledger} {a : ActionBody}
  {flow : Flow}

/-- A rewritten slot that scores as before and, if a user, counts right. -/
theorem Ledger.Exact.update (hx : L.Exact) {i : ResourceId} {s : Slot}
    (hscore : ∀ st id, Slot.score st id s = Slot.score st id (L i))
    (huser : ∀ u, s = .user u → ∀ st, u.stat st = L.score st i) :
    Ledger.Exact (update L i s) := by
  intro st id u hu
  have ht := tally_update (Slot.score st id) L i s
  rw [hscore] at ht
  have hsame : Ledger.score (Function.update L i s) st id = L.score st id :=
    Nat.add_right_cancel ht
  rw [hsame]
  by_cases he : id = i
  · subst he
    rw [Function.update_self] at hu
    exact huser u hu st
  · rw [Function.update_of_ne he] at hu
    exact hx st id u hu

/-- A user rewritten without touching its counters. -/
theorem Ledger.Exact.updateUser (hx : L.Exact) {i : ResourceId} {u u' : UserBody}
    (hu : L i = .user u) (hstats : u'.stats = u.stats) : Ledger.Exact (Function.update L i (.user u')) := by
  refine hx.update (fun st id => by rw [hu]; rfl) ?_
  rintro w ⟨⟩ st
  have hstat : u'.stat st = u.stat st := by
    have hstarted := congrArg GameStats.started hstats
    have hwon := congrArg GameStats.won hstats
    have hfinished := congrArg GameStats.finished hstats
    cases st
    · exact congrArg UInt64.toNat hstarted
    · exact congrArg UInt64.toNat hfinished
    · exact congrArg UInt64.toNat hwon
  rw [hstat]
  exact hx st i u hu

theorem Ledger.Exact.setBalance (hx : L.Exact) {i : ResourceId} {u : UserBody} (hu : L i = .user u)
    (b : UInt64) : Ledger.Exact (Function.update L i (.user { u with balance := b })) :=
  hx.updateUser hu rfl

/-- A new user has played nothing. -/
theorem Ledger.Exact.bornUser (hx : L.Exact) (hb : Bound B L) {i : ResourceId} {u : UserBody}
    (he : L i = .empty) (hstats : u.stats = .default) : Ledger.Exact (Function.update L i (.user u)) := by
  refine hx.update (fun st id => by rw [he]; rfl) ?_
  rintro w ⟨⟩ st
  rw [hb.scores_zero (fun u hu => by rw [he] at hu; cases hu)]
  have hstarted : u.gamesStarted = 0 := congrArg GameStats.started hstats
  have hwon : u.gamesWon = 0 := congrArg GameStats.won hstats
  have hfinished : u.gamesFinished = 0 := congrArg GameStats.finished hstats
  cases st <;> simp [UserBody.stat, hstarted, hwon, hfinished]

/-- A game that is still on before and after. -/
theorem Ledger.Exact.updateGame (hx : L.Exact) {i : ResourceId} {g g' : GameBody}
    (hg : L i = .game g) (hfin : g.isFinished = false) (hfin' : g'.isFinished = false)
    (hcreator : g'.players 0 = g.players 0) : Ledger.Exact (Function.update L i (.game g')) := by
  refine hx.update (fun st id => ?_) fun u e => by cases e
  have hiff : g'.Scores id st ↔ g.Scores id st := by
    rw [GameBody.scores_unfinished hfin, GameBody.scores_unfinished hfin']
    simp only [GameBody.creator, hcreator]
  rw [hg, Slot.score_game, Slot.score_game]
  simp only [hiff]

theorem Ledger.Exact.createGame (hx : L.Exact) {id gid : ResourceId} {u u' : UserBody}
    {g : GameBody} (hu : L id = .user u) (he : L gid = .empty) (hopen : g.state = .open)
    (hcreator : g.players 0 = id) (hstarted : u'.gamesStarted.toNat = u.gamesStarted.toNat + 1)
    (hfinished : u'.gamesFinished = u.gamesFinished) (hwon : u'.gamesWon = u.gamesWon) :
    Ledger.Exact (Function.update (Function.update L id (.user u')) gid (.game g)) := by
  intro st i w hw
  have hfin := GameBody.not_finished_of_open hopen
  have ht := tally_update_update (Slot.score st i) L (ne_of_slot hu he (by simp)) (.user u')
    (.game g)
  simp only [hu, he, Slot.score_game, GameBody.scores_unfinished hfin, GameBody.creator,
    hcreator] at ht
  simp only [Slot.score, Nat.add_zero] at ht
  unfold Ledger.score
  rw [ht]
  have hi : i ≠ gid := by
    rintro rfl
    rw [Function.update_self] at hw
    cases hw
  rw [Function.update_of_ne hi] at hw
  by_cases hid : i = id
  · subst hid
    rw [Function.update_self] at hw
    cases hw
    have hold := hx st i u hu
    unfold Ledger.score at hold
    rw [← hold]
    cases st <;> simp [UserBody.stat, hstarted, hfinished, hwon]
  · rw [Function.update_of_ne hid] at hw
    rw [if_neg fun h => hid h.2.symm]
    exact hx st i w hw

/-- What one seat's settlement adds to a counter. -/
def Stat.gain (won : Bool) : Stat → Nat
  | .started => 0
  | .finished => 1
  | .won => won.toNat

theorem Paid.stat {u u' : UserBody} {credit : Nat} {won : Bool} (h : Paid u u' credit won)
    (st : Stat) : u'.stat st = u.stat st + st.gain won := by
  cases st with
  | started => exact congrArg UInt64.toNat h.gamesStarted
  | finished => exact h.gamesFinished
  | won => exact h.gamesWon

section Finish

variable {g g' : GameBody} {id : ResourceId}

theorem winnerOf_eq (state : State) :
    (winnerOf state = some 0 ↔ state = .first) ∧ (winnerOf state = some 1 ↔ state = .second) := by
  cases state <;> decide

theorem GameBody.scores_finished (hfin : g.isFinished = true)
    (hj : g.players 1 ≠ ResourceId.default) (st : Stat) :
    g.Scores id st ↔ st = .started ∧ g.players 0 = id ∨
      st = .finished ∧ (g.players 0 = id ∨ g.players 1 = id) ∨
      st = .won ∧ (winnerOf g.state = some 0 ∧ g.players 0 = id ∨
        winnerOf g.state = some 1 ∧ g.players 1 = id) := by
  have hjoiner : g.joiner = some (g.players 1) := if_pos hj
  cases st with
  | started => simp [GameBody.Scores, GameBody.creator]
  | finished => simp [GameBody.Scores, GameBody.creator, hfin, hjoiner]
  | won =>
    simp only [GameBody.Scores, GameBody.creator, hjoiner, (winnerOf_eq g.state).1,
      (winnerOf_eq g.state).2, Option.some.injEq, reduceCtorEq, false_and, true_and, false_or]

/-- A finish scores for each seat what settling it adds. -/
theorem Slot.score_player (hfin : g'.isFinished = true) (hj : g'.players 1 ≠ ResourceId.default)
    (hseats : g'.players 1 ≠ g'.players 0) (hplaying : g.state = .playing) (hsame : SameMatch g g')
    (st : Stat) (s : Seat) :
    Slot.score st (g'.players s) (.game g') = Slot.score st (g'.players s) (.game g)
      + st.gain (winnerOf g'.state = some s) := by
  have hcreator : g.creator = g'.players 0 := by rw [hsame.players]; rfl
  rw [Slot.score_game, Slot.score_game]
  simp only [GameBody.scores_unfinished (GameBody.not_finished_of_playing hplaying),
    GameBody.scores_finished hfin hj, hcreator]
  obtain rfl | rfl := Reference.seat_cases s
  · cases st with
    | started => simp [Stat.gain]
    | finished => simp [Stat.gain]
    | won => by_cases hw : winnerOf g'.state = some 0 <;> simp [Stat.gain, hw, hseats]
  · cases st with
    | started => simp [Stat.gain]
    | finished => simp [Stat.gain]
    | won => by_cases hw : winnerOf g'.state = some 1 <;> simp [Stat.gain, hw, hseats.symm]

/-- A finish scores for nobody else. -/
theorem Slot.score_other (hfin : g'.isFinished = true) (hj : g'.players 1 ≠ ResourceId.default)
    (hplaying : g.state = .playing) (hsame : SameMatch g g') (st : Stat)
    (hid : ∀ s, id ≠ g'.players s) :
    Slot.score st id (.game g') = Slot.score st id (.game g) := by
  have hcreator : g.creator = g'.players 0 := by rw [hsame.players]; rfl
  rw [Slot.score_game, Slot.score_game]
  simp only [GameBody.scores_unfinished (GameBody.not_finished_of_playing hplaying),
    GameBody.scores_finished hfin hj, hcreator, (hid 0).symm, (hid 1).symm, and_false, or_self]

end Finish

/-- Both players of a game that finishes count it once. -/
theorem Ledger.Exact.finish (hx : L.Exact) {gid : ResourceId} {g g' : GameBody}
    (hg : L gid = .game g) (hplaying : g.state = .playing) (hsame : SameMatch g g')
    (hseats : g'.players 1 ≠ g'.players 0)
    (hsettle : Settlement (Function.update L gid (.game g')) g' L') : L'.Exact := by
  cases hsettle with
  | @paid u₀ u₀' u₁ u₁' hfin hj hu₀ hpaid₀ hu₁ hpaid₁ =>
    -- the two players' slots hold users, the game's does not
    have hne₀ : g'.players 0 ≠ gid := by
      intro e
      rw [e, Function.update_self] at hu₀
      cases hu₀
    rw [Function.update_of_ne hseats] at hu₁
    have hne₁ : g'.players 1 ≠ gid := by
      intro e
      rw [e, Function.update_self] at hu₁
      cases hu₁
    rw [Function.update_of_ne hne₀] at hu₀
    rw [Function.update_of_ne hne₁] at hu₁
    intro st i w hw
    have htally : Ledger.score (Function.update
        (Function.update (Function.update L gid (.game g')) (g'.players 0) (.user u₀'))
        (g'.players 1) (.user u₁')) st i + Slot.score st i (.game g)
        = L.score st i + Slot.score st i (.game g') := by
      have h₀ := tally_update (Slot.score st i) L gid (.game g')
      have h₁ := tally_update_update (Slot.score st i) (Function.update L gid (.game g'))
        hseats.symm (.user u₀') (.user u₁')
      simp only [Function.update_of_ne hne₀, Function.update_of_ne hne₁, hu₀, hu₁] at h₁
      rw [hg] at h₀
      have hzero : ∀ u, Slot.score st i (.user u) = 0 := fun _ => rfl
      simp only [hzero, Nat.add_zero] at h₁
      unfold Ledger.score
      omega
    have hplayer := Slot.score_player hfin hj hseats hplaying hsame st
    by_cases hi₁ : i = g'.players 1
    · subst hi₁
      rw [Function.update_self] at hw
      cases hw
      have hold := hx st _ u₁ hu₁
      have hpaid := hpaid₁.stat st
      have hgain := hplayer 1
      omega
    · rw [Function.update_of_ne hi₁] at hw
      by_cases hi₀ : i = g'.players 0
      · subst hi₀
        rw [Function.update_self] at hw
        cases hw
        have hold := hx st _ u₀ hu₀
        have hpaid := hpaid₀.stat st
        have hgain := hplayer 0
        omega
      · rw [Function.update_of_ne hi₀] at hw
        have hi : i ≠ gid := by
          rintro rfl
          rw [Function.update_self] at hw
          cases hw
        rw [Function.update_of_ne hi] at hw
        have hold := hx st i w hw
        have hother := Slot.score_other hfin hj hplaying hsame st fun s => by
          obtain rfl | rfl := Reference.seat_cases s
          · exact hi₀
          · exact hi₁
        omega

theorem Ledger.Exact.updateConfig (hx : L.Exact) {i : ResourceId} (c : ConfigBody)
    (hold : ∀ st id, Slot.score st id (L i) = 0) : Ledger.Exact (Function.update L i (.config c)) :=
  hx.update (fun st id => (hold st id).symm) fun _ e => by cases e

/-- An action moves the counters and the games they count together. -/
theorem LedgerStep.exact (h : LedgerStep B P cx L a flow L') (hs : L.Sound) (hb : Bound B L)
    (hx : L.Exact) : L'.Exact := by
  cases h with
  | update _ hc => exact hx.updateConfig _ fun _ _ => by rw [hc]; rfl
  | init _ he => exact hx.updateConfig _ fun _ _ => by rw [he]; rfl
  | transfer _ _ hne hu _ _ hw _ =>
    refine (hx.setBalance hu _).setBalance ?_ _
    rw [Function.update_of_ne hne.symm]
    exact hw
  | transferCreate _ _ hne hu _ _ he =>
    -- the destination is born first, so that it is born in the old ledger
    rw [Function.update_comm hne]
    refine (hx.bornUser hb he rfl).setBalance ?_ _
    rw [Function.update_of_ne hne]
    exact hu
  | rotate _ hu | depositCredit _ _ _ _ _ _ _ _ hu | withdraw _ _ _ _ hu =>
    exact hx.updateUser hu rfl
  | depositCreate _ _ _ _ _ _ _ _ he => exact hx.bornUser hb he rfl
  | createGame _ hu _ _ hn _ he => exact hx.createGame hu he rfl rfl hn rfl rfl
  | joinGame _ hu _ _ hg hopen =>
    have hne := ne_of_slot hu hg (by simp)
    refine (hx.setBalance hu _).updateGame ?_ (GameBody.not_finished_of_open hopen) rfl
      (GameBody.seatJoiner_creator ..)
    rw [Function.update_of_ne hne.symm]
    exact hg
  | play hmove hg hfin =>
    obtain ⟨log, hrun⟩ := hs _ _ hg
    obtain ⟨hplaying, hsame, -⟩ := hmove.from hrun
    exact hx.updateGame hg (GameBody.not_finished_of_playing hplaying) hfin (by rw [hsame.players])
  | finish hmove hg hsettle =>
    obtain ⟨log, hrun⟩ := hs _ _ hg
    obtain ⟨log', hrun'⟩ := hmove.run hrun
    obtain ⟨hplaying, hsame, hopen⟩ := hmove.from hrun
    exact hx.finish hg hplaying hsame (hrun'.seats_ne hopen) hsettle

end Step

theorem exact_of_run {B : Battery} {P : DepositPolicy} {h : List Event} {L : Ledger}
    (hrun : LedgerRun B P h L) : L.Exact := by
  induction hrun with
  | genesis => exact fun _ _ _ e => by cases e
  | step hprev hstep ih => exact hstep.exact (sound_of_run hprev) (bound_of_run hprev) ih

/-! ## Stores -/

/-- The ids of the games of a store that `p` picks. -/
def Store.gamesWhere (st : Store) (p : GameBody → Prop) : Set ResourceId :=
  {gid | ∃ g, GameBody.fromBytes (st gid) = .ok g ∧ p g}

/-- The counters of every user of a store are numbers of games in it. -/
structure Store.CountsGames (B : Battery) (st : Store) : Prop where
  started : ∀ id u, UserBody.fromBytes B (st id) = .ok u →
    u.gamesStarted.toNat = (st.gamesWhere fun g => g.creator = id).ncard
  finished : ∀ id u, UserBody.fromBytes B (st id) = .ok u →
    u.gamesFinished.toNat = (st.gamesWhere fun g =>
      g.isFinished = true ∧ (g.creator = id ∨ g.joiner = some id)).ncard
  won : ∀ id u, UserBody.fromBytes B (st id) = .ok u →
    u.gamesWon.toNat = (st.gamesWhere fun g => g.state = .first ∧ g.creator = id).ncard
      + (st.gamesWhere fun g => g.state = .second ∧ g.joiner = some id).ncard

section Stores

variable {B : Battery} {st : Store}

/-- A score is the number of the games it is about. -/
theorem Store.score_eq_ncard (st : Store) (stat : Stat) (id : ResourceId) :
    (st.ledger B).score stat id = (st.gamesWhere fun g => g.Scores id stat).ncard := by
  refine tally_eq_ncard fun gid => ?_
  cases hslot : st.ledger B gid with
  | game g =>
    have hg : GameBody.fromBytes (st gid) = .ok g := Slot.parse_eq_game.mp hslot
    rw [Slot.score_game]
    by_cases hs : g.Scores id stat
    · exact .inl ⟨⟨g, hg, hs⟩, if_pos hs⟩
    · refine .inr ⟨?_, if_neg hs⟩
      rintro ⟨g', hg', hs'⟩
      rw [hg] at hg'
      cases hg'
      exact hs hs'
  | empty | config | user | junk =>
    refine .inr ⟨?_, rfl⟩
    rintro ⟨g, hg, -⟩
    have hgame : st.ledger B gid = .game g := Slot.parse_eq_game.mpr hg
    rw [hslot] at hgame
    cases hgame

/-- A game is won by one of its seats only. -/
theorem Store.won_ncard (st : Store) (id : ResourceId) :
    (st.gamesWhere fun g => g.Scores id .won).ncard
      = (st.gamesWhere fun g => g.state = .first ∧ g.creator = id).ncard
        + (st.gamesWhere fun g => g.state = .second ∧ g.joiner = some id).ncard := by
  rw [← Set.ncard_union_eq ?_ (Set.toFinite _) (Set.toFinite _)]
  · congr 1
    ext gid
    simp only [Store.gamesWhere, GameBody.Scores, Set.mem_union, Set.mem_ofPred_eq, and_or_left,
      exists_or]
  · refine Set.disjoint_left.mpr ?_
    rintro gid ⟨g, hg, hfirst, -⟩ ⟨g', hg', hsecond, -⟩
    rw [hg] at hg'
    cases hg'
    rw [hfirst] at hsecond
    cases hsecond

theorem Ledger.Exact.countsGames (hx : (st.ledger B).Exact) : st.CountsGames B where
  started id u hu := (hx .started id u (Slot.parse_eq_user.mpr hu)).trans (st.score_eq_ncard ..)
  finished id u hu := (hx .finished id u (Slot.parse_eq_user.mpr hu)).trans (st.score_eq_ncard ..)
  won id u hu := by
    rw [← st.won_ncard, ← st.score_eq_ncard (B := B)]
    exact hx .won id u (Slot.parse_eq_user.mpr hu)

/-- **Statistics.** Between transactions, and just before and just after every
single action, the counters of every user are exact. -/
theorem stats_exact {P : DepositPolicy} {R : Rollup} (hR : Reachable B P R)
    (hst : R.Observed B P st) : st.CountsGames B := by
  obtain ⟨hist, hrun⟩ := hst.run hR
  exact (exact_of_run hrun).countsGames

theorem stats_exact_played : Sample.played.store.CountsGames .plain :=
  stats_exact Sample.reachable_played .between

end Stores

end TicTacToe
