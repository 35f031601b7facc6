/-
TicTacToe.Invariants.Liveness — no playing match can become unfinishable.

The only refusals left to an authorised turn or an expired timeout are
those of `settle_match`. In a run that deposited less than 2^64 sompi with
fewer than 2^64 actions they cannot happen: the pot and each balance are
part of what is held, each counter counts games that were created, and
the players sit where they always sat.

No `sorry`, no `axiom`, no `native_decide`.
-/
import TicTacToe.Invariants.Stats
import TicTacToe.Invariants.Value

namespace TicTacToe

open Lib
open Function (update)

def Slot.isGame : Slot → Nat
  | .game _ => 1
  | _ => 0

/-- How many games there are. -/
noncomputable def Ledger.games (L : Ledger) : Nat := tally Slot.isGame L

section Count

variable {B : Battery} {P : DepositPolicy} {cx : ApplyContext} {L L' : Ledger} {a : ActionBody}
  {flow : Flow}

theorem Ledger.games_update (L : Ledger) (i : ResourceId) (s : Slot) :
    Ledger.games (update L i s) + Slot.isGame (L i) = L.games + s.isGame :=
  tally_update Slot.isGame L i s

theorem Ledger.games_updateUser (L : Ledger) (i : ResourceId) (u : UserBody) :
    Ledger.games (update L i (.user u)) ≤ L.games := by
  have ht := L.games_update i (.user u)
  simp only [Slot.isGame] at ht
  omega

theorem Ledger.games_updateConfig (L : Ledger) (i : ResourceId) (c : ConfigBody) :
    Ledger.games (update L i (.config c)) ≤ L.games := by
  have ht := L.games_update i (.config c)
  simp only [Slot.isGame] at ht
  omega

theorem Ledger.games_updateGame (L : Ledger) (i : ResourceId) (g : GameBody) :
    Ledger.games (update L i (.game g)) ≤ L.games + 1 := by
  have ht := L.games_update i (.game g)
  simp only [Slot.isGame] at ht
  omega

/-- An action adds at most one game. -/
theorem LedgerStep.games (h : LedgerStep B P cx L a flow L') : L'.games ≤ L.games + 1 := by
  cases h with
  | update | init => exact (Ledger.games_updateConfig ..).trans (Nat.le_succ _)
  | transfer | transferCreate =>
    exact ((Ledger.games_updateUser ..).trans (Ledger.games_updateUser ..)).trans (Nat.le_succ _)
  | rotate | depositCreate | depositCredit | withdraw =>
    exact (Ledger.games_updateUser ..).trans (Nat.le_succ _)
  | createGame | joinGame =>
    exact (Ledger.games_updateGame ..).trans (Nat.succ_le_succ (Ledger.games_updateUser ..))
  | play => exact Ledger.games_updateGame ..
  | finish _ _ hsettle =>
    cases hsettle with
    | paid =>
      exact ((Ledger.games_updateUser ..).trans (Ledger.games_updateUser ..)).trans
        (Ledger.games_updateGame ..)

theorem games_of_run {h : List Event} (hrun : LedgerRun B P h L) : L.games ≤ h.length := by
  induction hrun with
  | genesis =>
    have hzero : Ledger.games (fun _ => .empty) = 0 := tally_const_zero fun _ => rfl
    rw [hzero]
    exact Nat.zero_le _
  | step _ hstep ih =>
    rw [List.length_append]
    exact hstep.games.trans (Nat.succ_le_succ ih)

end Count

/-! ## Everything settlement adds fits -/

section Fits

variable {B : Battery} {P : DepositPolicy} {L : Ledger} {h : List Event} {gid : ResourceId}
  {g : GameBody}

/-- Besides the pot, any user's balance fits. -/
theorem pot_and_balance_fit (hrun : LedgerRun B P h L) (hdep : deposits B h < 2 ^ 64)
    (hg : L gid = .game g) (hplaying : g.state = .playing) {id : ResourceId} {u : UserBody}
    (hu : L id = .user u) : u.balance.toNat + 2 * g.stake.toNat < 2 ^ 64 := by
  have hheld := held_of_run hrun
  have htwo := add_le_tally Slot.held L (ne_of_slot hu hg (by simp))
  simp only [hu, hg, Slot.held, GameBody.pot_playing hplaying] at htwo
  unfold Ledger.held at hheld
  omega

/-- A counter of finished games stays below the number of games, as long as
one of them is playing. -/
theorem stat_lt_games (hrun : LedgerRun B P h L) (hg : L gid = .game g)
    (hplaying : g.state = .playing) {st : Stat} (hst : st ≠ .started) {id : ResourceId}
    {u : UserBody} (hu : L id = .user u) : u.stat st < h.length := by
  rw [exact_of_run hrun st id u hu]
  refine lt_of_lt_of_le (tally_lt (f := Slot.score st id) (g := Slot.isGame) (fun i => ?_)
    (i := gid) ?_) (games_of_run hrun)
  · cases hslot : L i with
    | game g' =>
      rw [Slot.score_game]
      split
      · exact le_rfl
      · exact Nat.zero_le _
    | empty | config | user | junk => exact le_rfl
  · rw [hg, Slot.score_game, if_neg]
    · exact Nat.zero_lt_one
    · rw [GameBody.scores_unfinished (GameBody.not_finished_of_playing hplaying)]
      exact fun hs => hst hs.1

end Fits

section Ready

variable {B : Battery} {P : DepositPolicy} {st : Store} {cx : ApplyContext} {h : List Event}
  {gi : UInt8} {q : Resource} {g : GameBody}

/-- The user resources of both seats are attached and declared writable. -/
def PlayersAttached (cx : ApplyContext) (g : GameBody) : Prop :=
  ∀ s, ∃ (i : Nat) (r : Resource), cx.resources[i]? = some r ∧ r.id = g.players s ∧
    r.isWritable = true

/-- A playing match whose players are attached can be settled. -/
theorem settleable_of_run (hc : cx.Coherent) (hrun : LedgerRun B P h (cx.ledger B st))
    (H : NonzeroIds B (cx.ledger B st).lockHashes) (hdep : deposits B h < 2 ^ 64)
    (hact : h.length < 2 ^ 64) (hq : cx.resources[gi.toNat]? = some q)
    (hg : GameBody.fromBytes q.data = .ok g) (hplaying : g.state = .playing)
    (hattached : PlayersAttached cx g) : Settleable B cx g := by
  have hb := bound_of_run hrun
  have hslot : cx.ledger B st q.id = .game g := ApplyContext.ledger_game hc hq hg
  have hopen : g.state ≠ .open := by simp [hplaying]
  obtain ⟨log, hlog⟩ := sound_of_run hrun q.id g hslot
  obtain ⟨j, hj⟩ := hb.joiner hslot hopen
  have hseated : ∀ s, ∃ u, cx.ledger B st (g.players s) = .user u := by
    intro s
    obtain rfl | rfl := Reference.seat_cases s
    · obtain ⟨u, _, hu, -⟩ := hb.game hslot
      exact ⟨u, hu⟩
    · exact ⟨j, hj⟩
  refine ⟨?_, hb.user_ne_default H hj, hlog.seats_ne hopen, fun s => ?_⟩
  · have hfits := pot_and_balance_fit hrun hdep hslot hplaying hj
    omega
  · obtain ⟨u, hu⟩ := hseated s
    obtain ⟨i, r, hr, hid, hw⟩ := hattached s
    have hparse : UserBody.fromBytes B r.data = .ok u := by
      rw [← hid, ApplyContext.ledger_apply _ hc hr] at hu
      exact Slot.parse_eq_user.mp hu
    have hfin : u.stat .finished < h.length := stat_lt_games hrun hslot hplaying (by decide) hu
    have hwon : u.stat .won < h.length := stat_lt_games hrun hslot hplaying (by decide) hu
    simp only [UserBody.stat] at hfin hwon
    exact ⟨i, r, u, hr, hid, hw, hparse,
      ⟨pot_and_balance_fit hrun hdep hslot hplaying hu, by omega, by omega⟩⟩

/-- A ready action is accepted. -/
theorem accepted_of_ready {a : ActionBody} (hc : cx.Coherent) (hs : cx.Sound)
    (ha : a.InBounds B cx.resources.length) (hready : a.Ready B cx) :
    ∃ cx', applyAction B P a cx = .ok () cx' := by
  have hwp := wp_mono (wp_applyAction (P := P) hc hs ha) (fun _ _ h => h)
    (fun _ _ hrej => hrej.2 hready)
  obtain ⟨_, cx', hok, -⟩ := wp_total hwp
  exact ⟨cx', hok⟩

end Ready

/-! ## Turns and timeouts of a playing match -/

/-- What a playing match entitles to: the seat to move, authorised, to any
empty cell; anyone to a timeout once the deadline has passed. -/
inductive Entitled (B : Battery) (cx : ApplyContext) (gi : UInt8) (g : GameBody) :
    ActionBody → Prop
  | turn {ui cell : UInt8} {s : Seat} {r : Resource} {u : UserBody} (hcell : cell.toNat < 9) :
      toMove g = .ok s → g.board ⟨cell.toNat, hcell⟩ = .empty →
      cx.resources[ui.toNat]? = some r → r.id = g.players s →
      UserBody.fromBytes B r.data = .ok u → Opens B u.lock ui cx →
      Entitled B cx gi g (.turn gi ui cell)
  | timeout {ci : UInt8} {r : Resource} {c : ConfigBody} :
      cx.resources[ci.toNat]? = some r → ConfigBody.fromBytes B r.data = .ok c →
      g.lastMoveAt.toNat + c.turnTtl.toNat ≤ cx.context.daaScore.toNat →
      Entitled B cx gi g (.timeout gi ci)

theorem Entitled.ready {B : Battery} {cx : ApplyContext} {gi : UInt8} {g : GameBody}
    {a : ActionBody} {q : Resource} {log : List PlyEvent} (h : Entitled B cx gi g a)
    (hq : cx.resources[gi.toNat]? = some q) (hwritable : q.isWritable = true)
    (hg : GameBody.fromBytes q.data = .ok g) (hplaying : g.state = .playing)
    (hlog : GameRun g log) (hsettle : Settleable B cx g) : a.Ready B cx := by
  cases h with
  | @turn ui cell s r u hcell hmove hfree hr hid hu hopens =>
    have hseat : seatOf g r.id = .ok s := by
      rw [hid]
      obtain ⟨_, hs, -⟩ := hlog.playing hplaying
      exact hs.seatOf_player hsettle.joiner_ne s
    exact ⟨q, r, g, u, s, hcell, hq, hwritable, hg, hr, hu, hopens, hplaying, hseat, hmove, hfree,
      hsettle⟩
  | @timeout ci r c hr hconfig hpassed =>
    have hnow := cx.context.daaScore.toNat_lt
    exact ⟨q, r, g, c, hq, hwritable, hg, hr, hconfig, hplaying, ⟨by omega, hpassed⟩, hsettle⟩

section Liveness

variable {B : Battery} {P : DepositPolicy} {R : Rollup} {sub : Submission} {as : List ActionBody}
  {a : ActionBody} {cx : ApplyContext} {gi : UInt8} {q : Resource} {g : GameBody}

/-- What was accepted before the next action of a run. -/
def Rollup.history (R : Rollup) (sub : Submission) (as : List ActionBody) : List Event :=
  R.events ++ as.map (⟨sub.tx, ·⟩)

/-- **No match gets stuck.** Whatever the move sets off, a playing match whose
game and players are attached writable does not refuse what it entitles to,
as long as less than 2^64 sompi were deposited in fewer than 2^64 actions. -/
theorem entitled_accepted (hR : Reachable B P R) (hn : (sub.access.map Prod.fst).Nodup)
    (happ : R.Applying B P sub as a cx) (H : NonzeroIds B (cx.ledger B R.store).lockHashes)
    (hdep : deposits B (R.history sub as) < 2 ^ 64) (hact : (R.history sub as).length < 2 ^ 64)
    (hq : cx.resources[gi.toNat]? = some q) (hwritable : q.isWritable = true)
    (hg : GameBody.fromBytes q.data = .ok g) (hplaying : g.state = .playing)
    (hattached : PlayersAttached cx g) (hentitled : Entitled B cx gi g a) :
    ∃ cx', applyAction B P a cx = .ok () cx' := by
  obtain ⟨hinv, hin⟩ := Rollup.Applying.inv hR hn happ
  have hrun : LedgerRun B P (R.history sub as) (cx.ledger B R.store) := by
    have hledger := hinv.ledger
    rwa [hinv.tx] at hledger
  have hsettle := settleable_of_run hinv.coherent hrun H hdep hact hq hg hplaying hattached
  obtain ⟨log, hlog⟩ := hinv.sound _ q g hq hg
  exact accepted_of_ready hinv.coherent hinv.sound hin
    (hentitled.ready hq hwritable hg hplaying hlog hsettle)

/-- The winning turn, which settles the match. -/
theorem entitled_accepted_winningTurn :
    ∃ cx', applyAction .plain Sample.policy Sample.winningTurn.2.1 Sample.winningTurn.2.2
      = .ok () cx' := by
  obtain ⟨q, g, hq, hwritable, hg, hplaying, hmove, hfree, hfirst, hsecond⟩ :=
    Sample.winningTurn_game
  obtain ⟨r, u, l, hr, hid, hrw, hu, hl, hopens⟩ := Sample.winningTurn_alice
  have haction : Sample.winningTurn.2.1 = .turn 3 1 2 := by decide +kernel
  have hq : Sample.winningTurn.2.2.resources[(3 : UInt8).toNat]? = some q := hq
  refine entitled_accepted Sample.reachable_opened (Sample.access_nodup _ _)
    Sample.applying_winningTurn plain_nonzeroIds (by decide +kernel) (by decide +kernel)
    hq hwritable hg hplaying (fun s => ?_) ?_
  · obtain rfl | rfl := Reference.seat_cases s
    · exact ⟨1, r, hr, hid.trans hfirst.symm, hrw⟩
    · have hbob : (Sample.winningTurn.2.2.resources[2]?).any
          (fun r => r.id = Sample.bobId ∧ r.isWritable = true) = true := by
        decide +kernel
      obtain ⟨b, hb, hcheck⟩ := Option.any_eq_true _ _ |>.mp hbob
      obtain ⟨hbid, hbw⟩ := of_decide_eq_true hcheck
      exact ⟨2, b, hb, hbid.trans hsecond.symm, hbw⟩
  · rw [haction]
    exact .turn (by decide) hmove hfree hr (hid.trans hfirst.symm) hu ⟨l, hl, hopens⟩

end Liveness

end TicTacToe
