/-
TicTacToe.Ledger.Games — the four game handlers implement the ledger
machine, and with them all ten do (`wp_applyAction`).

A turn or a timeout reads the match it plays out of a resource, so here
the rules ask that the attached games be runs (`Sound`): that is what
keeps the indexing and the counters of the cascade inside their types.
Each refusal also says what was missing (`TurnReady`, `TimeoutReady`).

No `sorry`, no `axiom`, no `native_decide`.
-/
import TicTacToe.Ledger.Handlers
import TicTacToe.Ledger.Settle
import TicTacToe.Reference.Run

namespace TicTacToe

open Lib

/-- Every attached game is a run. -/
def ApplyContext.Sound (cx : ApplyContext) : Prop :=
  ∀ (i : Nat) (r : Resource) (g : GameBody), cx.resources[i]? = some r →
    GameBody.fromBytes r.data = .ok g → ∃ log, GameRun g log

section Plies

variable {B : Battery} {g g' : GameBody} {log : List PlyEvent}

/-- A turn of a run plays on, or is refused for a reason. -/
theorem GameRun.wp_playTurn (h : GameRun g log) {cell : UInt8} (hcell : cell.toNat < 9)
    (moverId : ResourceId) (now : UInt64) :
    wp (playTurn moverId cell now)
      (fun fin p' => g.state = .playing ∧ SameMatch g p'.game ∧ fin = p'.game.isFinished)
      (fun e _ => e.IsReject ∧ ¬ (g.state = .playing ∧ ∃ s, seatOf g moverId = .ok s ∧
        toMove g = .ok s ∧ g.board ⟨cell.toNat, hcell⟩ = .empty))
      ⟨g, []⟩ := by
  by_cases hplaying : g.state = .playing
  · obtain ⟨u, hs, hon⟩ := h.playing hplaying
    refine wp_mono (TicTacToe.wp_playTurn [] hs.toStores hs.settled hon hcell moverId) ?_ ?_
    · intro fin p' hplayed
      obtain ⟨_, _, _, hreach, _, hfin⟩ := hplayed
      exact ⟨hplaying, hreach.same, hfin⟩
    · intro e _ hrefused
      obtain ⟨hrej, hno⟩ := hrefused
      refine ⟨hrej, ?_⟩
      intro hready
      obtain ⟨-, s, hseat, hmove, hfree⟩ := hready
      rw [toMove_sim hs.sim hs.valid] at hmove
      cases hmove
      exact hno ⟨hseat, hfree⟩
  · refine wp_mono (wp_playTurn_idle hplaying moverId cell) (fun _ _ h => h.elim) ?_
    exact fun e _ hrej => ⟨hrej, fun hc => hplaying hc.1⟩

/-- A forfeit of a run is granted, or refused while the clock runs. -/
theorem GameRun.wp_forfeitRound (h : GameRun g log) (turnTtl now : UInt64) :
    wp (forfeitRound turnTtl now)
      (fun fin p' => g.state = .playing ∧ SameMatch g p'.game ∧ fin = p'.game.isFinished)
      (fun e _ => e.IsReject ∧ ¬ (g.state = .playing ∧ Expired g turnTtl now)) ⟨g, []⟩ := by
  by_cases hplaying : g.state = .playing
  · obtain ⟨u, hs, hon⟩ := h.playing hplaying
    refine wp_mono (TicTacToe.wp_forfeitRound [] hs.toStores hon turnTtl now) ?_ ?_
    · intro fin p' hclaimed
      obtain ⟨_, hf, _, _, hfin⟩ := hclaimed
      exact ⟨hplaying, hf.same, hfin⟩
    · exact fun e _ hrej => ⟨hrej.1, fun hc => hrej.2 hc.2⟩
  · refine wp_mono (wp_forfeitRound_idle hplaying turnTtl now) (fun _ _ h => h.elim) ?_
    exact fun e _ hrej => ⟨hrej, fun hc => hplaying hc.1⟩

end Plies

section Handlers

variable {B : Battery} {P : DepositPolicy} {cx : ApplyContext}

theorem wp_debitCreator {stake n : UInt64} {Q : Unit → UserBody → Prop} {u : UserBody}
    (hn : n = u.gamesStarted)
    (hQ : ∀ b n' : UInt64, b.toNat + stake.toNat = u.balance.toNat →
      n'.toNat = u.gamesStarted.toNat + 1 →
      Q () { u with balance := b, gamesStarted := n' }) :
    wp (debitCreator stake n) Q (fun e _ => e.IsReject) u := by
  simp only [debitCreator, wp_bind]
  refine wp_debitBalance (fun _ => trivial) fun b hb => ?_
  simp only [wp_get, wp_okOr, wp_set]
  exact ⟨fun n' hn' => hQ b n' hb (hn ▸ checkedAdd_eq_some.mp hn'), fun _ => trivial⟩

theorem wp_applyCreateGame {ci gi : UInt8} {stake : UInt64} {rounds : UInt8} {mark : Cell}
    (hc : cx.Coherent) (hci : ci.toNat < cx.resources.length)
    (hgi : gi.toNat < cx.resources.length) (hmark : mark ≠ .empty) :
    wp (applyCreateGame B ci gi stake rounds mark)
      (fun _ cx' => Accepted B P cx (.createGame ci gi stake rounds mark) cx')
      (fun e _ => e.IsReject) cx := by
  obtain ⟨r, hr⟩ := ApplyContext.exists_resource hci
  obtain ⟨q, hq⟩ := ApplyContext.exists_resource hgi
  unfold applyCreateGame
  by_cases hrounds : rounds = 0
  · rw [if_pos hrounds]
    trivial
  simp only [hrounds, if_false, wp_bind, wp_lifecycleAt (hc.lifecycle_at hq)]
  by_cases hempty : q.data = []
  swap
  · simp only [Lifecycle.fromResource_live.mpr hempty, ne_eq, reduceCtorEq, not_false_eq_true,
      if_true]
    trivial
  have hnew := Lifecycle.fromResource_new.mpr hempty
  simp only [hnew, ne_eq, not_true_eq_false, if_false, wp_bind]
  refine wp_requireUserLock hr (fun _ _ => trivial) fun u hu hop => ?_
  simp only [wp_resourceAt hq]
  by_cases hid : q.id = deriveGameResource B u.initialLockHash u.gamesStarted
  swap
  · simp only [hid, not_false_eq_true, if_true]
    trivial
  simp only [hid, not_true_eq_false, if_false, wp_bind]
  refine wp_modifyKnownUser hr hu trivial ?_
  refine wp_debitCreator rfl fun b n hb hn => ?_
  set u₁ : UserBody := { u with balance := b, gamesStarted := n } with hu₁
  have hparse := parse_modified u₁ hu rfl rfl
  -- the creator's slot holds data, the game's does not
  have hne : ci.toNat ≠ gi.toNat := by
    intro e
    rw [e, hq] at hr
    cases hr
    exact data_ne_nil_of_user hu hempty
  set cx₁ := cx.setResource ci.toNat (r.setData u₁.toBytes) with hcx₁
  have hc₁ : cx₁.Coherent := hc.setData hr (data_ne_nil_of_user hu) UserBody.toBytes_ne_nil
  have hr₁ : cx₁.resources[ci.toNat]? = some (r.setData u₁.toBytes) :=
    ApplyContext.setResource_self hr
  have hq₁ : cx₁.resources[gi.toNat]? = some q := (ApplyContext.setResource_ne hne).trans hq
  refine (wp_markCreated ((hc₁.lifecycle_at hq₁).trans (by rw [hnew]))).mpr ?_
  set cx₂ : ApplyContext := { cx₁ with lifecycle := cx₁.lifecycle.set gi.toNat .live } with hcx₂
  have hr₂ : cx₂.resources[ci.toNat]? = some (r.setData u₁.toBytes) := hr₁
  have hq₂ : cx₂.resources[gi.toNat]? = some q := hq₁
  rw [wp_resourceAt hr₂, wp_onResource hq₂]
  refine wp_initGame hmark (fun _ => trivial) (fun _ => trivial) fun _ _ => ?_
  change Accepted B P cx _ (cx₁.createResource gi.toNat
    (q.setData (GameBody.fresh r.id mark stake rounds).toBytes))
  refine ⟨(ApplyContext.frame_setData hr _).trans (ApplyContext.frame_createData hq₁ _),
    hc₁.createData hq₁ GameBody.toBytes_ne_nil, .none, fun st => ?_,
    (List.append_nil _).symm, (List.append_nil _).symm⟩
  rw [ApplyContext.ledger_createData hc₁ hq₁, hcx₁, ApplyContext.ledger_setData hc hr, hparse,
    Slot.parse_game]
  exact .createGame (ApplyContext.idAt_of hr) (ApplyContext.ledger_user hc hr hu) hop hb hn
    (ApplyContext.idAt_of hq) (ApplyContext.ledger_empty hc hq hempty) hid hrounds hmark

theorem wp_applyJoinGame {gi ji : UInt8} (hc : cx.Coherent)
    (hgi : gi.toNat < cx.resources.length) (hji : ji.toNat < cx.resources.length) :
    wp (applyJoinGame B gi ji) (fun _ cx' => Accepted B P cx (.joinGame gi ji) cx')
      (fun e _ => e.IsReject) cx := by
  obtain ⟨q, hq⟩ := ApplyContext.exists_resource hgi
  obtain ⟨r, hr⟩ := ApplyContext.exists_resource hji
  simp only [applyJoinGame, wp_bind]
  refine wp_requireUserLock hr (fun _ _ => trivial) fun u hu hop => ?_
  simp only [wp_resourceAt hq, wp_okOr]
  refine ⟨?_, fun _ => trivial⟩
  rintro ⟨state, creator, stake⟩ hview
  obtain ⟨g, hg, e⟩ := viewBody_eq_some.mp hview
  obtain ⟨rfl, e'⟩ := Prod.mk.inj e
  obtain ⟨rfl, rfl⟩ := Prod.mk.inj e'
  by_cases hopen : g.state = .open
  swap
  · simp only [ne_eq, hopen, not_false_eq_true, if_true]
    trivial
  simp only [hopen, ne_eq, not_true_eq_false, if_false, wp_bind, wp_resourceAt hr]
  by_cases hself : r.id = g.creator
  · rw [if_pos hself]
    trivial
  simp only [hself, if_false, wp_bind]
  refine wp_modifyKnownUser hr hu trivial ?_
  refine wp_debitBalance (fun _ => trivial) fun b hb => ?_
  have hparse := parse_modified { u with balance := b } hu rfl rfl
  -- a user is not a game
  have hne : ji.toNat ≠ gi.toNat := by
    intro e
    rw [e, hq] at hr
    cases hr
    have hslot := Slot.parse_eq_user.mpr hu
    rw [Slot.parse_eq_game.mpr hg] at hslot
    cases hslot
  set cx₁ := cx.setResource ji.toNat (r.setData (UserBody.toBytes { u with balance := b }))
    with hcx₁
  have hc₁ : cx₁.Coherent := hc.setData hr (data_ne_nil_of_user hu) UserBody.toBytes_ne_nil
  have hq₁ : cx₁.resources[gi.toNat]? = some q := (ApplyContext.setResource_ne hne).trans hq
  rw [wp_get]
  refine wp_modifyGameAt hq₁ (fun _ => trivial) fun g' _ hg' => ?_
  rw [hg] at hg'
  cases hg'
  rw [wp_modify]
  refine ⟨(ApplyContext.frame_setData hr _).trans (ApplyContext.frame_setData hq₁ _),
    hc₁.setData hq₁ (data_ne_nil_of_game hg) GameBody.toBytes_ne_nil, .none, fun st => ?_,
    (List.append_nil _).symm, (List.append_nil _).symm⟩
  rw [ApplyContext.ledger_setData hc₁ hq₁, hcx₁, ApplyContext.ledger_setData hc hr, hparse,
    Slot.parse_game]
  exact .joinGame (ApplyContext.idAt_of hr) (ApplyContext.ledger_user hc hr hu) hop
    (ApplyContext.idAt_of hq) (ApplyContext.ledger_game hc hq hg) hopen hself hb

/-! ## Turns and timeouts -/

theorem Settleable.played {q : Resource} {gi : Nat} {g g' : GameBody} (hc : cx.Coherent)
    (h : Settleable B cx g) (hq : cx.resources[gi]? = some q)
    (hg : GameBody.fromBytes q.data = .ok g) (hsame : SameMatch g g') :
    Settleable B (cx.setResource gi (q.setData g'.toBytes)) g' where
  pot := by
    rw [hsame.stake]
    exact h.pot
  joiner_ne := by
    rw [hsame.players]
    exact h.joiner_ne
  seats_ne := by
    rw [hsame.players]
    exact h.seats_ne
  payable s := by
    rw [hsame.players, hsame.stake]
    refine (h.payable s).setResource hq fun e => ?_
    -- a player's slot holds a user, this one a game
    obtain ⟨i, r, u, hi, hid, -, hu, -⟩ := h.payable s
    obtain rfl := index_unique hc.nodup hi hq (hid.trans e.symm)
    rw [hi] at hq
    cases hq
    have hslot := Slot.parse_eq_user.mpr hu
    rw [Slot.parse_eq_game.mpr hg] at hslot
    cases hslot

/-- What follows the plies: settlement exactly when the match finished. -/
theorem wp_settleFinished {a : ActionBody} {gi : UInt8} {q : Resource} {g g' : GameBody}
    {fin : Bool} {F : Fault → Prop} (hc : cx.Coherent) (hq : cx.resources[gi.toNat]? = some q)
    (hg : GameBody.fromBytes q.data = .ok g)
    (hmove : ∀ st, GameMove B cx (cx.ledger B st) a q.id g g') (hsame : SameMatch g g')
    (hfin : fin = g'.isFinished) (hE : ¬ Settleable B cx g → ∀ m, F (.decode m)) :
    wp (if fin = true then settleMatch B gi else pure ())
      (fun _ cx' => Accepted B P cx a cx') (fun e _ => F e)
      (cx.setResource gi.toNat (q.setData g'.toBytes)) := by
  have hc₁ := hc.setData hq (data_ne_nil_of_game hg) (GameBody.toBytes_ne_nil (g := g'))
  have hframe₁ := ApplyContext.frame_setData hq g'.toBytes
  have hledger₁ : ∀ st, (cx.setResource gi.toNat (q.setData g'.toBytes)).ledger B st
      = Function.update (cx.ledger B st) q.id (.game g') := fun st => by
    rw [ApplyContext.ledger_setData hc hq, Slot.parse_game]
  have hslot : ∀ st, cx.ledger B st q.id = .game g := fun _ => ApplyContext.ledger_game hc hq hg
  cases hf : g'.isFinished with
  | false =>
    rw [hfin, hf, if_neg (by decide), wp_pure]
    refine ⟨hframe₁, hc₁, .none, fun st => ?_, (List.append_nil _).symm, (List.append_nil _).symm⟩
    rw [hledger₁]
    exact .play (hmove st) (hslot st) hf
  | true =>
    rw [hfin, hf, if_pos rfl]
    refine wp_settleMatch hc₁ (ApplyContext.setResource_self hq) (GameBody.fromBytes_toBytes g') hf
      (fun hno => hE fun h => hno (h.played hc hq hg hsame)) ?_
    intro cx' hframe hc' hexits hcons hsettle
    refine ⟨hframe₁.trans hframe, hc', .none, fun st => ?_, ?_, ?_⟩
    · have hpaid := hsettle st
      rw [hledger₁] at hpaid
      exact .finish (hmove st) (hslot st) hpaid
    · rw [hexits]
      exact (List.append_nil _).symm
    · rw [hcons]
      exact (List.append_nil _).symm

/-- The seat to move, authorised, has a free cell, and the match can be
settled should this finish it. -/
def TurnReady (B : Battery) (cx : ApplyContext) (gi ui cell : UInt8) : Prop :=
  ∃ (q r : Resource) (g : GameBody) (u : UserBody) (s : Seat) (hcell : cell.toNat < 9),
    cx.resources[gi.toNat]? = some q ∧ q.isWritable = true ∧ GameBody.fromBytes q.data = .ok g ∧
    cx.resources[ui.toNat]? = some r ∧ UserBody.fromBytes B r.data = .ok u ∧ Opens B u.lock ui cx ∧
    g.state = .playing ∧ seatOf g r.id = .ok s ∧ toMove g = .ok s ∧
    g.board ⟨cell.toNat, hcell⟩ = .empty ∧ Settleable B cx g

/-- The clock of a playing match ran out, and it can be settled. -/
def TimeoutReady (B : Battery) (cx : ApplyContext) (gi ci : UInt8) : Prop :=
  ∃ (q r : Resource) (g : GameBody) (c : ConfigBody),
    cx.resources[gi.toNat]? = some q ∧ q.isWritable = true ∧ GameBody.fromBytes q.data = .ok g ∧
    cx.resources[ci.toNat]? = some r ∧ ConfigBody.fromBytes B r.data = .ok c ∧
    g.state = .playing ∧ Expired g c.turnTtl cx.context.daaScore ∧ Settleable B cx g

theorem TurnReady.reads {gi ui cell : UInt8} {q r : Resource} (h : TurnReady B cx gi ui cell)
    (hq : cx.resources[gi.toNat]? = some q) (hr : cx.resources[ui.toNat]? = some r) :
    ∃ (g : GameBody) (u : UserBody) (s : Seat) (hcell : cell.toNat < 9),
      q.isWritable = true ∧ GameBody.fromBytes q.data = .ok g ∧
      UserBody.fromBytes B r.data = .ok u ∧ Opens B u.lock ui cx ∧ g.state = .playing ∧
      seatOf g r.id = .ok s ∧ toMove g = .ok s ∧ g.board ⟨cell.toNat, hcell⟩ = .empty ∧
      Settleable B cx g := by
  obtain ⟨q', r', g, u, s, hcell, hq', hw, hg, hr', hu, hrest⟩ := h
  obtain rfl : q = q' := Option.some.inj (hq.symm.trans hq')
  obtain rfl : r = r' := Option.some.inj (hr.symm.trans hr')
  exact ⟨g, u, s, hcell, hw, hg, hu, hrest⟩

theorem TimeoutReady.reads {gi ci : UInt8} {q r : Resource} (h : TimeoutReady B cx gi ci)
    (hq : cx.resources[gi.toNat]? = some q) (hr : cx.resources[ci.toNat]? = some r) :
    ∃ (g : GameBody) (c : ConfigBody), q.isWritable = true ∧ GameBody.fromBytes q.data = .ok g ∧
      ConfigBody.fromBytes B r.data = .ok c ∧ g.state = .playing ∧
      Expired g c.turnTtl cx.context.daaScore ∧ Settleable B cx g := by
  obtain ⟨q', r', g, c, hq', hw, hg, hr', hrest⟩ := h
  obtain rfl : q = q' := Option.some.inj (hq.symm.trans hq')
  obtain rfl : r = r' := Option.some.inj (hr.symm.trans hr')
  exact ⟨g, c, hw, hg, hrest⟩

theorem wp_applyTurn {gi ui cell : UInt8} (hc : cx.Coherent) (hs : cx.Sound)
    (hgi : gi.toNat < cx.resources.length) (hui : ui.toNat < cx.resources.length)
    (hcell : cell.toNat < 9) :
    wp (applyTurn B gi ui cell) (fun _ cx' => Accepted B P cx (.turn gi ui cell) cx')
      (fun e _ => e.IsReject ∧ ¬ TurnReady B cx gi ui cell) cx := by
  obtain ⟨q, hq⟩ := ApplyContext.exists_resource hgi
  obtain ⟨r, hr⟩ := ApplyContext.exists_resource hui
  simp only [applyTurn, wp_bind]
  refine wp_requireUserLock hr (fun hno _ => ⟨trivial, ?_⟩) fun u hu hop => ?_
  · intro hready
    obtain ⟨g, u, s, _, _, _, hu, hop, _⟩ := hready.reads hq hr
    exact hno u hu hop
  simp only [wp_resourceAt hr, wp_get]
  refine wp_modifyGameAt hq (fun hno => ⟨trivial, ?_⟩) fun g hw hg => ?_
  · intro hready
    obtain ⟨g, u, s, _, hw, hg, _⟩ := hready.reads hq hr
    exact hno hw g hg
  obtain ⟨log, hrun⟩ := hs _ _ _ hq hg
  refine wp_mono (wp_run (hrun.wp_playTurn hcell r.id cx.context.daaScore)) ?_ ?_
  · rintro fin ⟨g', l⟩ ⟨hok, -, hsame, hfin⟩
    refine wp_settleFinished hc hq hg (fun st => ?_) hsame hfin fun hno _ => ⟨trivial, ?_⟩
    · exact .turn (ApplyContext.idAt_of hq) (ApplyContext.idAt_of hr)
        (ApplyContext.ledger_user hc hr hu) hop hok
    · intro hready
      obtain ⟨g₁, u, s, _, _, hg', _, _, _, _, _, _, hsettle⟩ := hready.reads hq hr
      obtain rfl := Except.ok.inj (hg.symm.trans hg')
      exact hno hsettle
  · intro e _ hrefused
    obtain ⟨hrej, hno⟩ := hrefused
    refine ⟨hrej, ?_⟩
    intro hready
    obtain ⟨g₁, u, s, _, _, hg', _, _, hplaying, hseat, hmove, hfree, _⟩ := hready.reads hq hr
    obtain rfl := Except.ok.inj (hg.symm.trans hg')
    exact hno ⟨hplaying, s, hseat, hmove, hfree⟩

theorem wp_applyTimeout {gi ci : UInt8} (hc : cx.Coherent) (hs : cx.Sound)
    (hgi : gi.toNat < cx.resources.length) (hci : ci.toNat < cx.resources.length) :
    wp (applyTimeout B gi ci) (fun _ cx' => Accepted B P cx (.timeout gi ci) cx')
      (fun e _ => e.IsReject ∧ ¬ TimeoutReady B cx gi ci) cx := by
  obtain ⟨q, hq⟩ := ApplyContext.exists_resource hgi
  obtain ⟨r, hr⟩ := ApplyContext.exists_resource hci
  simp only [applyTimeout, wp_bind]
  refine wp_viewConfigAt hr (fun hno _ => ⟨trivial, ?_⟩) fun c hconfig => ?_
  · intro hready
    obtain ⟨g, c, _, _, hconfig, _⟩ := hready.reads hq hr
    exact hno c hconfig
  rw [wp_get]
  refine wp_modifyGameAt hq (fun hno => ⟨trivial, ?_⟩) fun g hw hg => ?_
  · intro hready
    obtain ⟨g, c, hw, hg, _⟩ := hready.reads hq hr
    exact hno hw g hg
  obtain ⟨log, hrun⟩ := hs _ _ _ hq hg
  refine wp_mono (wp_run (hrun.wp_forfeitRound c.turnTtl cx.context.daaScore)) ?_ ?_
  · rintro fin ⟨g', l⟩ ⟨hok, -, hsame, hfin⟩
    refine wp_settleFinished hc hq hg (fun st => ?_) hsame hfin fun hno _ => ⟨trivial, ?_⟩
    · exact .timeout (ApplyContext.idAt_of hq) (ApplyContext.idAt_of hr)
        (ApplyContext.ledger_config hc hr hconfig) hok
    · intro hready
      obtain ⟨g₁, c, _, hg', _, _, _, hsettle⟩ := hready.reads hq hr
      obtain rfl := Except.ok.inj (hg.symm.trans hg')
      exact hno hsettle
  · intro e _ hrefused
    obtain ⟨hrej, hno⟩ := hrefused
    refine ⟨hrej, ?_⟩
    intro hready
    obtain ⟨g₁, c', _, hg', hconfig', hplaying, hexp, _⟩ := hready.reads hq hr
    obtain rfl := Except.ok.inj (hg.symm.trans hg')
    obtain rfl := Except.ok.inj (hconfig.symm.trans hconfig')
    exact hno ⟨hplaying, hexp⟩

/-! ## All ten -/

/-- The actions that a sound state never refuses. -/
def ActionBody.Ready (B : Battery) (cx : ApplyContext) : ActionBody → Prop
  | .turn gi ui cell => TurnReady B cx gi ui cell
  | .timeout gi ci => TimeoutReady B cx gi ci
  | _ => False

/-- **The machine is implemented.** Over coherent resources with sound games
an in-bounds action is a step of the ledger, or rejected, and a ready one
is not rejected. -/
theorem wp_applyAction {a : ActionBody} (hc : cx.Coherent) (hs : cx.Sound)
    (ha : a.InBounds B cx.resources.length) :
    wp (applyAction B P a) (fun _ cx' => Accepted B P cx a cx')
      (fun e _ => e.IsReject ∧ ¬ a.Ready B cx) cx := by
  have hready : ∀ {x : Guest Unit}, a.Ready B cx = False →
      wp x (fun _ cx' => Accepted B P cx a cx') (fun e _ => e.IsReject) cx →
      wp x (fun _ cx' => Accepted B P cx a cx') (fun e _ => e.IsReject ∧ ¬ a.Ready B cx) cx :=
    fun hno h => wp_mono h (fun _ _ h => h) fun _ _ h => ⟨h, hno ▸ not_false⟩
  cases a with
  | update => exact hready rfl (wp_applyUpdate hc ha.1 ha.2)
  | init => exact hready rfl (wp_applyInit hc ha.1 ha.2)
  | transfer => exact hready rfl (wp_applyTransfer hc ha.1 ha.2.1 ha.2.2)
  | updateUserLock => exact hready rfl (wp_applyUpdateUserLock hc ha.1 ha.2)
  | deposit => exact hready rfl (wp_applyDeposit hc ha.2.1 ha.2.2)
  | withdraw => exact hready rfl (wp_applyWithdraw hc ha.1 ha.2)
  | createGame => exact hready rfl (wp_applyCreateGame hc ha.1 ha.2.1 ha.2.2)
  | joinGame => exact hready rfl (wp_applyJoinGame hc ha.1 ha.2)
  | turn => exact wp_applyTurn hc hs ha.1 ha.2.1 ha.2.2
  | timeout => exact wp_applyTimeout hc hs ha.1 ha.2

end Handlers

end TicTacToe
