/-
TicTacToe.Invariants.Payout — an accepted turn or timeout changes the
game, and the two players when it finishes, and nothing else.

A slot of the ledger that stays keeps its bytes (`Slot.parse_inj`), so the
step of the ledger machine an action makes says which attached resources
it changed. The players are found by id, wherever they are attached; that
they are attached at all follows from their being paid.

No `sorry`, no `axiom`, no `native_decide`.
-/
import TicTacToe.Invariants.Representation
import TicTacToe.Reference.Outcome

namespace TicTacToe

open Lib

/-! ## Slots and bytes -/

/-- A payload that parses is the only one with its slot. -/
theorem Slot.parse_inj {B : Battery} {d d' : List UInt8} (h : Slot.parse B d = Slot.parse B d')
    (hjunk : Slot.parse B d ≠ .junk) : d = d' := by
  cases hs : Slot.parse B d with
  | empty =>
    have hs' := hs ▸ h
    rw [Slot.parse_eq_empty.mp hs, Slot.parse_eq_empty.mp hs'.symm]
  | config c =>
    have hs' := hs ▸ h
    rw [(ConfigBody.fromBytes_ok.mp (Slot.parse_eq_config.mp hs)).1,
      (ConfigBody.fromBytes_ok.mp (Slot.parse_eq_config.mp hs'.symm)).1]
  | user u =>
    have hs' := hs ▸ h
    rw [(UserBody.fromBytes_ok.mp (Slot.parse_eq_user.mp hs)).1,
      (UserBody.fromBytes_ok.mp (Slot.parse_eq_user.mp hs'.symm)).1]
  | game g =>
    have hs' := hs ▸ h
    rw [GameBody.fromBytes_ok.mp (Slot.parse_eq_game.mp hs),
      GameBody.fromBytes_ok.mp (Slot.parse_eq_game.mp hs'.symm)]
  | junk => exact absurd hs hjunk

section Attached

variable {B : Battery} {st : Store} {cx cx' : ApplyContext} {k : Nat} {r : Resource}

/-- An accepted action keeps the ids and access modes. -/
theorem Frame.resource (h : Frame cx cx') (hr : cx.resources[k]? = some r) :
    ∃ d, cx'.resources[k]? = some (r.setData d) := by
  have hkeys := congrArg (fun l => l[k]?) h.keys
  rw [List.getElem?_map, List.getElem?_map, hr, Option.map_some, Option.map_eq_some_iff] at hkeys
  obtain ⟨r', hr', hkey⟩ := hkeys
  obtain ⟨hid, hacc⟩ := Prod.mk.inj hkey
  refine ⟨r'.data, hr'.trans ?_⟩
  rw [Resource.setData, ← hid, ← hacc]

/-- The resource with a slot that stays is unchanged. -/
theorem resource_same (hf : Frame cx cx') (hc : cx.Coherent) (hc' : cx'.Coherent)
    (hr : cx.resources[k]? = some r) (hsame : cx'.ledger B st r.id = cx.ledger B st r.id)
    (hjunk : cx.ledger B st r.id ≠ .junk) : cx'.resources[k]? = some r := by
  obtain ⟨d, hd⟩ := hf.resource hr
  have hslot' := ApplyContext.ledger_apply (B := B) st hc' hd
  have hslot := ApplyContext.ledger_apply (B := B) st hc hr
  have hdata : d = r.data := by
    refine (Slot.parse_inj ?_ (hslot ▸ hjunk)).symm
    rw [← hslot, ← hsame]
    exact hslot'
  rw [hd, hdata]
  rfl

/-- The resource with a slot that became a user holds its bytes. -/
theorem resource_user (hf : Frame cx cx') (hc' : cx'.Coherent) (hr : cx.resources[k]? = some r)
    {u : UserBody} (hu : cx'.ledger B st r.id = .user u) :
    cx'.resources[k]? = some (r.setData u.toBytes) := by
  obtain ⟨d, hd⟩ := hf.resource hr
  have hslot' := ApplyContext.ledger_apply (B := B) st hc' hd
  have hparse : UserBody.fromBytes B d = .ok u := Slot.parse_eq_user.mp (hslot'.symm.trans hu)
  rw [hd, (UserBody.fromBytes_ok.mp hparse).1]

theorem resource_game (hf : Frame cx cx') (hc' : cx'.Coherent) (hr : cx.resources[k]? = some r)
    {g : GameBody} (hg : cx'.ledger B st r.id = .game g) :
    cx'.resources[k]? = some (r.setData g.toBytes) := by
  obtain ⟨d, hd⟩ := hf.resource hr
  have hslot' := ApplyContext.ledger_apply (B := B) st hc' hd
  have hparse : GameBody.fromBytes d = .ok g := Slot.parse_eq_game.mp (hslot'.symm.trans hg)
  rw [hd, GameBody.fromBytes_ok.mp hparse]

/-- A slot that changes is attached. -/
theorem attached_of_changed (hf : Frame cx cx') {id : ResourceId}
    (hne : cx'.ledger B st id ≠ cx.ledger B st id) :
    ∃ (k : Nat) (r : Resource), cx.resources[k]? = some r ∧ r.id = id := by
  by_contra hnone
  have hids : cx'.resources.map Resource.id = cx.resources.map Resource.id := by
    have hkeys := congrArg (List.map Prod.fst) hf.keys
    simpa [Function.comp_def] using hkeys
  have hout : id ∉ cx.resources.map Resource.id := by
    intro hmem
    obtain ⟨r, hr, hid⟩ := List.mem_map.mp hmem
    obtain ⟨k, hk⟩ := List.getElem?_of_mem hr
    exact hnone ⟨k, r, hk, hid⟩
  have hfind : ∀ l : List Resource, id ∉ l.map Resource.id →
      l.find? (fun r => r.id = id) = none := by
    intro l hl
    refine List.find?_eq_none.mpr fun r hr heq => hl ?_
    exact List.mem_map.mpr ⟨r, hr, of_decide_eq_true heq⟩
  refine hne ?_
  simp only [ApplyContext.ledger, Store.ledger, Store.commit, hfind _ hout,
    hfind _ (hids ▸ hout)]

end Attached

/-! ## The recorded outcome -/

/-- The outcome is the comparison of the round wins, also when it comes early. -/
theorem matchOutcome_final_state {n : UInt8} {wins : Seat → UInt8} {draws : UInt8} {s : State}
    (h : Rules.matchOutcome n wins draws = some s) :
    s = finalState (wins 0).toNat (wins 1).toNat := by
  rw [matchOutcome_cases n wins draws _ _ _ rfl rfl rfl] at h
  split at h
  · rename_i hlead
    exact (Option.some.inj h).symm.trans (finalState_first.mpr (by omega)).symm
  · split at h
    · rename_i hlead
      exact (Option.some.inj h).symm.trans (finalState_second.mpr (by omega)).symm
    · split at h
      · exact (Option.some.inj h).symm
      · cases h

theorem GameRun.outcome {g : GameBody} {log : List PlyEvent} (h : GameRun g log)
    (hfin : g.isFinished = true) :
    g.state = finalState (g.roundWins 0).toNat (g.roundWins 1).toNat := by
  have hopen : g.state ≠ .open := by
    intro e
    rw [GameBody.not_finished_of_open e] at hfin
    cases hfin
  obtain ⟨u, hs⟩ := h.started hopen
  obtain ⟨res, hres⟩ := Option.ne_none_iff_exists'.mp (stateOf_finished hs.sim.state hfin)
  refine matchOutcome_final_state (?_ : Rules.matchOutcome g.roundsTotal g.roundWins g.draws = _)
  rw [hs.matchOutcome, hs.sim.state, hres]
  rfl

/-! ## Turns and timeouts -/

/-- The attached resource `k` holds the user `id`, and is paid. -/
def PaidAt (B : Battery) (cx cx' : ApplyContext) (k : Nat) (id : ResourceId) (credit : Nat)
    (won : Bool) : Prop :=
  ∃ r u u', cx.resources[k]? = some r ∧ r.id = id ∧ UserBody.fromBytes B r.data = .ok u ∧
    cx'.resources[k]? = some (r.setData u'.toBytes) ∧ UserBody.fromBytes B u'.toBytes = .ok u' ∧
    Paid u u' credit won

/-- The playing game `g` at `gi` became `g'`: alone if the match goes on, and
with the two players' users, paid by the final round wins, if it finished. -/
structure MoveOutcome (B : Battery) (gi : Nat) (cx cx' : ApplyContext) (q : Resource)
    (g g' : GameBody) : Prop where
  attached : cx.resources[gi]? = some q
  parses : GameBody.fromBytes q.data = .ok g
  playing : g.state = .playing
  stored : cx'.resources[gi]? = some (q.setData g'.toBytes)
  unfinished : g'.isFinished = false → ∀ k, k ≠ gi → cx'.resources[k]? = cx.resources[k]?
  finished : g'.isFinished = true →
    g'.state = finalState (g'.roundWins 0).toNat (g'.roundWins 1).toNat ∧
    ∃ i j, i ≠ j ∧ i ≠ gi ∧ j ≠ gi ∧
      PaidAt B cx cx' i (g.players 0) (payout g'.state g.stake.toNat 0)
        (winnerOf g'.state = some 0) ∧
      PaidAt B cx cx' j (g.players 1) (payout g'.state g.stake.toNat 1)
        (winnerOf g'.state = some 1) ∧
      ∀ k, k ≠ gi → k ≠ i → k ≠ j → cx'.resources[k]? = cx.resources[k]?

section Moves

variable {B : Battery} {P : DepositPolicy} {st : Store} {cx cx' : ApplyContext} {a : ActionBody}
  {gi : UInt8}

/-- The action is a turn or a timeout of the game at `gi`. -/
def ActionBody.Plays (a : ActionBody) (gi : UInt8) : Prop :=
  (∃ ui cell, a = .turn gi ui cell) ∨ ∃ ci, a = .timeout gi ci

theorem GameMove.idAt {L : Ledger} {gid : ResourceId} {g g' : GameBody}
    (h : GameMove B cx L a gid g g') (ha : a.Plays gi) : cx.idAt gi = some gid := by
  obtain ⟨ui, cell, rfl⟩ | ⟨ci, rfl⟩ := ha
  · cases h with
    | turn hgi => exact hgi
  · cases h with
    | timeout hgi => exact hgi

/-- What an accepted turn or timeout did to the ledger. -/
theorem LedgerStep.played {L L' : Ledger} {flow : Flow} (h : LedgerStep B P cx L a flow L')
    (ha : a.Plays gi) :
    ∃ gid g g', GameMove B cx L a gid g g' ∧ cx.idAt gi = some gid ∧ L gid = .game g ∧
      (g'.isFinished = false ∧ L' = Function.update L gid (.game g') ∨
        Settlement (Function.update L gid (.game g')) g' L') := by
  cases h with
  | play hmove hg hfin => exact ⟨_, _, _, hmove, hmove.idAt ha, hg, .inl ⟨hfin, rfl⟩⟩
  | finish hmove hg hsettle => exact ⟨_, _, _, hmove, hmove.idAt ha, hg, .inr hsettle⟩
  | _ =>
    obtain ⟨_, _, ha⟩ | ⟨_, ha⟩ := ha
    · cases ha
    · cases ha

/-- A paid slot is another one. -/
theorem Paid.slot_ne {u u' : UserBody} {credit : Nat} {won : Bool} (h : Paid u u' credit won) :
    Slot.user u' ≠ Slot.user u := by
  intro e
  have hfin := h.gamesFinished
  rw [Slot.user.inj e] at hfin
  omega

/-- Over a ledger with a history, an accepted turn or timeout changes the game
alone, or settles it. -/
theorem Accepted.played {hist : List Event} (hc : cx.Coherent)
    (hL : LedgerRun B P hist (cx.ledger B st)) (hacc : Accepted B P cx a cx') (ha : a.Plays gi) :
    ∃ (q : Resource) (g g' : GameBody), MoveOutcome B gi.toNat cx cx' q g g' := by
  obtain ⟨flow, hstep, -, -⟩ := hacc.step
  obtain ⟨gid, g, g', hmove, hgi, hg, hafter⟩ := (hstep st).played ha
  obtain ⟨q, hq, rfl⟩ := Option.map_eq_some_iff.mp hgi
  obtain ⟨log, hrun⟩ := sound_of_run hL _ _ hg
  obtain ⟨hon, hsame, hopen⟩ := hmove.from hrun
  obtain ⟨log', hrun'⟩ := hmove.run hrun
  have hjunk := (bound_of_run hL).parses
  have hframe := hacc.frame
  have hc' := hacc.coherent
  -- a resource whose slot stays is unchanged
  have hstays : ∀ k : Nat, (∀ r : Resource, cx.resources[k]? = some r →
      cx'.ledger B st r.id = cx.ledger B st r.id) → cx'.resources[k]? = cx.resources[k]? := by
    intro k hk
    cases hr : cx.resources[k]? with
    | none =>
      have hlen := congrArg List.length hframe.keys
      rw [List.length_map, List.length_map] at hlen
      rw [List.getElem?_eq_none_iff] at hr ⊢
      omega
    | some r => exact resource_same hframe hc hc' hr (hk r hr) (hjunk _)
  have hother : ∀ {k l : Nat} {r r' : Resource}, cx.resources[k]? = some r →
      cx.resources[l]? = some r' → k ≠ l → r.id ≠ r'.id := fun hk hl hne e =>
    hne (index_unique hc.nodup hk hl e)
  have hparse : GameBody.fromBytes q.data = .ok g :=
    Slot.parse_eq_game.mp ((ApplyContext.ledger_apply _ hc hq).symm.trans hg)
  refine ⟨q, g, g', ?_⟩
  rcases hafter with ⟨hfin, hL'⟩ | hsettle
  · -- the match goes on
    refine ⟨hq, hparse, hon, resource_game hframe hc' hq (by rw [hL', Function.update_self]),
      fun _ k hk => ?_, fun e => ?_⟩
    · refine hstays k fun r hr => ?_
      rw [hL', Function.update_of_ne (hother hr hq hk)]
    · rw [hfin] at e
      cases e
  · -- the match is over: both players are users, at other ids than the game
    generalize hledger : cx'.ledger B st = L' at hsettle
    cases hsettle with
    | @paid u₀ u₀' u₁ u₁' hfin _ hu₀ hpaid₀ hu₁ hpaid₁ =>
      have hne : g'.players 1 ≠ g'.players 0 := hrun'.seats_ne hopen
      have hne₀ : g'.players 0 ≠ q.id := by
        intro e
        rw [e, Function.update_self] at hu₀
        cases hu₀
      rw [Function.update_of_ne hne] at hu₁
      have hne₁ : g'.players 1 ≠ q.id := by
        intro e
        rw [e, Function.update_self] at hu₁
        cases hu₁
      rw [Function.update_of_ne hne₀] at hu₀
      rw [Function.update_of_ne hne₁] at hu₁
      have h₀ : cx'.ledger B st (g'.players 0) = .user u₀' := by
        rw [hledger, Function.update_of_ne hne.symm, Function.update_self]
      have h₁ : cx'.ledger B st (g'.players 1) = .user u₁' := by
        rw [hledger, Function.update_self]
      have hrest : ∀ id, id ≠ q.id → id ≠ g'.players 0 → id ≠ g'.players 1 →
          cx'.ledger B st id = cx.ledger B st id := by
        intro id hid hid₀ hid₁
        rw [hledger, Function.update_of_ne hid₁, Function.update_of_ne hid₀,
          Function.update_of_ne hid]
      obtain ⟨i, r, hr, hrid⟩ := attached_of_changed hframe (by
        rw [h₀, hu₀]
        exact hpaid₀.slot_ne)
      obtain ⟨j, s, hs, hsid⟩ := attached_of_changed hframe (by
        rw [h₁, hu₁]
        exact hpaid₁.slot_ne)
      have hpaidAt : ∀ {k : Nat} {r : Resource} {u u' : UserBody} {credit : Nat} {won : Bool},
          cx.resources[k]? = some r → cx.ledger B st r.id = .user u →
          cx'.ledger B st r.id = .user u' → Paid u u' credit won →
          PaidAt B cx cx' k r.id credit won := by
        intro k r u u' credit won hk hu hu' hpaid
        have hnew := resource_user hframe hc' hk hu'
        have hslot := ApplyContext.ledger_apply (B := B) st hc' hnew
        exact ⟨r, u, u', hk, rfl,
          Slot.parse_eq_user.mp ((ApplyContext.ledger_apply _ hc hk).symm.trans hu), hnew,
          Slot.parse_eq_user.mp (hslot.symm.trans hu'), hpaid⟩
      have hgame : cx'.ledger B st q.id = .game g' := by
        rw [hledger, Function.update_of_ne hne₁.symm, Function.update_of_ne hne₀.symm,
          Function.update_self]
      refine ⟨hq, hparse, hon, resource_game hframe hc' hq hgame, fun e => ?_,
        fun _ => ⟨hrun'.outcome hfin, i, j, ?_, ?_, ?_, ?_, ?_,
          fun k hk hki hkj => hstays k fun t ht => ?_⟩⟩
      · rw [hfin] at e
        cases e
      · rintro rfl
        rw [hr] at hs
        cases hs
        exact hne (hsid.symm.trans hrid)
      · rintro rfl
        rw [hr] at hq
        cases hq
        exact hne₀ hrid.symm
      · rintro rfl
        rw [hs] at hq
        cases hq
        exact hne₁ hsid.symm
      · rw [← hsame.players, ← hsame.stake, ← hrid]
        exact hpaidAt hr (hrid ▸ hu₀) (hrid ▸ h₀) hpaid₀
      · rw [← hsame.players, ← hsame.stake, ← hsid]
        exact hpaidAt hs (hsid ▸ hu₁) (hsid ▸ h₁) hpaid₁
      · exact hrest t.id (hother ht hq hk) (hrid ▸ hother ht hr hki) (hsid ▸ hother ht hs hkj)

end Moves

/-- **Settlement.** At any moment of any run, an accepted turn or timeout
takes a playing game one move on. If the match goes on, no other attached
resource changes. If it finished, the state is the comparison of the final
round wins, the two players' users are paid by it, and no other attached
resource changes. -/
theorem settlement_exact {B : Battery} {P : DepositPolicy} {R : Rollup} {sub : Submission}
    {as : List ActionBody} {a : ActionBody} {gi : UInt8} {cx cx' : ApplyContext}
    (hR : Reachable B P R) (hn : (sub.access.map Prod.fst).Nodup)
    (happ : R.Applying B P sub as a cx) (ha : a.Plays gi)
    (hact : applyAction B P a cx = .ok () cx') :
    ∃ (q : Resource) (g g' : GameBody), MoveOutcome B gi.toNat cx cx' q g g' := by
  obtain ⟨hinv, hin⟩ := Rollup.Applying.inv hR hn happ
  have hacc := (wp_applyAction hinv.coherent hinv.sound hin).ok hact
  exact hacc.played hinv.coherent hinv.ledger ha

theorem settlement_exact_winningTurn :
    ∃ cx', applyAction .plain Sample.policy (.turn 3 1 2) Sample.winningTurn.2.2 = .ok () cx' ∧
      ∃ (q : Resource) (g g' : GameBody),
        MoveOutcome .plain 3 Sample.winningTurn.2.2 cx' q g g' := by
  have haction : Sample.winningTurn.2.1 = .turn 3 1 2 := by decide +kernel
  have hok : (match applyAction .plain Sample.policy (.turn 3 1 2) Sample.winningTurn.2.2 with
      | .ok _ _ => true
      | .error _ _ => false) = true := by
    decide +kernel
  cases h : applyAction .plain Sample.policy (.turn 3 1 2) Sample.winningTurn.2.2 with
  | error e cx' =>
    rw [h] at hok
    cases hok
  | ok u cx' =>
    exact ⟨cx', rfl, settlement_exact Sample.reachable_opened (Sample.access_nodup _ _)
      (haction ▸ Sample.applying_winningTurn) (.inl ⟨1, 2, rfl⟩) h⟩

end TicTacToe
