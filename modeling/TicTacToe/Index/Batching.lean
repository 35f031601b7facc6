/-
TicTacToe.Index.Batching — the event log does not depend on how actions
are batched, and agrees with the counters of the ledger.

`LedgerStep.ahead` is what one accepted action can do to a game body:
nothing else than what `GameBody.Ahead` allows. From it the events of
consecutive steps telescope over every cut of every run, and over any
batching of a run the log of a player counts the games its counters
count.

No `sorry`, no `axiom`, no `native_decide`.
-/
import TicTacToe.Moments
import TicTacToe.Index.Indexer
import TicTacToe.Invariants.Covenant
import TicTacToe.Invariants.Stats

namespace TicTacToe

open Lib
open Function (update)

/-! ## What a step does to a body -/

/-- The game body a slot holds. -/
def Slot.body : Slot → Option GameBody
  | .game g => some g
  | _ => none

theorem Slot.body_eq_some {s : Slot} {g : GameBody} : s.body = some g ↔ s = .game g := by
  cases s <;> simp [Slot.body]

/-- The body the indexer sees is the one of the slot. -/
theorem gameOf_store (B : Battery) (st : Store) (id : ResourceId) :
    gameOf (some (st id)) = (st.ledger B id).body := by
  cases hbytes : GameBody.fromBytes (st id) with
  | ok g =>
    have hslot : st.ledger B id = .game g := Slot.parse_eq_game.mpr hbytes
    rw [hslot, gameOf, Option.bind_some, hbytes]
    rfl
  | error e =>
    have hnone : (st.ledger B id).body = none := by
      rw [Option.eq_none_iff_forall_ne_some]
      intro g hg
      have hok := Slot.parse_eq_game.mp (Slot.body_eq_some.mp hg)
      rw [hbytes] at hok
      cases hok
    rw [hnone, gameOf, Option.bind_some, hbytes]
    rfl

/-- Every body of a ledger stands in what it can become. -/
def Ledger.Ahead (L L' : Ledger) : Prop := ∀ id, BodyAhead (L id).body (L' id).body

theorem Ledger.Ahead.refl (L : Ledger) : L.Ahead L := fun id => .refl (L id).body

theorem Ledger.Ahead.trans {L L' L'' : Ledger} (h : L.Ahead L') (h' : L'.Ahead L'') :
    L.Ahead L'' := fun id => (h id).trans (h' id)

section Steps

variable {B : Battery} {P : DepositPolicy} {cx : ApplyContext} {L L' : Ledger} {a : ActionBody}
  {flow : Flow}

/-- One slot rewritten. -/
theorem Ledger.ahead_update {i : ResourceId} {s : Slot} (h : BodyAhead (L i).body s.body) :
    Ledger.Ahead L (update L i s) := by
  intro id
  by_cases hid : id = i
  · subst hid
    rw [Function.update_self]
    exact h
  · rw [Function.update_of_ne hid]
    exact .refl _

/-- A slot that holds no game may become anything. -/
theorem bodyAhead_of_slot {s t : Slot} {new : Option GameBody} (h : s = t) (ht : t.body = none) :
    BodyAhead s.body new := by
  rw [h, ht]
  exact bodyAhead_none new

/-- Two different slots rewritten. -/
theorem Ledger.ahead_update₂ {i j : ResourceId} {s t : Slot} (hne : i ≠ j)
    (hi : BodyAhead (L i).body s.body) (hj : BodyAhead (L j).body t.body) :
    Ledger.Ahead L (update (update L i s) j t) := by
  refine (Ledger.ahead_update hi).trans (Ledger.ahead_update ?_)
  rw [Function.update_of_ne hne.symm]
  exact hj

/-- Joining an open game seats a joiner where there was none. -/
theorem GameRun.ahead_joined {g : GameBody} {log : List PlyEvent} (h : GameRun g log)
    (hopen : g.state = .open) (joiner : ResourceId) (now : UInt64) :
    g.Ahead (g.seatJoiner joiner now) := by
  cases gameRun_phase h with
  | started mark u _ hs _ => exact absurd hopen hs.state_ne_open
  | unjoined mark hu _ =>
    have hnone : g.joiner = none := by
      rw [hu.eq_fresh]
      rfl
    refine ⟨g.seatJoiner_creator joiner now, fun j hj => ?_, fun hfin => ?_⟩
    · rw [hnone] at hj
      cases hj
    · rw [GameBody.not_finished_of_open hopen] at hfin
      cases hfin

/-- A move keeps the players, and there is none after the finish. -/
theorem GameMove.ahead {gid : ResourceId} {g g' : GameBody} {log : List PlyEvent}
    (h : GameMove B cx L a gid g g') (hrun : GameRun g log) : g.Ahead g' := by
  obtain ⟨hplaying, hsame, -⟩ := h.from hrun
  refine ⟨?_, fun j hj => ?_, fun hfin => ?_⟩
  · rw [GameBody.creator, GameBody.creator, hsame.players]
  · rw [GameBody.joiner, hsame.players]
    exact hj
  · rw [GameBody.not_finished_of_playing hplaying] at hfin
    cases hfin

theorem Settlement.ahead {g : GameBody} (h : Settlement L g L') : L.Ahead L' := by
  cases h with
  | paid _ _ hu₀ _ hu₁ _ =>
    exact (Ledger.ahead_update (bodyAhead_of_slot hu₀ rfl)).trans
      (Ledger.ahead_update (bodyAhead_of_slot hu₁ rfl))

/-- An accepted action takes every body to one it can become. -/
theorem LedgerStep.ahead (h : LedgerStep B P cx L a flow L') (hs : L.Sound) : L.Ahead L' := by
  cases h with
  | update _ hslot | init _ hslot | rotate _ hslot | depositCredit _ _ _ _ _ _ _ _ hslot
  | withdraw _ _ _ _ hslot | depositCreate _ _ _ _ _ _ _ _ hslot =>
    exact Ledger.ahead_update (bodyAhead_of_slot hslot rfl)
  | transfer _ _ hne hu _ _ hdst | transferCreate _ _ hne hu _ _ hdst =>
    exact Ledger.ahead_update₂ hne (bodyAhead_of_slot hu rfl) (bodyAhead_of_slot hdst rfl)
  | createGame _ hu _ _ _ _ he =>
    exact Ledger.ahead_update₂ (ne_of_slot hu he (by simp)) (bodyAhead_of_slot hu rfl)
      (bodyAhead_of_slot he rfl)
  | joinGame _ hu _ _ hg hopen =>
    obtain ⟨log, hrun⟩ := hs _ _ hg
    refine Ledger.ahead_update₂ (ne_of_slot hu hg (by simp)) (bodyAhead_of_slot hu rfl) ?_
    rw [hg]
    exact bodyAhead_some.mpr (hrun.ahead_joined hopen _ _)
  | play hmove hg _ =>
    obtain ⟨log, hrun⟩ := hs _ _ hg
    refine Ledger.ahead_update ?_
    rw [hg]
    exact bodyAhead_some.mpr (hmove.ahead hrun)
  | finish hmove hg hsettle =>
    obtain ⟨log, hrun⟩ := hs _ _ hg
    refine Ledger.Ahead.trans (Ledger.ahead_update ?_) hsettle.ahead
    rw [hg]
    exact bodyAhead_some.mpr (hmove.ahead hrun)

/-- The players of a game that finished are different. -/
theorem Ledger.Sound.players_ne (h : L.Sound) {id : ResourceId} {g : GameBody}
    (hg : (L id).body = some g) (hfin : g.isFinished = true) : g.joiner ≠ some g.creator := by
  obtain ⟨log, hrun⟩ := h id g (Slot.body_eq_some.mp hg)
  have hopen : g.state ≠ .open := by
    intro hopen
    rw [GameBody.not_finished_of_open hopen] at hfin
    cases hfin
  intro hj
  exact hrun.seats_ne hopen (GameBody.joiner_eq_some hj)

end Steps

/-! ## Steps of the store -/

/-- One action of a running transaction, on what would be written back. -/
def StoreStep (B : Battery) (P : DepositPolicy) (st st' : Store) : Prop :=
  ∃ (R : Rollup) (sub : Submission) (as : List ActionBody) (a : ActionBody)
    (cx cx' : ApplyContext), Reachable B P R ∧ (sub.access.map Prod.fst).Nodup ∧
    R.Applying B P sub as a cx ∧ applyAction B P a cx = .ok () cx' ∧
    st = R.store.commit cx.resources ∧ st' = R.store.commit cx'.resources

/-- The bodies of the game `gid`, seen at any moments between the actions of
a run. -/
inductive Bodies (B : Battery) (P : DepositPolicy) (gid : ResourceId) :
    Store → List GameBody → Prop
  | genesis : Bodies B P gid Rollup.genesis.store []
  | acted {st st' : Store} {gs : List GameBody} : Bodies B P gid st gs → StoreStep B P st st' →
      Bodies B P gid st' gs
  | seen {st : Store} {gs : List GameBody} {g : GameBody} : Bodies B P gid st gs →
      GameBody.fromBytes (st gid) = .ok g → Bodies B P gid st (gs ++ [g])

section Stores

variable {B : Battery} {P : DepositPolicy} {R R' : Rollup} {sub : Submission} {st st' : Store}

theorem StoreStep.ahead (h : StoreStep B P st st') :
    (st.ledger B).Ahead (st'.ledger B) ∧ (st'.ledger B).Sound := by
  obtain ⟨R, sub, as, a, cx, cx', hR, hn, happ, hact, rfl, rfl⟩ := h
  obtain ⟨hinv, hin⟩ := Rollup.Applying.inv hR hn happ
  have hacc := (wp_applyAction hinv.coherent hinv.sound hin).ok hact
  obtain ⟨flow, hstep, -, -⟩ := hacc.step
  exact ⟨(hstep R.store).ahead (sound_of_run hinv.ledger),
    sound_of_run (hinv.accepted hacc).ledger⟩

/-- A submission goes action by action. -/
theorem Rollup.submit_storeSteps (hR : Reachable B P R) (hn : (sub.access.map Prod.fst).Nodup) :
    Relation.ReflTransGen (StoreStep B P) R.store (R.submit B P sub).store := by
  refine Relation.ReflTransGen.mono (fun st st' hstep => ?_) _ _ Rollup.submit_steps
  obtain ⟨as, a, cx, cx', happ, hact, hst, hst'⟩ := hstep
  exact ⟨R, sub, as, a, cx, cx', hR, hn, happ, hact, hst, hst'⟩

theorem Rollup.Later.storeSteps (h : R.Later B P R') (hR : Reachable B P R) :
    Relation.ReflTransGen (StoreStep B P) R.store R'.store := by
  induction h with
  | refl => exact .refl
  | tail hlater hstep ih =>
    obtain ⟨sub, hn, rfl⟩ := hstep
    exact ih.trans (Rollup.submit_storeSteps (Rollup.Later.reachable hlater hR).1 hn)

theorem storeSteps_ahead (h : Relation.ReflTransGen (StoreStep B P) st st') :
    (st.ledger B).Ahead (st'.ledger B) := by
  induction h with
  | refl => exact .refl _
  | tail _ hstep ih => exact ih.trans hstep.ahead.1

/-- What was seen is in order, up to where the store is, with different players
in every finished game. -/
structure Bodies.Inv (B : Battery) (gid : ResourceId) (st : Store) (gs : List GameBody) :
    Prop where
  sound : (st.ledger B).Sound
  ordered : gs.Pairwise GameBody.Ahead
  last : ∀ g ∈ gs, BodyAhead (some g) (st.ledger B gid).body
  players_ne : ∀ g ∈ gs, g.isFinished = true → g.joiner ≠ some g.creator

theorem Bodies.inv {gid : ResourceId} {gs : List GameBody} (h : Bodies B P gid st gs) :
    Bodies.Inv B gid st gs := by
  induction h with
  | genesis =>
    have hsound : (Rollup.genesis.store.ledger B).Sound := fun _ _ hg => by cases hg
    exact ⟨hsound, .nil, fun _ hg => absurd hg List.not_mem_nil,
      fun _ hg => absurd hg List.not_mem_nil⟩
  | acted _ hstep ih =>
    obtain ⟨hahead, hsound⟩ := hstep.ahead
    exact ⟨hsound, ih.ordered, fun g hg => (ih.last g hg).trans (hahead gid), ih.players_ne⟩
  | @seen st gs g _ hg ih =>
    have hbody : (st.ledger B gid).body = some g :=
      Slot.body_eq_some.mpr (Slot.parse_eq_game.mpr hg)
    refine ⟨ih.sound, List.pairwise_append.mpr ⟨ih.ordered, List.pairwise_singleton _ _, ?_⟩,
      fun g' hg' => ?_, fun g' hg' => ?_⟩
    · intro g₀ hg₀ g₁ hg₁
      have hlast := ih.last g₀ hg₀
      rw [hbody, bodyAhead_some] at hlast
      rw [List.mem_singleton.mp hg₁]
      exact hlast
    · rcases List.mem_append.mp hg' with hold | hnew
      · exact ih.last g' hold
      · rw [hbody, List.mem_singleton.mp hnew]
        exact .refl _
    · rcases List.mem_append.mp hg' with hold | hnew
      · exact ih.players_ne g' hold
      · rw [List.mem_singleton.mp hnew]
        exact ih.sound.players_ne hbody

/-- Over any cut of a sequence of bodies, one diff logs what the steps log. -/
theorem Bodies.telescope {gid : ResourceId} {pre mid : List GameBody}
    (h : Bodies B P gid st (pre ++ mid)) :
    forwardEvents pre.getLast? mid.getLast? = stepEvents pre.getLast? mid ∧
      (stepEvents pre.getLast? mid).Nodup := by
  have hinv := h.inv
  obtain ⟨-, hmid, hcross⟩ := List.pairwise_append.mp hinv.ordered
  have hold : ∀ g ∈ mid, BodyAhead pre.getLast? (some g) := by
    intro g hg
    cases hlast : pre.getLast? with
    | none => exact bodyAhead_none _
    | some g₀ => exact bodyAhead_some.mpr (hcross g₀ (List.mem_of_getLast? hlast) g hg)
  have hsame := forwardEvents_getLast hold hmid
  refine ⟨hsame, ?_⟩
  rw [← hsame]
  cases hlast : mid.getLast? with
  | none => exact List.nodup_nil
  | some g =>
    exact nodup_forwardEvents
      (hinv.players_ne g (List.mem_append_right _ (List.mem_of_getLast? hlast)))

/-! ## The log of a run -/

/-- The index of a run under one batching of it: at every batch, at any
version, the diffs of at least all resources that changed. -/
inductive Batched (B : Battery) (P : DepositPolicy) : Rollup → IndexStore → Prop
  | genesis : Batched B P Rollup.genesis ∅
  | batch {R R' : Rollup} {store : IndexStore} (ids : List ResourceId) (version : UInt64) :
      Batched B P R store → R.Later B P R' → (∀ id, id ∉ ids → R'.store id = R.store id) →
      Batched B P R' (store.commit
        (ids.flatMap fun id => indexDiff id (some (R.store id)) (some (R'.store id)) version))

/-- The (version, game) pairs logged for a player and an event. -/
def IndexStore.logged (store : IndexStore) (player : ResourceId) (event : PlayerEvent) :
    Set (UInt64 × ResourceId) :=
  {e | (store.lookup (playerEventKey player event e.1 e.2)).isSome}

theorem Batched.reachable {store : IndexStore} (h : Batched B P R store) : Reachable B P R := by
  induction h with
  | genesis => exact .genesis
  | batch _ _ _ hlater _ ih => exact (Rollup.Later.reachable hlater ih).1

/-- At an event key, the diffs of a batch add the keys of its transitions. -/
theorem lookup_batch_event (old new : ResourceId → Option (List UInt8)) (version : UInt64)
    {k : List UInt8} (hk : k.head? = some playerEventDiscriminator) (ids : List ResourceId)
    (store : IndexStore) :
    ((store.commit (ids.flatMap fun id => indexDiff id (old id) (new id) version)).lookup
        k).isSome ↔
      (store.lookup k).isSome ∨
        ∃ id ∈ ids, k ∈ eventKeys id (gameOf (old id)) (gameOf (new id)) version := by
  induction ids generalizing store with
  | nil => simp [IndexStore.commit]
  | cons id ids ih =>
    rw [List.flatMap_cons, IndexStore.commit_append, ih, lookup_indexDiff_event store id hk]
    by_cases hmem : k ∈ eventKeys id (gameOf (old id)) (gameOf (new id)) version
    · simp [hmem]
    · simp [hmem]

/-- Every event of a game up to where it stands is logged once. -/
structure LogOnce (B : Battery) (R : Rollup) (store : IndexStore) : Prop where
  logged : ∀ p e gid, (∃ v, (v, gid) ∈ store.logged p e) ↔
    (p, e) ∈ forwardEvents none (R.store.ledger B gid).body
  once : ∀ p e gid v v', (v, gid) ∈ store.logged p e → (v', gid) ∈ store.logged p e → v = v'

theorem forwardEvents_same (g : Option GameBody) : forwardEvents g g = [] := by
  cases g with
  | none => rfl
  | some g => exact forwardEvents_self g

/-- What was logged since birth, split at the body that stood before. -/
theorem forwardEvents_birth {old new : Option GameBody} (h : BodyAhead old new) :
    forwardEvents none new = forwardEvents none old ++ forwardEvents old new := by
  cases old with
  | none => rfl
  | some g =>
    obtain ⟨g', rfl, hahead⟩ := h g rfl
    exact forwardEvents_append (bodyAhead_none _) hahead

/-- What a batch adds to the log. -/
theorem mem_logged_batch {ids : List ResourceId} {version : UInt64} {store : IndexStore}
    (hids : ∀ id, id ∉ ids → R'.store id = R.store id) (p : ResourceId) (e : PlayerEvent)
    (v : UInt64) (gid : ResourceId) :
    (v, gid) ∈ IndexStore.logged (store.commit
        (ids.flatMap fun id => indexDiff id (some (R.store id)) (some (R'.store id)) version)) p e ↔
      (v, gid) ∈ store.logged p e ∨ v = version ∧
        (p, e) ∈ forwardEvents (R.store.ledger B gid).body (R'.store.ledger B gid).body := by
  have hkeys : (∃ id ∈ ids, playerEventKey p e v gid
        ∈ eventKeys id (gameOf (some (R.store id))) (gameOf (some (R'.store id))) version) ↔
      v = version ∧
        (p, e) ∈ forwardEvents (R.store.ledger B gid).body (R'.store.ledger B gid).body := by
    rw [← gameOf_store B, ← gameOf_store B]
    constructor
    · rintro ⟨id, _, hmem⟩
      obtain ⟨⟨p', e'⟩, hevent, hkey⟩ := List.mem_map.mp hmem
      obtain ⟨rfl, rfl, rfl, rfl⟩ := playerEventKey_inj hkey
      exact ⟨rfl, hevent⟩
    · rintro ⟨rfl, hevent⟩
      refine ⟨gid, ?_, List.mem_map.mpr ⟨_, hevent, rfl⟩⟩
      by_contra hout
      rw [hids gid hout, forwardEvents_same] at hevent
      cases hevent
  show (AList.lookup _ _).isSome ↔ _
  rw [lookup_batch_event _ _ _ rfl, hkeys]
  rfl

/-- A batch logs the events of the games it moves, none of them again. -/
theorem LogOnce.batch {ids : List ResourceId} {version : UInt64} {store : IndexStore}
    (h : LogOnce B R store) (hahead : (R.store.ledger B).Ahead (R'.store.ledger B))
    (hsound : (R'.store.ledger B).Sound)
    (hids : ∀ id, id ∉ ids → R'.store id = R.store id) :
    LogOnce B R' (store.commit
      (ids.flatMap fun id => indexDiff id (some (R.store id)) (some (R'.store id)) version)) where
  logged p e gid := by
    simp only [mem_logged_batch (B := B) hids, exists_or, h.logged, exists_eq_left,
      forwardEvents_birth (hahead gid), List.mem_append]
  once p e gid v v' hv hv' := by
    have hnodup : (forwardEvents none (R'.store.ledger B gid).body).Nodup := by
      cases hbody : (R'.store.ledger B gid).body with
      | none => exact List.nodup_nil
      | some g => exact nodup_forwardEvents (hsound.players_ne hbody)
    rw [forwardEvents_birth (hahead gid)] at hnodup
    have hdisjoint := List.disjoint_of_nodup_append hnodup
    rw [mem_logged_batch (B := B) hids] at hv hv'
    rcases hv with hold | ⟨rfl, hnew⟩
    · rcases hv' with hold' | ⟨rfl, hnew'⟩
      · exact h.once p e gid v v' hold hold'
      · exact (hdisjoint ((h.logged p e gid).mp ⟨v, hold⟩) hnew').elim
    · rcases hv' with hold' | ⟨rfl, -⟩
      · exact (hdisjoint ((h.logged p e gid).mp ⟨v', hold'⟩) hnew).elim
      · rfl

theorem Batched.logOnce {store : IndexStore} (h : Batched B P R store) : LogOnce B R store := by
  induction h with
  | genesis =>
    refine ⟨fun p e gid => ?_, fun p e gid v v' hv => ?_⟩
    · have hbody : (Rollup.genesis.store.ledger B gid).body = none := rfl
      simp [IndexStore.logged, hbody]
    · simp [IndexStore.logged] at hv
  | batch ids version hprev hlater hids ih =>
    have hR' := (Rollup.Later.reachable hlater hprev.reachable).1
    exact ih.batch (storeSteps_ahead (Rollup.Later.storeSteps hlater hprev.reachable))
      (sound_of_run hR'.refines.1) hids

/-! ## Counting the log -/

/-- The games an event of a player is about. -/
def GameBody.Logs (g : GameBody) (p : ResourceId) : PlayerEvent → Prop
  | .created => g.creator = p
  | .joined => g.joiner = some p
  | .won => g.state = .first ∧ g.creator = p ∨ g.state = .second ∧ g.joiner = some p
  | .lost => g.state = .second ∧ g.creator = p ∨ g.state = .first ∧ g.joiner = some p
  | .draw => g.state = .draw ∧ (g.creator = p ∨ g.joiner = some p)

theorem mem_forwardEvents {g : GameBody} {p : ResourceId} {e : PlayerEvent} :
    (p, e) ∈ forwardEvents none (some g) ↔ g.Logs p e := by
  unfold forwardEvents finishEvents
  cases hj : g.joiner <;> cases hs : g.state <;> cases e <;>
    simp [GameBody.Logs, GameBody.isFinished, hj, hs, eq_comm]

/-- How often an event of a player is logged is the number of games it is about. -/
theorem LogOnce.ncard {store : IndexStore} (h : LogOnce B R store) (p : ResourceId)
    (e : PlayerEvent) :
    (store.logged p e).ncard = (R.store.gamesWhere fun g => g.Logs p e).ncard := by
  have hgames : Prod.snd '' store.logged p e = R.store.gamesWhere fun g => g.Logs p e := by
    ext gid
    constructor
    · rintro ⟨⟨v, gid'⟩, hlogged, rfl⟩
      have hevent := (h.logged p e gid').mp ⟨v, hlogged⟩
      cases hbody : (R.store.ledger B gid').body with
      | none =>
        rw [hbody] at hevent
        cases hevent
      | some g =>
        rw [hbody] at hevent
        exact ⟨g, Slot.parse_eq_game.mp (Slot.body_eq_some.mp hbody), mem_forwardEvents.mp hevent⟩
    · rintro ⟨g, hg, hlogs⟩
      have hbody : (R.store.ledger B gid).body = some g :=
        Slot.body_eq_some.mpr (Slot.parse_eq_game.mpr hg)
      obtain ⟨v, hv⟩ := (h.logged p e gid).mpr (hbody ▸ mem_forwardEvents.mpr hlogs)
      exact ⟨(v, gid), hv, rfl⟩
  rw [← hgames, Set.InjOn.ncard_image]
  rintro ⟨v, gid⟩ hv ⟨v', gid'⟩ hv' heq
  obtain rfl : gid = gid' := heq
  rw [h.once p e gid v v' hv hv']

theorem Store.notMem_gamesWhere {q q' : GameBody → Prop}
    (h : ∀ gid g, GameBody.fromBytes (st gid) = .ok g → q g → ¬ q' g) {gid : ResourceId}
    (hgid : gid ∈ st.gamesWhere q) : gid ∉ st.gamesWhere q' := by
  intro hgid'
  obtain ⟨g, hg, hq⟩ := hgid
  obtain ⟨g', hg', hq'⟩ := hgid'
  rw [hg] at hg'
  cases hg'
  exact h gid g hg hq hq'

/-- A player of a finished game won it, lost it or drew it. -/
theorem GameBody.scores_finished_iff (g : GameBody) (p : ResourceId) :
    g.Scores p .finished ↔ (g.Logs p .won ∨ g.Logs p .lost) ∨ g.Logs p .draw := by
  cases hs : g.state <;> simp [GameBody.Scores, GameBody.Logs, GameBody.isFinished, hs, or_comm]

/-- Won, lost and drawn games are the finished ones, each counted once. -/
theorem Store.finished_ncard (hsound : (st.ledger B).Sound) (p : ResourceId) :
    (st.gamesWhere fun g => g.Scores p .finished).ncard
      = (st.gamesWhere fun g => g.Logs p .won).ncard
        + (st.gamesWhere fun g => g.Logs p .lost).ncard
        + (st.gamesWhere fun g => g.Logs p .draw).ncard := by
  have hwonLost : Disjoint (st.gamesWhere fun g => g.Logs p .won)
      (st.gamesWhere fun g => g.Logs p .lost) := by
    refine Set.disjoint_left.mpr fun _ => Store.notMem_gamesWhere fun gid g hg hwon hlost => ?_
    have hbody : (st.ledger B gid).body = some g :=
      Slot.body_eq_some.mpr (Slot.parse_eq_game.mpr hg)
    -- one seat won and the other lost, and one user does not take both
    rcases hwon with ⟨hs, hc⟩ | ⟨hs, hj⟩ <;> rcases hlost with ⟨hs', hc'⟩ | ⟨hs', hj'⟩
    · exact absurd (hs.symm.trans hs') (by decide)
    · exact hsound.players_ne hbody (by simp [GameBody.isFinished, hs]) (hc ▸ hj')
    · exact hsound.players_ne hbody (by simp [GameBody.isFinished, hs]) (hc' ▸ hj)
    · exact absurd (hs.symm.trans hs') (by decide)
  have hdraw : Disjoint (st.gamesWhere fun g => g.Logs p .won ∨ g.Logs p .lost)
      (st.gamesWhere fun g => g.Logs p .draw) := by
    refine Set.disjoint_left.mpr fun _ =>
      Store.notMem_gamesWhere fun gid g hg hdecided hdrawn => ?_
    rcases hdecided with (⟨hs, -⟩ | ⟨hs, -⟩) | (⟨hs, -⟩ | ⟨hs, -⟩) <;>
      exact absurd (hs.symm.trans hdrawn.1) (by decide)
  have hunion : ∀ q q' : GameBody → Prop,
      st.gamesWhere (fun g => q g ∨ q' g) = st.gamesWhere q ∪ st.gamesWhere q' := by
    intro q q'
    ext gid
    simp only [Store.gamesWhere, Set.mem_union, Set.mem_ofPred_eq, and_or_left, exists_or]
  simp only [GameBody.scores_finished_iff]
  rw [hunion, Set.ncard_union_eq hdraw (Set.toFinite _) (Set.toFinite _), hunion,
    Set.ncard_union_eq hwonLost (Set.toFinite _) (Set.toFinite _)]

/-- The event log of a run counts what the ledger counts, for every user. -/
structure LogCounts (B : Battery) (R : Rollup) (store : IndexStore) : Prop where
  created : ∀ id u, UserBody.fromBytes B (R.store id) = .ok u →
    (store.logged id .created).ncard = u.gamesStarted.toNat
  won : ∀ id u, UserBody.fromBytes B (R.store id) = .ok u →
    (store.logged id .won).ncard = u.gamesWon.toNat
  finished : ∀ id u, UserBody.fromBytes B (R.store id) = .ok u →
    (store.logged id .won).ncard + (store.logged id .lost).ncard + (store.logged id .draw).ncard
      = u.gamesFinished.toNat

theorem LogOnce.counts {store : IndexStore} (h : LogOnce B R store)
    (hsound : (R.store.ledger B).Sound) (hx : (R.store.ledger B).Exact) :
    LogCounts B R store where
  created id u hu := by
    rw [h.ncard]
    have hstat := hx .started id u (Slot.parse_eq_user.mpr hu)
    exact (hstat.trans (R.store.score_eq_ncard ..)).symm
  won id u hu := by
    have hstat := hx .won id u (Slot.parse_eq_user.mpr hu)
    rw [h.ncard]
    exact (hstat.trans (R.store.score_eq_ncard ..)).symm
  finished id u hu := by
    have hstat := hx .finished id u (Slot.parse_eq_user.mpr hu)
    rw [h.ncard, h.ncard, h.ncard, ← Store.finished_ncard hsound]
    exact (hstat.trans (R.store.score_eq_ncard ..)).symm

/-- **Batching.** Over any cut of any sequence of bodies a game goes through,
one diff logs exactly the events of the steps in between, none of them
twice; and under any batching of any run the log of every user counts the
games its counters count. -/
theorem events_batching_exact {gid : ResourceId} {pre mid : List GameBody}
    (hseq : Bodies B P gid st (pre ++ mid)) {store : IndexStore} (hrun : Batched B P R store) :
    (forwardEvents pre.getLast? mid.getLast? = stepEvents pre.getLast? mid ∧
      (stepEvents pre.getLast? mid).Nodup) ∧ LogCounts B R store := by
  have hledger := hrun.reachable.refines.1
  exact ⟨hseq.telescope, hrun.logOnce.counts (sound_of_run hledger) (exact_of_run hledger)⟩

theorem Bodies.later {gid : ResourceId} {gs : List GameBody} (h : Bodies B P gid st gs)
    (hsteps : Relation.ReflTransGen (StoreStep B P) st st') : Bodies B P gid st' gs := by
  induction hsteps with
  | refl => exact h
  | tail _ hstep ih => exact ih.acted hstep

end Stores

namespace Sample

/-- The opening without its last action, and that action alone. -/
def creating : Submission :=
  submission [(0, 0x05, genesisKey), (1, 0x01, aliceKey)]
    [.init 0 1000 10 covenant aliceLock, .deposit 1 0 0 aliceLock, .deposit 2 0 1 .unlocked,
      .createGame 1 3 500 1 .x]

def entering : Submission := submission [] [.joinGame 3 2]

def created : Rollup := Rollup.genesis.submit .plain policy creating

def entered : Rollup := created.submit .plain policy entering

def won : Rollup := entered.submit .plain policy playing

theorem reachable_created : Reachable .plain policy created := .submit .genesis (access_nodup _ _)

theorem reachable_entered : Reachable .plain policy entered :=
  .submit reachable_created (access_nodup _ _)

theorem game_of_state (R : Rollup) (state : State)
    (h : (GameBody.fromBytes (R.store gameId)).toOption.any (fun g => g.state = state) = true) :
    ∃ g, GameBody.fromBytes (R.store gameId) = .ok g ∧ g.state = state := by
  obtain ⟨g, hg, hstate⟩ := ok_of_any h
  exact ⟨g, hg, of_decide_eq_true hstate⟩

theorem submit_frame (R R' : Rollup) {signers : List (UInt8 × UInt8 × Bytes32)}
    {actions : List ActionBody} (hR : Reachable .plain policy R)
    (h : R' = R.submit .plain policy (submission signers actions)) (id : ResourceId)
    (hid : id ∉ (submission signers actions).access.map Prod.fst) : R'.store id = R.store id := by
  rw [h, Rollup.submit_frame hR (access_nodup _ _) hid]

theorem won_frame (id : ResourceId) (hid : id ∉ playing.access.map Prod.fst) :
    won.store id = created.store id := by
  have hentered := submit_frame created entered reachable_created rfl id hid
  have hwon := submit_frame entered won reachable_entered rfl id hid
  exact hwon.trans hentered

end Sample

/-- The game is seen when it is created, when it is joined and when it is won;
the last two changes are indexed in one batch. -/
theorem events_batching_exact_won :
    ∃ g₁ g₂ g₃ store, g₁.state = .open ∧ g₂.state = .playing ∧ g₃.state = .first ∧
      ((forwardEvents none (some g₃) = stepEvents none [g₁, g₂, g₃] ∧
        (stepEvents none [g₁, g₂, g₃]).Nodup) ∧ LogCounts .plain Sample.won store) := by
  obtain ⟨g₁, hg₁, hopen⟩ := Sample.game_of_state Sample.created .open (by decide +kernel)
  obtain ⟨g₂, hg₂, hplaying⟩ := Sample.game_of_state Sample.entered .playing (by decide +kernel)
  obtain ⟨g₃, hg₃, hwon⟩ := Sample.game_of_state Sample.won .first (by decide +kernel)
  have hcreating : Relation.ReflTransGen (StoreStep .plain Sample.policy) Rollup.genesis.store
      Sample.created.store := Rollup.submit_storeSteps .genesis (Sample.access_nodup _ _)
  have hentering : Relation.ReflTransGen (StoreStep .plain Sample.policy) Sample.created.store
      Sample.entered.store := Rollup.submit_storeSteps Sample.reachable_created
    (Sample.access_nodup _ _)
  have hplay : Relation.ReflTransGen (StoreStep .plain Sample.policy) Sample.entered.store
      Sample.won.store := Rollup.submit_storeSteps Sample.reachable_entered
    (Sample.access_nodup _ _)
  have hseq : Bodies .plain Sample.policy Sample.gameId Sample.won.store
      ([] ++ [g₁, g₂, g₃]) :=
    (((((Bodies.genesis.later hcreating).seen hg₁).later hentering).seen hg₂).later hplay).seen hg₃
  have hrun : Batched .plain Sample.policy Sample.created _ :=
    Batched.genesis.batch (Sample.creating.access.map Prod.fst) 1
      (.single ⟨Sample.creating, Sample.access_nodup _ _, rfl⟩)
      (Sample.submit_frame _ _ .genesis rfl)
  have hlater : Sample.created.Later .plain Sample.policy Sample.won :=
    .tail (.single ⟨Sample.entering, Sample.access_nodup _ _, rfl⟩)
      ⟨Sample.playing, Sample.access_nodup _ _, rfl⟩
  have hrun' : Batched .plain Sample.policy Sample.won _ :=
    hrun.batch (Sample.playing.access.map Prod.fst) 2 hlater Sample.won_frame
  exact ⟨g₁, g₂, g₃, _, hopen, hplaying, hwon, events_batching_exact hseq hrun'⟩

end TicTacToe
