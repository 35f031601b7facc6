/-
TicTacToe.Invariants.Binding — which kind of resource sits at which id.

`Bound` ties the three kinds together: the config at its id, a user at the
id of its birth lock hash, a game at the id of its creator and a number
the creator already used, and every used number at a game. It is
preserved by `SlotStep` alone. Collision freedom is only needed to read
consequences off it: distinct games have distinct ids, and the next id is
free.

No `sorry`, no `axiom`, no `native_decide`.
-/
import TicTacToe.Ledger.Effects
import TicTacToe.Rollup

namespace TicTacToe

open Lib

structure Bound (B : Battery) (L : Ledger) : Prop where
  parses : ∀ id, L id ≠ .junk
  config : ∀ {id c}, L id = .config c → id = configResourceId B
  user : ∀ {id u}, L id = .user u → id = deriveUserResource B u.initialLockHash
  game : ∀ {id g}, L id = .game g → ∃ u n, L (g.players 0) = .user u ∧
    id = deriveGameResource B u.initialLockHash n ∧ n.toNat < u.gamesStarted.toNat
  numbered : ∀ {id u} (n : UInt64), L id = .user u → n.toNat < u.gamesStarted.toNat →
    ∃ g, L (deriveGameResource B u.initialLockHash n) = .game g ∧ g.players 0 = id
  joiner : ∀ {id g}, L id = .game g → g.state ≠ .open → ∃ u, L (g.players 1) = .user u

section Step

variable {B : Battery} {cx : ApplyContext} {L L' : Ledger} {a : ActionBody} {id : ResourceId}

theorem Bound.step (hb : Bound B L) (h : ∀ id, SlotStep B cx a L L' id) : Bound B L' where
  parses id := by
    cases h id with
    | same e =>
      rw [e]
      exact hb.parses id
    | config _ hnew | configBorn _ hnew | userBorn _ hnew | kept _ hnew | spent _ hnew
    | started _ hnew | gameBorn _ hnew | gameJoined _ hnew | gameMoved _ hnew => simp [hnew]
  config {id c} hc := by
    cases h id with
    | same e => exact hb.config (e.symm.trans hc)
    | config hold => exact hb.config hold
    | configBorn _ _ hid => exact hid
    | userBorn _ hnew | kept _ hnew | spent _ hnew | started _ hnew | gameBorn _ hnew
    | gameJoined _ hnew | gameMoved _ hnew =>
      rw [hc] at hnew
      cases hnew
  user {id u} hu := by
    cases h id with
    | same e => exact hb.user (e.symm.trans hu)
    | userBorn _ hnew hid =>
      rw [hu] at hnew
      cases hnew
      exact hid
    | kept hold hnew hkept =>
      rw [hu] at hnew
      cases hnew
      rw [hkept.initialLockHash]
      exact hb.user hold
    | spent hold hnew _ hilh | started hold hnew _ hilh =>
      rw [hu] at hnew
      cases hnew
      rw [hilh]
      exact hb.user hold
    | config _ hnew | configBorn _ hnew | gameBorn _ hnew | gameJoined _ hnew
    | gameMoved _ hnew =>
      rw [hu] at hnew
      cases hnew
  game {id g} hg := by
    -- an old game keeps its creator, who keeps its hash
    have hkeep : ∀ {g₀ : GameBody}, L id = .game g₀ → g.players 0 = g₀.players 0 →
        ∃ u n, L' (g.players 0) = .user u ∧ id = deriveGameResource B u.initialLockHash n ∧
          n.toNat < u.gamesStarted.toNat := by
      intro g₀ hold hcreator
      obtain ⟨u, n, hu, hid, hn⟩ := hb.game hold
      obtain ⟨u', hu', hilh, hle⟩ := (h (g₀.players 0)).user_stays hu
      refine ⟨u', n, hcreator ▸ hu', ?_, lt_of_lt_of_le hn hle⟩
      rw [hilh]
      exact hid
    cases h id with
    | same e => exact hkeep (e.symm.trans hg) rfl
    | @gameBorn g₁ u u' _ hnew _ _ hcreator hilh hstart hid =>
      rw [hg] at hnew
      cases hnew
      refine ⟨u', u.gamesStarted, hcreator, ?_, by omega⟩
      rw [hilh]
      exact hid
    | gameJoined hold hnew hcreator =>
      rw [hg] at hnew
      cases hnew
      exact hkeep hold hcreator
    | gameMoved hold hnew hsame =>
      rw [hg] at hnew
      cases hnew
      exact hkeep hold (by rw [hsame.players])
    | config _ hnew | configBorn _ hnew | userBorn _ hnew | kept _ hnew | spent _ hnew
    | started _ hnew =>
      rw [hg] at hnew
      cases hnew
  numbered {id u} n hu hn := by
    -- a number used before is still at its game
    have hkeep : ∀ {u₀ : UserBody}, L id = .user u₀ → u.initialLockHash = u₀.initialLockHash →
        n.toNat < u₀.gamesStarted.toNat →
        ∃ g, L' (deriveGameResource B u.initialLockHash n) = .game g ∧ g.players 0 = id := by
      intro u₀ hold hilh hlt
      obtain ⟨g, hg, hcreator⟩ := hb.numbered n hold hlt
      obtain ⟨g', hg', hsame⟩ := (h _).game_stays hg
      exact ⟨g', hilh ▸ hg', hsame.trans hcreator⟩
    cases h id with
    | same e => exact hkeep (e.symm.trans hu) rfl hn
    | userBorn _ hnew _ hstats =>
      rw [hu] at hnew
      cases hnew
      have hzero : u.gamesStarted = 0 := congrArg GameStats.started hstats
      rw [hzero] at hn
      exact absurd hn (Nat.not_lt_zero _)
    | kept hold hnew hkept =>
      rw [hu] at hnew
      cases hnew
      exact hkeep hold hkept.initialLockHash (hkept.gamesStarted ▸ hn)
    | spent hold hnew _ hilh hstart =>
      rw [hu] at hnew
      cases hnew
      exact hkeep hold hilh (hstart ▸ hn)
    | @started u₀ u' g hold hnew _ hilh hstart hgame hcreator =>
      rw [hu] at hnew
      cases hnew
      by_cases hlast : n = u₀.gamesStarted
      · rw [hlast, hilh]
        exact ⟨g, hgame, hcreator⟩
      · have hne : n.toNat ≠ u₀.gamesStarted.toNat := fun e => hlast (UInt64.toNat_inj.mp e)
        exact hkeep hold hilh (by omega)
    | config _ hnew | configBorn _ hnew | gameBorn _ hnew | gameJoined _ hnew
    | gameMoved _ hnew =>
      rw [hu] at hnew
      cases hnew
  joiner {id g} hg hopen := by
    have hkeep : ∀ {u : UserBody}, L (g.players 1) = .user u →
        ∃ u', L' (g.players 1) = .user u' := fun hu => by
      obtain ⟨u', hu', -⟩ := (h _).user_stays hu
      exact ⟨u', hu'⟩
    cases h id with
    | same e =>
      obtain ⟨u, hu⟩ := hb.joiner (e.symm.trans hg) hopen
      exact hkeep hu
    | gameBorn _ hnew hfresh =>
      rw [hg] at hnew
      cases hnew
      exact absurd hfresh hopen
    | gameJoined _ hnew _ hu =>
      rw [hg] at hnew
      cases hnew
      exact hkeep hu
    | gameMoved hold hnew hsame hplaying =>
      rw [hg] at hnew
      cases hnew
      have hne : ∀ {s : State}, s = .playing → s ≠ .open := fun e => by simp [e]
      obtain ⟨u, hu⟩ := hb.joiner hold (hne hplaying)
      rw [← hsame.players] at hu
      exact hkeep hu
    | config _ hnew | configBorn _ hnew | userBorn _ hnew | kept _ hnew | spent _ hnew
    | started _ hnew =>
      rw [hg] at hnew
      cases hnew

end Step

section Run

variable {B : Battery} {P : DepositPolicy} {L : Ledger} {h : List Event}

theorem bound_of_run (hrun : LedgerRun B P h L) : Bound B L := by
  induction hrun with
  | genesis =>
    exact {
      parses := fun _ => by simp
      config := fun e => by cases e
      user := fun e => by cases e
      game := fun e => by cases e
      numbered := fun _ e => by cases e
      joiner := fun e => by cases e }
  | step hprev hstep ih => exact ih.step fun id => hstep.slot (sound_of_run hprev) id

/-- The birth lock hashes in use. -/
def Ledger.lockHashes (L : Ledger) : Set Bytes32 :=
  {h | ∃ id u, L id = .user u ∧ u.initialLockHash = h}

namespace Bound

variable {id id' : ResourceId} {u u' : UserBody} {n n' : UInt64}

theorem mem_lockHashes (hu : L id = .user u) : u.initialLockHash ∈ L.lockHashes :=
  ⟨id, u, hu, rfl⟩

/-- A user is no game's "no joiner" marker. -/
theorem user_ne_default (hb : Bound B L) (H : NonzeroIds B L.lockHashes)
    (hu : L id = .user u) : id ≠ ResourceId.default := by
  rw [hb.user hu]
  exact H _ (mem_lockHashes hu)

/-- Two games with one id are one game of one user. -/
theorem game_unique (hb : Bound B L) (H : CollisionFree B L.lockHashes) (hu : L id = .user u)
    (hu' : L id' = .user u')
    (e : deriveGameResource B u.initialLockHash n = deriveGameResource B u'.initialLockHash n') :
    id = id' ∧ n = n' := by
  obtain ⟨hilh, hn⟩ := H.game_inj (mem_lockHashes hu) (mem_lockHashes hu') e
  refine ⟨?_, hn⟩
  rw [hb.user hu, hb.user hu', hilh]

/-- Nobody can squat on a user's next game. -/
theorem next_empty (hb : Bound B L) (H : CollisionFree B L.lockHashes) (hu : L id = .user u) :
    L (deriveGameResource B u.initialLockHash u.gamesStarted) = .empty := by
  have hmem := mem_lockHashes hu
  cases hslot : L (deriveGameResource B u.initialLockHash u.gamesStarted) with
  | empty => rfl
  | junk => exact absurd hslot (hb.parses _)
  | config c => exact absurd (hb.config hslot).symm (H.config_ne_game _ hmem)
  | user w => exact absurd (hb.user hslot).symm (H.user_ne_game _ (mem_lockHashes hslot) hmem)
  | game g =>
    obtain ⟨w, n, hw, hid, hn⟩ := hb.game hslot
    obtain ⟨e, hnum⟩ := hb.game_unique H hu hw hid
    rw [← e, hu] at hw
    cases hw
    rw [hnum] at hn
    exact absurd hn (Nat.lt_irrefl _)

end Bound

end Run

/-! ## Stores -/

/-- The birth lock hashes of the users in a store. -/
def Store.lockHashes (B : Battery) (st : Store) : Set Bytes32 :=
  {h | ∃ id u, UserBody.fromBytes B (st id) = .ok u ∧ u.initialLockHash = h}

/-- Every resource of a store parses as what its first byte says, and sits at
the one id that its content gives it. -/
structure Store.Addressed (B : Battery) (st : Store) : Prop where
  parses : ∀ id, st id ≠ [] → ∃ kind : Kind, (st id).head? = some kind.toByte ∧
    match kind with
    | .config => ∃ c, ConfigBody.fromBytes B (st id) = .ok c
    | .user => ∃ u, UserBody.fromBytes B (st id) = .ok u
    | .game => ∃ g, GameBody.fromBytes (st id) = .ok g
  config : ∀ id, (st id).head? = some Kind.config.toByte → id = configResourceId B
  user : ∀ id u, UserBody.fromBytes B (st id) = .ok u →
    id = deriveUserResource B u.initialLockHash
  game : ∀ id g, GameBody.fromBytes (st id) = .ok g →
    ∃ u n, UserBody.fromBytes B (st g.creator) = .ok u ∧
      id = deriveGameResource B u.initialLockHash n ∧ n.toNat < u.gamesStarted.toNat
  numbered : ∀ id u n, UserBody.fromBytes B (st id) = .ok u → n.toNat < u.gamesStarted.toNat →
    ∃ g, GameBody.fromBytes (st (deriveGameResource B u.initialLockHash n)) = .ok g ∧
      g.creator = id

section Stores

variable {B : Battery} {st : Store}

theorem Store.ledger_lockHashes : (st.ledger B).lockHashes = st.lockHashes B := by
  ext h
  simp only [Ledger.lockHashes, Store.lockHashes, Set.mem_ofPred_eq, Store.ledger,
    Slot.parse_eq_user]

theorem Bound.addressed (hb : Bound B (st.ledger B)) : st.Addressed B where
  parses id hne := by
    cases hslot : st.ledger B id with
    | empty => exact absurd (Slot.parse_eq_empty.mp hslot) hne
    | junk => exact absurd hslot (hb.parses id)
    | config c =>
      have hc := Slot.parse_eq_config.mp hslot
      exact ⟨.config, by rw [(ConfigBody.fromBytes_ok.mp hc).1]; rfl, c, hc⟩
    | user u =>
      have hu := Slot.parse_eq_user.mp hslot
      exact ⟨.user, by rw [(UserBody.fromBytes_ok.mp hu).1]; rfl, u, hu⟩
    | game g =>
      have hg := Slot.parse_eq_game.mp hslot
      exact ⟨.game, by rw [GameBody.fromBytes_ok.mp hg]; rfl, g, hg⟩
  config id hhead := by
    have hkind : ∀ {kind : Kind} {xs : List UInt8}, st id = kind.toByte :: xs → kind = .config :=
      fun hdata => by
        rw [hdata, List.head?_cons, Option.some.injEq] at hhead
        exact Kind.toByte_injective hhead
    cases hslot : st.ledger B id with
    | empty =>
      rw [Slot.parse_eq_empty.mp hslot] at hhead
      cases hhead
    | junk => exact absurd hslot (hb.parses id)
    | config c => exact hb.config hslot
    | user u => cases hkind (UserBody.fromBytes_ok.mp (Slot.parse_eq_user.mp hslot)).1
    | game g => cases hkind (GameBody.fromBytes_ok.mp (Slot.parse_eq_game.mp hslot))
  user id u hu := hb.user (Slot.parse_eq_user.mpr hu)
  game id g hg := by
    obtain ⟨u, n, hu, hid, hn⟩ := hb.game (Slot.parse_eq_game.mpr hg)
    exact ⟨u, n, Slot.parse_eq_user.mp hu, hid, hn⟩
  numbered id u n hu hn := by
    obtain ⟨g, hg, hcreator⟩ := hb.numbered n (Slot.parse_eq_user.mpr hu) hn
    exact ⟨g, Slot.parse_eq_game.mp hg, hcreator⟩

/-- What an action finds under the config kind is the config. -/
theorem Rollup.Applying.config_id {P : DepositPolicy} {R : Rollup} (hR : Reachable B P R)
    {sub : Submission} {as : List ActionBody} {a : ActionBody} {cx : ApplyContext}
    (hn : (sub.access.map Prod.fst).Nodup) (happ : R.Applying B P sub as a cx) {r : Resource}
    (hr : r ∈ cx.resources) {c : ConfigBody} (hc : ConfigBody.fromBytes B r.data = .ok c) :
    r.id = configResourceId B := by
  obtain ⟨hinv, -⟩ := Rollup.Applying.inv hR hn happ
  obtain ⟨i, hi⟩ := List.getElem?_of_mem hr
  exact (bound_of_run hinv.ledger).config (ApplyContext.ledger_config hinv.coherent hi hc)

/-- The two users of the opened game have two lock hashes. -/
theorem Sample.opened_lockHashes {h : Bytes32} (hh : h ∈ opened.store.lockHashes .plain) :
    h = aliceLock.idHash .plain ∨ h = LockEnum.unlocked.idHash .plain := by
  obtain ⟨id, u, hu, rfl⟩ := hh
  have hcheck : ([configId, aliceId, bobId, gameId].all fun id =>
      (UserBody.fromBytes .plain (opened.store id)).toOption.all fun v =>
        v.initialLockHash = aliceLock.idHash .plain ∨
          v.initialLockHash = LockEnum.unlocked.idHash .plain) = true := by
    decide +kernel
  by_cases hid : id ∈ [configId, aliceId, bobId, gameId]
  · have hone := List.all_eq_true.mp hcheck id hid
    rw [hu] at hone
    exact of_decide_eq_true hone
  · have hopening : (opening.access.map Prod.fst).Nodup := access_nodup _ _
    have hframe := Rollup.submit_frame (B := .plain) (P := policy) .genesis hopening hid
    unfold opened at hu
    rw [hframe] at hu
    cases hu

theorem Sample.opened_collisionFree : CollisionFree .plain (opened.store.lockHashes .plain) :=
  plain_collisionFree fun h hh h' hh' e => by
    obtain rfl | rfl := opened_lockHashes hh <;> obtain rfl | rfl := opened_lockHashes hh'
    · rfl
    · exact absurd e (by decide +kernel)
    · exact absurd e (by decide +kernel)
    · rfl

/-- **Binding.** At every moment of every run, each resource parses and sits at
the id its content gives it; so what a handler finds under the config kind is
the config, two games have two ids, and the slot of a user's next game is
still empty. -/
theorem resources_addressed {P : DepositPolicy} {R : Rollup} (hR : Reachable B P R)
    (hst : R.Observed B P st) (H : CollisionFree B (st.lockHashes B)) :
    st.Addressed B ∧
      (∀ sub as a cx, (sub.access.map Prod.fst).Nodup → R.Applying B P sub as a cx →
        ∀ r ∈ cx.resources, ∀ c, ConfigBody.fromBytes B r.data = .ok c →
          r.id = configResourceId B) ∧
      (∀ id u id' u' n n', UserBody.fromBytes B (st id) = .ok u →
        UserBody.fromBytes B (st id') = .ok u' →
        deriveGameResource B u.initialLockHash n = deriveGameResource B u'.initialLockHash n' →
        id = id' ∧ n = n') ∧
      ∀ id u, UserBody.fromBytes B (st id) = .ok u →
        st (deriveGameResource B u.initialLockHash u.gamesStarted) = [] := by
  obtain ⟨hist, hrun⟩ := hst.run hR
  have hb := bound_of_run hrun
  rw [← Store.ledger_lockHashes] at H
  refine ⟨hb.addressed, fun sub as a cx hn happ r hr c hc => ?_,
    fun id u id' u' n n' hu hu' e => ?_, fun id u hu => ?_⟩
  · exact happ.config_id hR hn hr hc
  · exact hb.game_unique H (Slot.parse_eq_user.mpr hu) (Slot.parse_eq_user.mpr hu') e
  · exact Slot.parse_eq_empty.mp (hb.next_empty H (Slot.parse_eq_user.mpr hu))

theorem resources_addressed_opened :
    Sample.opened.store.Addressed .plain ∧
      (∀ sub as a cx, (sub.access.map Prod.fst).Nodup →
        Sample.opened.Applying .plain Sample.policy sub as a cx →
        ∀ r ∈ cx.resources, ∀ c, ConfigBody.fromBytes .plain r.data = .ok c →
          r.id = configResourceId .plain) ∧
      (∀ id u id' u' n n', UserBody.fromBytes .plain (Sample.opened.store id) = .ok u →
        UserBody.fromBytes .plain (Sample.opened.store id') = .ok u' →
        deriveGameResource .plain u.initialLockHash n
          = deriveGameResource .plain u'.initialLockHash n' → id = id' ∧ n = n') ∧
      ∀ id u, UserBody.fromBytes .plain (Sample.opened.store id) = .ok u →
        Sample.opened.store (deriveGameResource .plain u.initialLockHash u.gamesStarted) = [] :=
  resources_addressed Sample.reachable_opened .between Sample.opened_collisionFree

end Stores

end TicTacToe
