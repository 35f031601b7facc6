/-
TicTacToe.Ledger.Effects — what an action does to one slot.

`SlotStep` lists it: nothing is ever unborn or changes kind; a user keeps
the lock hash it was born with, and either loses nothing or is named by
the action as its spender with its lock open; a game keeps its creator.
Births and joins say where the other slots they involve stand. Every
invariant about ids, players and authority is read off
`LedgerStep.slot`.

No `sorry`, no `axiom`, no `native_decide`.
-/
import TicTacToe.Ledger.History

namespace TicTacToe

open Lib
open Function (update)

/-- The index an action spends from or re-locks, and must be opened at. -/
def ActionBody.spender : ActionBody → Option UInt8
  | .transfer sourceIdx _ _ _ => some sourceIdx
  | .updateUserLock userIdx _ => some userIdx
  | .withdraw userIdx _ _ _ => some userIdx
  | .createGame creatorIdx _ _ _ _ => some creatorIdx
  | .joinGame _ joinerIdx => some joinerIdx
  | .update .. | .init .. | .deposit .. | .turn .. | .timeout .. => none

/-- The user loses nothing: its balance may only grow, and its lock, its
birth lock hash and its started games stay. -/
structure Kept (u u' : UserBody) : Prop where
  balance : u.balance.toNat ≤ u'.balance.toNat
  lockTag : u'.lockTag = u.lockTag
  lockBody : u'.lockBody = u.lockBody
  initialLockHash : u'.initialLockHash = u.initialLockHash
  gamesStarted : u'.gamesStarted = u.gamesStarted

theorem Kept.refl (u : UserBody) : Kept u u := ⟨le_rfl, rfl, rfl, rfl, rfl⟩

theorem Kept.trans {u u' u'' : UserBody} (h : Kept u u') (h' : Kept u' u'') : Kept u u'' :=
  ⟨h.balance.trans h'.balance, h'.lockTag.trans h.lockTag, h'.lockBody.trans h.lockBody,
    h'.initialLockHash.trans h.initialLockHash, h'.gamesStarted.trans h.gamesStarted⟩

theorem Kept.credit {u : UserBody} {b : UInt64} (h : u.balance.toNat ≤ b.toNat) :
    Kept u { u with balance := b } := ⟨h, rfl, rfl, rfl, rfl⟩

theorem Paid.kept {u u' : UserBody} {credit : Nat} {won : Bool} (h : Paid u u' credit won) :
    Kept u u' :=
  ⟨h.balance ▸ Nat.le_add_right _ _, h.lockTag, h.lockBody, h.initialLockHash, h.gamesStarted⟩

/-- The action names `id` as its spender, and the stored lock opens there. -/
def Spends (B : Battery) (cx : ApplyContext) (a : ActionBody) (id : ResourceId) (u : UserBody) :
    Prop :=
  ∃ i, a.spender = some i ∧ cx.idAt i = some id ∧ Opens B u.lock i cx

inductive SlotStep (B : Battery) (cx : ApplyContext) (a : ActionBody) (L L' : Ledger)
    (id : ResourceId) : Prop
  | same : L' id = L id → SlotStep B cx a L L' id
  | config {c c' : ConfigBody} : L id = .config c → L' id = .config c' → SlotStep B cx a L L' id
  | configBorn {c : ConfigBody} : L id = .empty → L' id = .config c → id = configResourceId B →
      SlotStep B cx a L L' id
  | userBorn {u : UserBody} : L id = .empty → L' id = .user u →
      id = deriveUserResource B u.initialLockHash → u.stats = .default → SlotStep B cx a L L' id
  | kept {u u' : UserBody} : L id = .user u → L' id = .user u' → Kept u u' →
      SlotStep B cx a L L' id
  | spent {u u' : UserBody} : L id = .user u → L' id = .user u' → Spends B cx a id u →
      u'.initialLockHash = u.initialLockHash → u'.gamesStarted = u.gamesStarted →
      SlotStep B cx a L L' id
  | started {u u' : UserBody} {g : GameBody} : L id = .user u → L' id = .user u' →
      Spends B cx a id u → u'.initialLockHash = u.initialLockHash →
      u'.gamesStarted.toNat = u.gamesStarted.toNat + 1 →
      L' (deriveGameResource B u.initialLockHash u.gamesStarted) = .game g → g.players 0 = id →
      SlotStep B cx a L L' id
  | gameBorn {g : GameBody} {u u' : UserBody} : L id = .empty → L' id = .game g →
      g.state = .open → L (g.players 0) = .user u → L' (g.players 0) = .user u' →
      u'.initialLockHash = u.initialLockHash →
      u'.gamesStarted.toNat = u.gamesStarted.toNat + 1 →
      id = deriveGameResource B u.initialLockHash u.gamesStarted → SlotStep B cx a L L' id
  | gameJoined {g g' : GameBody} {u : UserBody} : L id = .game g → L' id = .game g' →
      g'.players 0 = g.players 0 → L (g'.players 1) = .user u → SlotStep B cx a L L' id
  | gameMoved {g g' : GameBody} : L id = .game g → L' id = .game g' → SameMatch g g' →
      g.state = .playing → SlotStep B cx a L L' id

section Steps

variable {B : Battery} {P : DepositPolicy} {cx : ApplyContext} {L L' : Ledger} {a : ActionBody}
  {flow : Flow} {id : ResourceId}

/-- One slot rewritten: the others are the same. -/
theorem slotStep_update {i : ResourceId} {s : Slot}
    (h : update L i s i = s → SlotStep B cx a L (update L i s) i) :
    SlotStep B cx a L (update L i s) id := by
  by_cases he : id = i
  · subst he
    exact h (Function.update_self ..)
  · exact .same (Function.update_of_ne he ..)

/-- Two different slots rewritten. -/
theorem slotStep_update₂ {i j : ResourceId} {s t : Slot} (hne : i ≠ j)
    (hi : update (update L i s) j t i = s → update (update L i s) j t j = t →
      SlotStep B cx a L (update (update L i s) j t) i)
    (hj : update (update L i s) j t i = s → update (update L i s) j t j = t →
      SlotStep B cx a L (update (update L i s) j t) j) :
    SlotStep B cx a L (update (update L i s) j t) id := by
  have hti : update (update L i s) j t i = s := by
    rw [Function.update_of_ne hne, Function.update_self]
  have htj : update (update L i s) j t j = t := Function.update_self ..
  by_cases hej : id = j
  · subst hej
    exact hj hti htj
  · by_cases hei : id = i
    · subst hei
      exact hi hti htj
    · exact .same (by rw [Function.update_of_ne hej, Function.update_of_ne hei])

/-- Settlement only pays users. -/
theorem Settlement.slot {g : GameBody} (h : Settlement L g L') (id : ResourceId) :
    L' id = L id ∨ ∃ u u', L id = .user u ∧ L' id = .user u' ∧ Kept u u' := by
  cases h with
  | @paid u₀ u₀' u₁ u₁' _ _ hu₀ hpaid₀ hu₁ hpaid₁ =>
    -- the first payment, then the second on top of it
    have hfirst : update L (g.players 0) (.user u₀') id = L id ∨ ∃ u u', L id = .user u ∧
        update L (g.players 0) (.user u₀') id = .user u' ∧ Kept u u' := by
      by_cases he : id = g.players 0
      · subst he
        exact .inr ⟨u₀, u₀', hu₀, Function.update_self .., hpaid₀.kept⟩
      · exact .inl (Function.update_of_ne he ..)
    by_cases he : id = g.players 1
    · subst he
      refine .inr ?_
      rcases hfirst with hsame | ⟨u, u', hu, hu', hkept⟩
      · exact ⟨u₁, u₁', hsame ▸ hu₁, Function.update_self .., hpaid₁.kept⟩
      · rw [hu₁] at hu'
        cases hu'
        exact ⟨u, u₁', hu, Function.update_self .., hkept.trans hpaid₁.kept⟩
    · rw [Function.update_of_ne he]
      exact hfirst

/-- Two slots of different kinds are different slots. -/
theorem ne_of_slot {i j : ResourceId} {s t : Slot} (hi : L i = s) (hj : L j = t) (h : s ≠ t) :
    i ≠ j := by
  rintro rfl
  exact h (hi.symm.trans hj)

/-- What an accepted action does to any one slot. -/
theorem LedgerStep.slot (h : LedgerStep B P cx L a flow L') (hs : L.Sound) (id : ResourceId) :
    SlotStep B cx a L L' id := by
  cases h with
  | update _ hc => exact slotStep_update fun hself => .config hc hself
  | init _ he => exact slotStep_update fun hself => .configBorn he hself rfl
  | transfer hsi _ hne hu hop _ hw hb' =>
    refine slotStep_update₂ hne (fun hself _ => ?_) fun _ hself => ?_
    · exact .spent hu hself ⟨_, rfl, hsi, hop⟩ rfl rfl
    · exact .kept hw hself (.credit (by omega))
  | transferCreate hsi _ hne hu hop _ he hderive =>
    refine slotStep_update₂ hne (fun hself _ => ?_) fun _ hself => ?_
    · exact .spent hu hself ⟨_, rfl, hsi, hop⟩ rfl rfl
    · exact .userBorn he hself hderive rfl
  | rotate hi hu hop =>
    exact slotStep_update fun hself => .spent hu hself ⟨_, rfl, hi, hop⟩ rfl rfl
  | depositCreate _ _ _ _ _ _ _ _ he hderive =>
    exact slotStep_update fun hself => .userBorn he hself hderive rfl
  | depositCredit _ _ _ _ _ _ _ _ hu _ hb =>
    exact slotStep_update fun hself => .kept hu hself (.credit (by omega))
  | withdraw _ _ _ hi hu hop =>
    exact slotStep_update fun hself => .spent hu hself ⟨_, rfl, hi, hop⟩ rfl rfl
  | @createGame ci gi stake rounds mark id gid u b n hci hu hop _ hn hgi he hderive =>
    refine slotStep_update₂ (ne_of_slot hu he (by simp)) (fun hself hgame => ?_)
      fun huser hself => ?_
    · refine .started (g := .fresh id mark stake rounds) hu hself ⟨_, rfl, hci, hop⟩ rfl hn ?_ rfl
      rw [← hderive]
      exact hgame
    · exact .gameBorn he hself rfl hu huser rfl hn hderive
  | @joinGame gi ji id gid u g b hji hu hop _ hg hopen _ hb =>
    refine slotStep_update₂ (ne_of_slot hu hg (by simp)) (fun hself _ => ?_) fun _ hself => ?_
    · exact .spent hu hself ⟨_, rfl, hji, hop⟩ rfl rfl
    · refine .gameJoined (u := u) hg hself (GameBody.seatJoiner_creator ..) ?_
      rw [GameBody.seatJoiner_joiner]
      exact hu
  | play hmove hg _ =>
    obtain ⟨log, hrun⟩ := hs _ _ hg
    obtain ⟨hplaying, hsame, -⟩ := hmove.from hrun
    exact slotStep_update fun hself => .gameMoved hg hself hsame hplaying
  | @finish _ gid g g' _ hmove hg hsettle =>
    obtain ⟨log, hrun⟩ := hs _ _ hg
    obtain ⟨hplaying, hsame, -⟩ := hmove.from hrun
    by_cases he : id = gid
    · subst he
      rcases hsettle.slot id with hkeep | ⟨u, u', hu, -⟩
      · rw [Function.update_self] at hkeep
        exact .gameMoved hg hkeep hsame hplaying
      · rw [Function.update_self] at hu
        cases hu
    · rcases hsettle.slot id with hkeep | ⟨u, u', hu, hu', hkept⟩
      · rw [Function.update_of_ne he] at hkeep
        exact .same hkeep
      · rw [Function.update_of_ne he] at hu
        exact .kept hu hu' hkept

/-- A user stays a user, with the hash it was born with, and its number of
games never drops. -/
theorem SlotStep.user_stays (h : SlotStep B cx a L L' id) {u : UserBody} (hu : L id = .user u) :
    ∃ u', L' id = .user u' ∧ u'.initialLockHash = u.initialLockHash ∧
      u.gamesStarted.toNat ≤ u'.gamesStarted.toNat := by
  cases h with
  | same e => exact ⟨u, e.trans hu, rfl, le_rfl⟩
  | kept hold hnew hkept =>
    rw [hu] at hold
    cases hold
    exact ⟨_, hnew, hkept.initialLockHash, hkept.gamesStarted ▸ le_rfl⟩
  | spent hold hnew _ hilh hstart =>
    rw [hu] at hold
    cases hold
    exact ⟨_, hnew, hilh, hstart ▸ le_rfl⟩
  | started hold hnew _ hilh hstart =>
    rw [hu] at hold
    cases hold
    exact ⟨_, hnew, hilh, by omega⟩
  | config hold | configBorn hold | userBorn hold | gameBorn hold | gameJoined hold
  | gameMoved hold =>
    rw [hu] at hold
    cases hold

/-- A game stays a game, with its creator. -/
theorem SlotStep.game_stays (h : SlotStep B cx a L L' id) {g : GameBody} (hg : L id = .game g) :
    ∃ g', L' id = .game g' ∧ g'.players 0 = g.players 0 := by
  cases h with
  | same e => exact ⟨g, e.trans hg, rfl⟩
  | gameJoined hold hnew hcreator =>
    rw [hg] at hold
    cases hold
    exact ⟨_, hnew, hcreator⟩
  | gameMoved hold hnew hsame =>
    rw [hg] at hold
    cases hold
    exact ⟨_, hnew, by rw [hsame.players]⟩
  | kept hold | spent hold | started hold | config hold | configBorn hold | userBorn hold
  | gameBorn hold =>
    rw [hg] at hold
    cases hold

end Steps

end TicTacToe
