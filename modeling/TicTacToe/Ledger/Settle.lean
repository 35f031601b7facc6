/-
TicTacToe.Ledger.Settle — `settle_match` pays both seats of a finished
match, or is refused for one of four reasons.

`Settleable` lists those reasons: the pot, a missing seat, a player that
is absent or not writable, a sum that does not fit. Nothing else can go
wrong, so a match whose players are attached and whose sums fit is paid.

No `sorry`, no `axiom`, no `native_decide`.
-/
import TicTacToe.Ledger.Rules

namespace TicTacToe

open Lib

/-- `u` can take `credit` and one more match. -/
structure UserBody.Room (u : UserBody) (credit : Nat) : Prop where
  balance : u.balance.toNat + credit < 2 ^ 64
  gamesFinished : u.gamesFinished.toNat + 1 < 2 ^ 64
  gamesWon : u.gamesWon.toNat + 1 < 2 ^ 64

/-- The user `player` is attached, writable, and has room for `credit`. -/
def Payable (B : Battery) (cx : ApplyContext) (player : ResourceId) (credit : Nat) : Prop :=
  ∃ (i : Nat) (r : Resource) (u : UserBody), cx.resources[i]? = some r ∧ r.id = player ∧
    r.isWritable = true ∧ UserBody.fromBytes B r.data = .ok u ∧ u.Room credit

/-- Both seats can be paid the whole pot. -/
structure Settleable (B : Battery) (cx : ApplyContext) (g : GameBody) : Prop where
  pot : g.stake.toNat * 2 < 2 ^ 64
  joiner_ne : g.players 1 ≠ ResourceId.default
  seats_ne : g.players 1 ≠ g.players 0
  payable : ∀ s, Payable B cx (g.players s) (2 * g.stake.toNat)

theorem UserBody.Room.mono {u : UserBody} {c d : Nat} (h : u.Room d) (hle : c ≤ d) : u.Room c :=
  ⟨lt_of_le_of_lt (Nat.add_le_add_left hle _) h.balance, h.gamesFinished, h.gamesWon⟩

theorem Payable.mono {B : Battery} {cx : ApplyContext} {player : ResourceId} {c d : Nat}
    (h : Payable B cx player d) (hle : c ≤ d) : Payable B cx player c := by
  obtain ⟨i, r, u, hi, hid, hw, hu, hroom⟩ := h
  exact ⟨i, r, u, hi, hid, hw, hu, hroom.mono hle⟩

/-- Another slot being rewritten does not matter. -/
theorem Payable.setResource {B : Battery} {cx : ApplyContext} {player : ResourceId} {c j : Nat}
    {q q' : Resource} (h : Payable B cx player c) (hj : cx.resources[j]? = some q)
    (hne : q.id ≠ player) : Payable B (cx.setResource j q') player c := by
  obtain ⟨i, r, u, hi, hid, hrest⟩ := h
  refine ⟨i, r, u, ?_, hid, hrest⟩
  have hij : j ≠ i := by
    rintro rfl
    rw [hj] at hi
    cases hi
    exact hne hid
  exact (ApplyContext.setResource_ne hij).trans hi

theorem payout_le (state : State) (stake : Nat) (s : Seat) : payout state stake s ≤ 2 * stake := by
  unfold payout
  split <;> first | (split <;> omega) | omega

section Settle

variable {B : Battery} {cx : ApplyContext} {F : Fault → Prop}

theorem wp_settleUser {credit : UInt64} {won : Bool} {Q : Unit → UserBody → Prop} {u : UserBody}
    (hE : ¬ u.Room credit.toNat → ∀ m, F (.decode m))
    (hQ : ∀ u', Paid u u' credit.toNat won → Q () u') :
    wp (settleUser credit won) Q (fun e _ => F e) u := by
  -- a failed addition is a sum that does not fit
  have hfull : ∀ {a b : UInt64}, checkedAdd a b = none → ¬ a.toNat + b.toNat < 2 ^ 64 :=
    fun hnone hlt => by
      obtain ⟨c, hc⟩ := checkedAdd_isSome hlt
      rw [hnone] at hc
      cases hc
  have hrest : ∀ v : UserBody, v = { u with balance := v.balance } →
      v.balance.toNat = u.balance.toNat + credit.toNat →
      wp (do bumpGamesFinished; if won then bumpGamesWon else pure ()) Q (fun e _ => F e) v := by
    intro v hv hbal
    rw [hv]
    simp only [bumpGamesFinished, wp_bind, wp_get, wp_okOr, wp_set]
    refine ⟨fun n hn => ?_, fun hnone => hE (fun h => hfull hnone h.gamesFinished) _⟩
    have hfin : n.toNat = u.gamesFinished.toNat + 1 := checkedAdd_eq_some.mp hn
    cases won with
    | false => exact hQ _ ⟨hbal, hfin, rfl, rfl, rfl, rfl, rfl⟩
    | true =>
      simp only [if_true, bumpGamesWon, wp_bind, wp_get, wp_okOr, wp_set]
      refine ⟨fun w hw => ?_, fun hnone => hE (fun h => hfull hnone h.gamesWon) _⟩
      exact hQ _ ⟨hbal, hfin, checkedAdd_eq_some.mp hw, rfl, rfl, rfl, rfl⟩
  simp only [settleUser, settleBalance]
  by_cases hpos : credit > 0
  · rw [if_pos hpos, wp_bind]
    refine wp_creditBalance (fun hlt => hE (fun h => hlt h.balance) _) fun b hb => ?_
    exact hrest _ rfl hb
  · rw [if_neg hpos, wp_bind, wp_pure]
    have hzero : credit.toNat = 0 := by
      have h0 := UInt64.lt_iff_toNat_lt.not.mp hpos
      simpa using h0
    exact hrest u rfl (by rw [hzero, Nat.add_zero])

/-- The player is found by id and paid in place. -/
theorem wp_settleSeat {player : ResourceId} {credit : UInt64} {won : Bool}
    {Q : Unit → ApplyContext → Prop} (hc : cx.Coherent)
    (hE : ¬ Payable B cx player credit.toNat → ∀ m, F (.decode m))
    (hQ : ∀ (i : Nat) (r : Resource) (u u' : UserBody), cx.resources[i]? = some r →
      r.id = player → UserBody.fromBytes B r.data = .ok u → Paid u u' credit.toNat won →
      Q () (cx.setResource i (r.setData u'.toBytes))) :
    wp (settleSeat B player credit won) Q (fun e _ => F e) cx := by
  simp only [settleSeat, wp_bind, wp_get, wp_okOr, userSlotOf]
  refine ⟨fun i hi => ?_, fun hnone => hE ?_ _⟩
  · obtain ⟨hlt, hat, -⟩ := List.findIdx?_eq_some_iff_getElem.mp hi
    have hid : cx.resources[i].id = player := by simpa using hat
    have hr : cx.resources[i]? = some cx.resources[i] := List.getElem?_eq_getElem hlt
    -- ids are distinct, so what is payable is what was found
    have hfound : ∀ {j : Nat} {r : Resource}, cx.resources[j]? = some r → r.id = player →
        r = cx.resources[i] := by
      intro j r hj hrid
      obtain rfl := index_unique hc.nodup hj hr (hrid.trans hid.symm)
      rw [hr] at hj
      exact (Option.some.inj hj).symm
    refine wp_modifyUserAt hr (fun hno => hE ?_ _) fun u hw hu => wp_settleUser ?_ ?_
    · rintro ⟨j, r, u, hj, hrid, hw, hu, -⟩
      obtain rfl := hfound hj hrid
      exact hno hw u hu
    · intro hroom
      refine hE ?_
      rintro ⟨j, r, u', hj, hrid, -, hu', hroom'⟩
      obtain rfl := hfound hj hrid
      rw [hu] at hu'
      cases hu'
      exact hroom hroom'
    · exact fun u' hpaid => hQ i _ u u' hr hid hu hpaid
  · rintro ⟨j, r, u, hj, hrid, -⟩
    have habsent := List.findIdx?_eq_none_iff.mp hnone r (List.mem_of_getElem? hj)
    simp [hrid] at habsent

theorem settleCredits_eq {state : State} {stake pot : UInt64} (hpot : pot.toNat = stake.toNat * 2)
    {credits : Seat → UInt64} {winner : Option Seat}
    (h : settleCredits state stake pot = .ok (credits, winner)) :
    (∀ s, (credits s).toNat = payout state stake.toNat s) ∧ winner = winnerOf state := by
  cases state with
  | first | second | draw =>
    cases h
    refine ⟨Fin.forall_fin_two.mpr ⟨?_, ?_⟩, rfl⟩ <;> simp [payout, hpot, Nat.mul_comm]
  | «open» | playing => cases h

theorem settleCredits_isOk {g : GameBody} (hfin : g.isFinished = true) (pot : UInt64) :
    ∃ credits winner, settleCredits g.state g.stake pot = .ok (credits, winner) := by
  unfold GameBody.isFinished at hfin
  cases hs : g.state with
  | first | second | draw => exact ⟨_, _, rfl⟩
  | «open» | playing => simp [hs] at hfin

theorem wp_settleMatch {gi : UInt8} {r : Resource} {g : GameBody} (hc : cx.Coherent)
    (hr : cx.resources[gi.toNat]? = some r) (hg : GameBody.fromBytes r.data = .ok g)
    (hfin : g.isFinished = true) {Q : Unit → ApplyContext → Prop}
    (hE : ¬ Settleable B cx g → ∀ m, F (.decode m))
    (hQ : ∀ cx', Frame cx cx' → cx'.Coherent → cx'.exits = cx.exits →
      cx'.consumedOutputs = cx.consumedOutputs →
      (∀ st, Settlement (cx.ledger B st) g (cx'.ledger B st)) → Q () cx') :
    wp (settleMatch B gi) Q (fun e _ => F e) cx := by
  have hview : viewGame r (fun g => (g.state, g.creator, g.joiner, g.stake))
      = some (g.state, g.creator, g.joiner, g.stake) := viewBody_eq_some.mpr ⟨g, hg, rfl⟩
  simp only [settleMatch, wp_bind, wp_resourceAt hr, hview, wp_okOr_some]
  by_cases hj : g.players 1 ≠ ResourceId.default
  swap
  · rw [show g.joiner = none from if_neg hj, wp_okOr_none]
    exact hE (fun h => hj h.joiner_ne) _
  rw [show g.joiner = some (g.players 1) from if_pos hj, wp_okOr_some, wp_okOr]
  refine ⟨fun pot hpot => ?_, fun hnone => hE (fun h => ?_) _⟩
  swap
  · have hfits : g.stake.toNat * (2 : UInt64).toNat < 2 ^ 64 := h.pot
    rw [checkedMul, if_pos hfits] at hnone
    cases hnone
  have hpot := checkedMul_eq_some.mp hpot
  obtain ⟨credits, winner, hcredits⟩ := settleCredits_isOk hfin pot
  obtain ⟨hpay, rfl⟩ := settleCredits_eq hpot hcredits
  simp only [hcredits, wp_liftE_ok]
  have hle : ∀ s, (credits s).toNat ≤ 2 * g.stake.toNat := fun s => by
    rw [hpay]
    exact payout_le _ _ _
  refine wp_settleSeat hc (fun hno => hE fun h => hno ((h.payable 0).mono (hle 0))) ?_
  intro i q u₀ u₀' hi hq hu₀ hpaid₀
  have hc₁ := hc.setData hi (data_ne_nil_of_user hu₀) (UserBody.toBytes_ne_nil (u := u₀'))
  refine wp_settleSeat hc₁ (fun hno => hE fun h => hno ?_) ?_
  · refine ((h.payable 1).mono (hle 1)).setResource hi ?_
    rw [hq]
    exact h.seats_ne.symm
  · intro k w u₁ u₁' hk hw hu₁ hpaid₁
    refine hQ _ ((ApplyContext.frame_setData hi _).trans (ApplyContext.frame_setData hk _))
      (hc₁.setData hk (data_ne_nil_of_user hu₁) UserBody.toBytes_ne_nil) rfl rfl fun st => ?_
    rw [hpay] at hpaid₀ hpaid₁
    have hledger₀ : (cx.setResource i (q.setData u₀'.toBytes)).ledger B st = _ :=
      ApplyContext.ledger_setData hc hi u₀'.toBytes
    rw [parse_modified u₀' hu₀ hpaid₀.lockTag hpaid₀.lockBody, hq] at hledger₀
    have hu₁' : ApplyContext.ledger B st _ w.id = .user u₁ := ApplyContext.ledger_user hc₁ hk hu₁
    rw [hw, hledger₀] at hu₁'
    rw [ApplyContext.ledger_setData hc₁ hk, hledger₀,
      parse_modified u₁' hu₁ hpaid₁.lockTag hpaid₁.lockBody, hw]
    have hu₀' : cx.ledger B st q.id = .user u₀ := ApplyContext.ledger_user hc hi hu₀
    rw [hq] at hu₀'
    exact .paid hfin hj hu₀' hpaid₀ hu₁' hpaid₁

end Settle

end TicTacToe
