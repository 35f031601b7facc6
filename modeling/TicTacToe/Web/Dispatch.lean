/-
TicTacToe.Web.Dispatch — when the browser sends a queued turn
(`inFlightTurns` of `web/src/carriers.ts` and the premove dispatcher of
`web/src/App.tsx`).

The dispatcher looks at the served game and at the carriers of the lane
that wait in the L1 queue, and sends a turn only if none of them turns in
the same game. `Submission.Idle` is what that says of a carrier, once its
payload is the one the runtime attaches by and no one claims the round;
such a carrier leaves a playing match as it is, whatever else it does. So
the turn is still the next ply when the queue has landed, in any order and
in part.

No `sorry`, no `axiom`, no `native_decide`.
-/
import TicTacToe.Invariants.Schedule
import TicTacToe.Web.Carriers
import TicTacToe.Web.Match

namespace TicTacToe

open Lib

/-! ## What leaves a match alone -/

/-- The index of the game an action moves. -/
def ActionBody.gameIdx : ActionBody → Option UInt8
  | .turn gameIdx _ _ => some gameIdx
  | .timeout gameIdx _ => some gameIdx
  | _ => none

/-- No action moves the game `gid`. -/
def Submission.Idle (B : Battery) (gid : ResourceId) (sub : Submission) : Prop :=
  ∀ a ∈ sub.actions B, ∀ i, a.gameIdx = some i →
    (sub.access[i.toNat]?).map Prod.fst ≠ some gid

section Idle

variable {B : Battery} {P : DepositPolicy} {cx : ApplyContext} {L L' : Ledger} {a : ActionBody}
  {flow : Flow} {gid : ResourceId} {g : GameBody} {R : Rollup} {sub : Submission}

theorem GameMove.gameIdx {gid' : ResourceId} {g₀ g' : GameBody}
    (h : GameMove B cx L a gid' g₀ g') : ∃ i, a.gameIdx = some i ∧ cx.idAt i = some gid' := by
  cases h with
  | turn hgi => exact ⟨_, rfl, hgi⟩
  | timeout hgi => exact ⟨_, rfl, hgi⟩

/-- A playing match stays as it is under what does not move it. -/
theorem LedgerStep.keeps_playing (h : LedgerStep B P cx L a flow L') (hg : L gid = .game g)
    (hon : g.state = .playing) (hidle : ∀ i, a.gameIdx = some i → cx.idAt i ≠ some gid) :
    L' gid = .game g := by
  have hkept : ∀ {i : ResourceId} {s t : Slot}, L i = t → t ≠ .game g →
      Function.update L i s gid = .game g := by
    intro i s t ht hne
    rw [Function.update_of_ne (ne_of_slot hg ht (Ne.symm hne)), hg]
  have hkept₂ : ∀ {i j : ResourceId} {s s' t t' : Slot}, L i = t → t ≠ .game g → L j = t' →
      t' ≠ .game g → Function.update (Function.update L i s) j s' gid = .game g := by
    intro i j s s' t t' ht hne ht' hne'
    rw [Function.update_of_ne (ne_of_slot hg ht' (Ne.symm hne'))]
    exact hkept ht hne
  cases h with
  | update _ hslot | init _ hslot | rotate _ hslot | depositCredit _ _ _ _ _ _ _ _ hslot
  | withdraw _ _ _ _ hslot | depositCreate _ _ _ _ _ _ _ _ hslot =>
    exact hkept hslot (by simp)
  | transfer _ _ _ hu _ _ hdst | transferCreate _ _ _ hu _ _ hdst =>
    exact hkept₂ hu (by simp) hdst (by simp)
  | createGame _ hu _ _ _ _ he => exact hkept₂ hu (by simp) he (by simp)
  | joinGame _ hu _ _ hg₀ hopen =>
    refine hkept₂ hu (by simp) hg₀ fun heq => ?_
    obtain rfl := Slot.game.inj heq
    rw [hon] at hopen
    cases hopen
  | play hmove _ _ =>
    obtain ⟨i, hi, hid⟩ := hmove.gameIdx
    have hne : gid ≠ _ := fun heq => hidle i hi (heq ▸ hid)
    rw [Function.update_of_ne hne, hg]
  | finish hmove _ hsettle =>
    obtain ⟨i, hi, hid⟩ := hmove.gameIdx
    have hne : gid ≠ _ := fun heq => hidle i hi (heq ▸ hid)
    obtain hsame | ⟨u, u', hu, -⟩ := hsettle.slot gid
    · rw [hsame, Function.update_of_ne hne, hg]
    · rw [Function.update_of_ne hne, hg] at hu
      cases hu

theorem Rollup.Applying.idAt (hR : Reachable B P R) (hn : (sub.access.map Prod.fst).Nodup)
    {as : List ActionBody} (h : R.Applying B P sub as a cx) (i : UInt8) :
    cx.idAt i = (sub.access[i.toNat]?).map Prod.fst := by
  obtain ⟨hinv, -⟩ := h.inv hR hn
  have hkeys : cx.resources.map (fun r => (r.id, r.accessType)) = sub.access := by
    rw [hinv.keys]
    exact Rollup.keys_start (R := R) []
  rw [← hkeys, List.getElem?_map, Option.map_map]
  rfl

/-- A submission of idle actions leaves a playing match as it is. -/
theorem Rollup.submit_idle (hR : Reachable B P R) (hn : (sub.access.map Prod.fst).Nodup)
    (hidle : sub.Idle B gid) (hg : R.store.ledger B gid = .game g) (hon : g.state = .playing) :
    (R.submit B P sub).store.ledger B gid = .game g := by
  have hsteps : ∀ {st}, Relation.ReflTransGen (R.ActionStep B P sub) R.store st →
      st.ledger B gid = .game g := by
    intro st h
    induction h with
    | refl => exact hg
    | tail _ hstep ih =>
      obtain ⟨as, a, cx, cx', happ, hact, rfl, rfl⟩ := hstep
      obtain ⟨hinv, hin⟩ := happ.inv hR hn
      have hacc := (wp_applyAction hinv.coherent hinv.sound hin).ok hact
      obtain ⟨flow, hledger, -, -⟩ := hacc.step
      refine (hledger R.store).keeps_playing ih hon fun i hi => ?_
      rw [happ.idAt hR hn]
      refine hidle a ?_ i hi
      obtain ⟨ix, presig, hix, -, hinit, -⟩ := happ.exists_run
      have hlen : (R.attach sub).length = sub.access.length := List.length_map _
      unfold Rollup.decoded at hix
      rw [hlen] at hix
      unfold Submission.actions
      rw [hix]
      exact hinit.subset (List.mem_append_right as (List.mem_singleton_self a))
  exact hsteps R.submit_steps

theorem Rollup.submitAll_idle {subs : List Submission} (hR : Reachable B P R)
    (hsubs : ∀ sub ∈ subs, (sub.access.map Prod.fst).Nodup ∧ sub.Idle B gid)
    (hg : R.store.ledger B gid = .game g) (hon : g.state = .playing) :
    Reachable B P (R.submitAll B P subs) ∧
      (R.submitAll B P subs).store.ledger B gid = .game g := by
  induction subs generalizing R with
  | nil => exact ⟨hR, hg⟩
  | cons sub subs ih =>
    obtain ⟨hn, hidle⟩ := hsubs sub List.mem_cons_self
    exact ih (hR.submit hn) (fun s hs => hsubs s (List.mem_cons_of_mem sub hs))
      (Rollup.submit_idle hR hn hidle hg hon)

end Idle

/-- The access prefix of the payload lists what is attached. -/
def Submission.Framed (sub : Submission) : Prop :=
  ∃ entries : List Web.AccessEntry, entries.map Prod.fst = sub.access.map Prod.fst ∧
    entries.length < 2 ^ 32 ∧
    sub.tx.payload.accessPrefix = encVec Web.AccessEntry.encode entries

namespace Sample

/-- A carrier that wants to join the game once more. -/
def joiningAgain : Submission where
  tx := { payload := { accessPrefix := encVec Web.AccessEntry.encode
                         [(gameId, 1), (bobId, 1)],
                       ixData := encodeIx [.joinGame 0 1] [] },
          restPreimage := [] }
  context := { daaScore := 105 }
  access := [(gameId, .write), (bobId, .write)]
  exits := []
  deposit := none

theorem joiningAgain_actions : joiningAgain.actions .plain = [.joinGame 0 1] := by
  have hix : decodeIx joiningAgain.tx.payload.ixData joiningAgain.access.length
      (decodeAction .plain) = .ok ⟨[], [.joinGame 0 1], endOfActions [.joinGame 0 1]⟩ := by
    refine (decodeIx_ok rfl).mpr ⟨[], by decide, fun a ha => ?_, rfl, rfl⟩
    rw [List.mem_singleton.mp ha]
    exact ⟨by decide, by decide⟩
  unfold Submission.actions
  rw [hix]

end Sample

namespace Web

/-! ## The queue -/

/-- The actions of a carrier in the queue; one that does not decode is shown as
an unknown action, `none` here. -/
abbrev LaneCarrier := Option (List LaneAction)

/-- What a poll makes of a payload. -/
def laneCarrier (payload : List UInt8) : LaneCarrier := (decodeLanePayload payload).toOption

/-- In-flight turns for one game, any mover. -/
def inFlightTurns (carriers : List LaneCarrier) (gameId : String) :
    List (Option String × Option UInt8) :=
  carriers.flatMap fun c => (c.getD []).filterMap fun a =>
    match a with
    | .turn (some game) userId cell => if game = gameId then some (userId, cell) else none
    | _ => none

section Queue

variable {B : Battery} {gid : ResourceId} {sub : Submission}

/-- The browser decodes the actions the guest decodes. -/
theorem laneCarrier_framed {entries : List AccessEntry}
    (hids : entries.map Prod.fst = sub.access.map Prod.fst) (hlen : entries.length < 2 ^ 32)
    (hpre : sub.tx.payload.accessPrefix = encVec AccessEntry.encode entries)
    {ix : DecodedIx ActionBody}
    (hix : decodeIx sub.tx.payload.ixData sub.access.length (decodeAction B) = .ok ix) :
    laneCarrier sub.tx.payload.bytes = some (ix.actions.map (laneAction entries)) := by
  have hcount : entries.length = sub.access.length := by
    have hmaps := congrArg List.length hids
    rwa [List.length_map, List.length_map] at hmaps
  have haccess := (readsOnly_decodeAccessEntry.vec (.decode "access") sub.tx.payload.bytes entries
    sub.tx.payload.ixData).mpr ⟨⟨hlen, fun _ _ => trivial⟩, by rw [Payload.bytes, hpre]⟩
  have hpayload : decodePayload B sub.tx.payload.bytes = .ok ⟨entries, ix⟩ := by
    unfold decodePayload
    rw [haccess]
    dsimp only
    rw [hcount, hix]
  unfold laneCarrier
  rw [decodeLanePayload_of_ok hpayload]
  rfl

/-- With no turn in flight a carrier moves the match by claims only. -/
theorem idle_of_inFlight (hframed : sub.Framed) {carriers : List LaneCarrier}
    (hqueued : laneCarrier sub.tx.payload.bytes ∈ carriers)
    (hnone : inFlightTurns carriers (hexString gid.val) = [])
    (hclaims : ∀ g c, .timeout g c ∈ sub.actions B →
      (sub.access[g.toNat]?).map Prod.fst ≠ some gid) : sub.Idle B gid := by
  obtain ⟨entries, hids, hlen, hpre⟩ := hframed
  intro a ha i hi
  cases a with
  | timeout g c =>
    obtain rfl : g = i := Option.some.inj hi
    exact hclaims g c ha
  | turn g u cell =>
    obtain rfl : g = i := Option.some.inj hi
    intro hgame
    have hix : ∃ ix, decodeIx sub.tx.payload.ixData sub.access.length (decodeAction B) = .ok ix ∧
        .turn g u cell ∈ ix.actions := by
      unfold Submission.actions at ha
      cases hix : decodeIx sub.tx.payload.ixData sub.access.length (decodeAction B) with
      | error e =>
        rw [hix] at ha
        cases ha
      | ok ix =>
        rw [hix] at ha
        exact ⟨ix, rfl, ha⟩
    obtain ⟨ix, hix, hmem⟩ := hix
    have hshown : idAt entries g = some (hexString gid.val) := by
      have hat : (entries.map Prod.fst)[g.toNat]? = some gid := by
        rw [hids, List.getElem?_map]
        exact hgame
      rw [List.getElem?_map] at hat
      obtain ⟨entry, hentry, rfl⟩ := Option.map_eq_some_iff.mp hat
      rw [idAt, List.getElem?_map, hentry]
      rfl
    have hturn : (idAt entries u, some cell) ∈ inFlightTurns carriers (hexString gid.val) := by
      refine List.mem_flatMap.mpr ⟨_, hqueued, ?_⟩
      rw [laneCarrier_framed hids hlen hpre hix, Option.getD_some]
      refine List.mem_filterMap.mpr ⟨_, List.mem_map_of_mem hmem, ?_⟩
      simp only [laneAction, hshown, if_true]
    rw [hnone] at hturn
    cases hturn
  | update | init | transfer | updateUserLock | deposit | withdraw | createGame | joinGame =>
    cases hi

end Queue

/-! ## The dispatched turn -/

section Dispatched

variable {B : Battery} {P : DepositPolicy} {R : Rollup} {gid : ResourceId} {g : GameBody}

/-- A turn the browser dispatches is the next ply of a started match. -/
theorem dispatched_of_run {log : List PlyEvent} (hlog : GameRun g log) {id : String}
    {user : ResourceId} {mine any : Bool} {cell : Nat}
    (hdispatch : turnDispatchable (gameJson id g) (hexString user.val) mine any cell = true)
    (now : UInt64) :
    ∃ s m l fin p', TicTacToe.seatOf g user = .ok s ∧ markAndRound g = .ok m ∧
      playTurn user (UInt8.ofNat cell) now ⟨g, []⟩ = .ok fin p' ∧
      p'.log = .placed s (UInt8.ofNat cell) (Rules.markForSeat m.1 m.2 s) :: l := by
  obtain ⟨hmine, hcell, hfree⟩ := turnDispatchable_cell hdispatch
  have hon : g.state = .playing := by
    by_contra hidle
    rw [isMyTurn_idle hidle] at hmine
    cases hmine
  obtain ⟨u, hs, -⟩ := hlog.playing hon
  obtain ⟨-, s, hseat, hmove⟩ := (isMyTurn_iff hs.sim hs.valid id user).mp hmine
  have hbyte : (UInt8.ofNat cell).toNat = cell := by
    rw [UInt8.toNat_ofNat', Nat.mod_eq_of_lt (by omega)]
  have hcell' : (UInt8.ofNat cell).toNat < 9 := by omega
  have hfree' : g.board ⟨(UInt8.ofNat cell).toNat, hcell'⟩ = .empty := by
    rw [← hfree]
    exact congrArg g.board (Fin.ext hbyte)
  have haccept : wp (playTurn user (UInt8.ofNat cell) now) (fun _ _ => True)
      (fun _ _ => False) ⟨g, []⟩ := by
    refine wp_mono (hlog.wp_playTurn hcell' user now) (fun _ _ _ => trivial) ?_
    intro e _ hrefused
    exact hrefused.2 ⟨hon, s, hseat, hmove, hfree'⟩
  obtain ⟨fin, p', hrun, -⟩ := wp_total haccept
  obtain ⟨m, l, hm, hfirst⟩ := playTurn_first_mark hrun hseat hmove
  exact ⟨s, m, l, fin, p', hseat, hm, hrun, hfirst⟩

/-- **The queue guard.** Let the browser dispatch a turn at a reachable rollup,
with the carriers of the lane in view. When any of them have landed, in any
order and accepted or not, the game is still the one the browser looked at,
unless somebody claimed the round; so the turn is accepted and is the next
ply, at every score. -/
theorem dispatched_turn_lands (hR : Reachable B P R) {queue landed : List Submission}
    (hframed : ∀ sub ∈ queue, (sub.access.map Prod.fst).Nodup ∧ sub.Framed)
    (hclaims : ∀ sub ∈ queue, ∀ g c, .timeout g c ∈ sub.actions B →
      (sub.access[g.toNat]?).map Prod.fst ≠ some gid)
    (hlanded : landed ⊆ queue) (hg : GameBody.fromBytes (R.store gid) = .ok g)
    {user : ResourceId} {mine : Bool} {cell : Nat}
    (hdispatch : turnDispatchable (gameJson (hexString gid.val) g) (hexString user.val) mine
      (0 < (inFlightTurns (queue.map fun sub => laneCarrier sub.tx.payload.bytes)
        (hexString gid.val)).length) cell = true) (now : UInt64) :
    (R.submitAll B P landed).store gid = R.store gid ∧
      ∃ s m l fin p', TicTacToe.seatOf g user = .ok s ∧ markAndRound g = .ok m ∧
        playTurn user (UInt8.ofNat cell) now ⟨g, []⟩ = .ok fin p' ∧
        p'.log = .placed s (UInt8.ofNat cell) (Rules.markForSeat m.1 m.2 s) :: l := by
  have hslot : R.store.ledger B gid = .game g := Slot.parse_eq_game.mpr hg
  obtain ⟨log, hlog⟩ := sound_of_run hR.refines.1 gid g hslot
  refine ⟨?_, dispatched_of_run hlog hdispatch now⟩
  obtain ⟨hon, hnone⟩ : g.state = .playing ∧
      inFlightTurns (queue.map fun sub => laneCarrier sub.tx.payload.bytes) (hexString gid.val)
        = [] := by
    unfold turnDispatchable at hdispatch
    split at hdispatch
    · cases hdispatch
    rename_i hstate
    split at hdispatch
    · cases hdispatch
    split at hdispatch
    · cases hdispatch
    refine ⟨gameJson_state.mp (not_not.mp hstate), ?_⟩
    obtain ⟨-, hany⟩ := Bool.and_eq_true_iff.mp hdispatch
    simpa using hany
  have hidle : ∀ sub ∈ landed, (sub.access.map Prod.fst).Nodup ∧ sub.Idle B gid := by
    intro sub hsub
    obtain ⟨hn, hpayload⟩ := hframed sub (hlanded hsub)
    have hqueued : laneCarrier sub.tx.payload.bytes
        ∈ queue.map fun sub => laneCarrier sub.tx.payload.bytes :=
      List.mem_map.mpr ⟨sub, hlanded hsub, rfl⟩
    exact ⟨hn, idle_of_inFlight hpayload hqueued hnone (hclaims sub (hlanded hsub))⟩
  obtain ⟨-, hkept⟩ := Rollup.submitAll_idle hR hidle hslot hon
  rw [GameBody.fromBytes_ok.mp (Slot.parse_eq_game.mp hkept), GameBody.fromBytes_ok.mp hg]

end Dispatched

theorem dispatched_turn_lands_opened :
    ∃ g s m l fin p', (Sample.opened.submitAll .plain Sample.policy
        [Sample.joiningAgain]).store Sample.gameId = Sample.opened.store Sample.gameId ∧
      GameBody.fromBytes (Sample.opened.store Sample.gameId) = .ok g ∧
      TicTacToe.seatOf g Sample.aliceId = .ok s ∧ markAndRound g = .ok m ∧
      playTurn Sample.aliceId 4 110 ⟨g, []⟩ = .ok fin p' ∧
      p'.log = .placed s 4 (Rules.markForSeat m.1 m.2 s) :: l := by
  obtain ⟨g, hg, hdispatch⟩ := ok_of_any
    (x := GameBody.fromBytes (Sample.opened.store Sample.gameId))
    (p := fun g => turnDispatchable (gameJson (hexString Sample.gameId.val) g)
      (hexString Sample.aliceId.val) false
      (0 < (inFlightTurns ([Sample.joiningAgain].map fun sub =>
        laneCarrier sub.tx.payload.bytes) (hexString Sample.gameId.val)).length) 4)
    (by decide +kernel)
  have hframed : ∀ sub ∈ [Sample.joiningAgain],
      (sub.access.map Prod.fst).Nodup ∧ sub.Framed := by
    intro sub hsub
    rw [List.mem_singleton.mp hsub]
    exact ⟨by decide, _, rfl, by decide, rfl⟩
  have hclaims : ∀ sub ∈ [Sample.joiningAgain], ∀ g c, .timeout g c ∈ sub.actions .plain →
      (sub.access[g.toNat]?).map Prod.fst ≠ some Sample.gameId := by
    intro sub hsub g c hmem
    rw [List.mem_singleton.mp hsub, Sample.joiningAgain_actions] at hmem
    cases List.mem_singleton.mp hmem
  obtain ⟨hkept, s, m, l, fin, p', hs, hm, hplay, hlog⟩ :=
    dispatched_turn_lands Sample.reachable_opened hframed hclaims (List.Subset.refl _) hg
      hdispatch 110
  exact ⟨g, s, m, l, fin, p', hkept, hg, hs, hm, hplay, hlog⟩

end Web

end TicTacToe
