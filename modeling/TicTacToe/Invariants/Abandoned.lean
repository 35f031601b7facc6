/-
TicTacToe.Invariants.Abandoned — a match that both players left.

A timeout needs no signer: whoever attaches the game, the config and the
two players may claim the round of a seat that let its clock run out.
`claim_accepted` is that such a transaction goes through, and
`abandoned_settles` that claims a full turn apart, one for each round
left, end any match and pay its pot.

No `sorry`, no `axiom`, no `native_decide`.
-/
import TicTacToe.Invariants.Liveness
import TicTacToe.Invariants.Progress
import TicTacToe.Invariants.Verdict

namespace TicTacToe

open Lib
open Function (update)

/-! ## Claims -/

/-- A transaction without signers that claims the round of the game `gid`. -/
structure Submission.Claims (gid cid : ResourceId) (players : Seat → ResourceId)
    (sub : Submission) : Prop where
  instruction : ∃ tail, sub.tx.payload.ixData = encodeIx [.timeout 0 1] tail
  access : sub.access = [(gid, .write), (cid, .read), (players 0, .write), (players 1, .write)]

/-- Each claim comes a full turn after the one before. -/
def Due (turnTtl : UInt64) : UInt64 → List Submission → Prop
  | _, [] => True
  | start, sub :: subs =>
    start.toNat + turnTtl.toNat ≤ sub.context.daaScore.toNat ∧
      Due turnTtl sub.context.daaScore subs

/-- No signer resolves to anything. -/
def AuthContext.unsigned (B : Battery) : AuthContext where
  schnorr := (B.sortUnstable []).val
  multisig := (B.sortUnstable []).val

section Unsigned

variable {B : Battery} {P : DepositPolicy} {presig : List UInt8}

theorem resolveSigners_unsigned {s₀ : RunState} (hnone : s₀.pending = [])
    (hauth : s₀.cx.authCtx = .default) :
    resolveSigners B presig s₀ = .ok () ⟨{ s₀.cx with authCtx := .unsigned B }, []⟩ := by
  obtain ⟨cx, pending⟩ := s₀
  obtain rfl : pending = [] := hnone
  have hpend : resolvePending B [] cx.authCtx (signerContext presig cx) cx.resources
      = .ok ([], .unsigned B) := by
    rw [show cx.authCtx = .default from hauth]
    rfl
  exact ok_bind.mpr ⟨_, _, rfl, ok_bind.mpr ⟨([], .unsigned B), _, by rw [hpend]; rfl, rfl⟩⟩

theorem retrySigners_none {cx : ApplyContext} :
    retrySigners B presig ⟨cx, []⟩ = .ok () ⟨cx, []⟩ :=
  ok_bind.mpr ⟨_, _, rfl, by rw [if_pos rfl]; rfl⟩

/-- One action without signers is the action itself. -/
theorem runSignersAndActions_unsigned {a : ActionBody} {s₀ : RunState} {cx' : ApplyContext}
    (hnone : s₀.pending = []) (hauth : s₀.cx.authCtx = .default)
    (happly : applyAction B P a { s₀.cx with authCtx := .unsigned B } = .ok () cx') :
    runSignersAndActions B P presig [a] s₀ = .ok () ⟨cx', []⟩ := by
  have hact : runAction B P presig a ⟨{ s₀.cx with authCtx := .unsigned B }, []⟩
      = .ok () ⟨cx', []⟩ := by
    refine ok_bind.mpr ⟨(), _, retrySigners_none, ?_⟩
    simp only [zoom, happly]
  exact ok_bind.mpr ⟨(), _, resolveSigners_unsigned hnone hauth, ok_bind.mpr ⟨(), _, ok_bind.mpr ⟨(), _, hact, rfl⟩, rfl⟩⟩

end Unsigned

/-! ## One claim -/

section Claim

variable {B : Battery} {P : DepositPolicy} {R : Rollup} {sub : Submission} {gid cid : ResourceId}
  {g : GameBody} {c : ConfigBody} {players : Seat → ResourceId}

theorem Submission.Claims.decoded (h : sub.Claims gid cid players) :
    R.decoded B sub = .ok ⟨[], [.timeout 0 1], endOfActions [.timeout 0 1]⟩ := by
  obtain ⟨tail, htail⟩ := h.instruction
  have hlen : (R.attach sub).length = 4 := by
    rw [Rollup.attach, List.length_map, h.access]
    rfl
  unfold Rollup.decoded
  rw [hlen]
  refine (decodeIx_ok rfl).mpr ⟨tail, by decide, fun a ha => ?_, htail, rfl⟩
  rw [List.mem_singleton.mp ha]
  exact ⟨by decide, by decide⟩

/-- The context a claim is applied in. -/
def Rollup.claimContext (B : Battery) (R : Rollup) (sub : Submission) : ApplyContext :=
  { (R.startOf sub []).cx with authCtx := .unsigned B }

theorem Submission.Claims.applying (h : sub.Claims gid cid players) :
    R.Applying B P sub [] (.timeout 0 1) (R.claimContext B sub) := by
  have hdec := h.decoded (B := B) (R := R)
  obtain ⟨presig, hpre⟩ := payloadPresig_ok (p := sub.tx.payload)
    (n := endOfActions [.timeout 0 1]) (by
      obtain ⟨tail, htail⟩ := h.instruction
      rw [htail, length_encodeIx]
      exact Nat.le_add_right _ _)
  exact ⟨⟨_, presig, hdec, hpre, List.prefix_rfl, _, _,
    .resolved (resolveSigners_unsigned rfl rfl), retrySigners_none, rfl⟩⟩

theorem Submission.Claims.submit_ok (h : sub.Claims gid cid players) {cx' : ApplyContext}
    (happly : applyAction B P (.timeout 0 1) (R.claimContext B sub) = .ok () cx') :
    (R.submit B P sub).store = R.store.commit cx'.resources ∧
      (R.submit B P sub).events = R.events ++ [⟨sub.tx, .timeout 0 1⟩] := by
  have hdec := h.decoded (B := B) (R := R)
  obtain ⟨presig, hpre⟩ := payloadPresig_ok (p := sub.tx.payload)
    (n := endOfActions [.timeout 0 1]) (by
      obtain ⟨tail, htail⟩ := h.instruction
      rw [htail, length_encodeIx]
      exact Nat.le_add_right _ _)
  have hrun : R.runOn B P sub = .ok cx' := by
    unfold Rollup.runOn
    rw [run_of_decoded hdec hpre]
    have hacts : runSignersAndActions B P presig [.timeout 0 1] (R.startOf sub [])
        = .ok () ⟨cx', []⟩ := runSignersAndActions_unsigned rfl rfl happly
    simp only [Rollup.startOf] at hacts
    simp only [hacts]
  unfold Rollup.submit
  simp only [hdec, hrun]
  refine ⟨trivial, ?_⟩
  simp [Rollup.events]

/-- What is known where the claim is applied. -/
structure Claimable (B : Battery) (P : DepositPolicy) (R : Rollup) (gid cid : ResourceId)
    (g : GameBody) (c : ConfigBody) : Prop where
  reachable : Reachable B P R
  game : R.store.ledger B gid = .game g
  playing : g.state = .playing
  config : R.store.ledger B cid = .config c
  ids : NonzeroIds B (R.store.ledger B).lockHashes
  deposits : deposits B R.events < 2 ^ 64

theorem Claimable.nodup (h : Claimable B P R gid cid g c) (hs : sub.Claims gid cid g.players) :
    (sub.access.map Prod.fst).Nodup := by
  have hrun := h.reachable.refines.1
  have hb := bound_of_run hrun
  have hopen : g.state ≠ .open := by simp [h.playing]
  obtain ⟨log, hlog⟩ := sound_of_run hrun gid g h.game
  obtain ⟨u₀, _, hu₀, -⟩ := hb.game h.game
  obtain ⟨u₁, hu₁⟩ := hb.joiner h.game hopen
  have hcreator : R.store.ledger B (g.players 0) = .user u₀ := hu₀
  have hgc := ne_of_slot h.game h.config (by simp)
  have hg0 := ne_of_slot h.game hcreator (by simp)
  have hg1 := ne_of_slot h.game hu₁ (by simp)
  have hc0 := ne_of_slot h.config hcreator (by simp)
  have hc1 := ne_of_slot h.config hu₁ (by simp)
  have h01 := (hlog.seats_ne hopen).symm
  rw [hs.access]
  simp only [List.map_cons, List.map_nil, List.nodup_cons, List.mem_cons, List.not_mem_nil,
    or_false, not_or, not_false_eq_true, List.nodup_nil, and_true]
  exact ⟨⟨hgc, hg0, hg1⟩, ⟨hc0, hc1⟩, h01⟩

theorem Rollup.claimContext_ledger (B : Battery) (R : Rollup) (sub : Submission) :
    (R.claimContext B sub).ledger B R.store = R.store.ledger B :=
  Rollup.ledger_start []

/-- A claim that is due goes through. -/
theorem Claimable.accepted (h : Claimable B P R gid cid g c) (hs : sub.Claims gid cid g.players)
    (hact : R.events.length < 2 ^ 64)
    (hdue : g.lastMoveAt.toNat + c.turnTtl.toNat ≤ sub.context.daaScore.toNat) :
    ∃ cx', applyAction B P (.timeout 0 1) (R.claimContext B sub) = .ok () cx' := by
  obtain ⟨hinv, hin⟩ := Rollup.Applying.inv h.reachable (h.nodup hs) (hs.applying (P := P))
  have hledger := R.claimContext_ledger B sub
  have hresources : (R.claimContext B sub).resources
      = [⟨gid, .write, R.store gid⟩, ⟨cid, .read, R.store cid⟩,
        ⟨g.players 0, .write, R.store (g.players 0)⟩,
        ⟨g.players 1, .write, R.store (g.players 1)⟩] := by
    show R.attach sub = _
    rw [Rollup.attach, hs.access]
    rfl
  have hq : (R.claimContext B sub).resources[(0 : UInt8).toNat]?
      = some ⟨gid, .write, R.store gid⟩ := by
    rw [hresources]
    rfl
  have hattached : PlayersAttached (R.claimContext B sub) g := by
    intro s
    obtain rfl | rfl := Reference.seat_cases s
    · exact ⟨2, _, by rw [hresources]; rfl, rfl, rfl⟩
    · exact ⟨3, _, by rw [hresources]; rfl, rfl, rfl⟩
  have hgame := Slot.parse_eq_game.mp h.game
  have hconfig := Slot.parse_eq_config.mp h.config
  have hrun : LedgerRun B P R.events ((R.claimContext B sub).ledger B R.store) := by
    rw [hledger]
    exact h.reachable.refines.1
  have hsettle : Settleable B (R.claimContext B sub) g :=
    settleable_of_run hinv.coherent hrun (by rw [hledger]; exact h.ids) h.deposits hact hq hgame
      h.playing hattached
  obtain ⟨log, hlog⟩ := sound_of_run h.reachable.refines.1 gid g h.game
  have hentitled : Entitled B (R.claimContext B sub) 0 g (.timeout 0 1) :=
    .timeout (r := ⟨cid, .read, R.store cid⟩) (by rw [hresources]; rfl) hconfig hdue
  exact accepted_of_ready hinv.coherent hinv.sound hin
    (hentitled.ready hq rfl hgame h.playing hlog hsettle)

theorem replayLog_cons {r : Reference.Match} {e : PlyEvent} {p : Reference.Match.Ply}
    (h : e.toPly = some p) (l : List PlyEvent) :
    replayLog r (e :: l) = (r.play p).bind fun r' => replayLog r' l := by
  unfold replayLog
  rw [List.mapM_cons, h]
  cases l.mapM PlyEvent.toPly with
  | none => cases r.play p <;> rfl
  | some ps => rfl

/-- The round went to the other seat and the clock starts again. -/
structure Forfeited (now : UInt64) (g g' : GameBody) : Prop where
  same : SameMatch g g'
  completed : g.completed < g'.completed
  clock : g'.lastMoveAt = now

theorem GameRun.forfeited {log l : List PlyEvent} {turnTtl now : UInt64} {fin : Bool}
    {g' : GameBody} (h : GameRun g log)
    (hforfeit : forfeitRound turnTtl now ⟨g, []⟩ = .ok fin ⟨g', l⟩) : Forfeited now g g' := by
  obtain ⟨hplaying, -⟩ := forfeitRound_due hforfeit
  obtain ⟨mover, rest, -, hlog, hclock⟩ := forfeitRound_first hforfeit
  obtain ⟨u, hs, hon⟩ := h.playing hplaying
  obtain ⟨u', hs', -, hfollows, -⟩ := hs.timeout hforfeit
  refine ⟨hfollows.same, ?_, hclock⟩
  obtain ⟨l', hl', hreplay⟩ := hfollows.replay
  rw [List.nil_append] at hl' hlog
  rw [← hl', hlog, replayLog_cons (p := .forfeited (mover ^^^ 1)) rfl] at hreplay
  -- the first ply closes a round, and no later one reopens it
  obtain ⟨r₁, hfirst, hrest⟩ := Option.bind_eq_some_iff.mp hreplay
  have hround : r₁.round = u.state.round + 1 := by
    simp only [Reference.Match.play, Reference.Match.forfeit] at hfirst
    split at hfirst
    · cases hfirst
      rfl
    · cases hfirst
  have hv₁ := hs.valid.play hfirst
  have hahead := replayLog_ahead hv₁ hrest
  have h0 := hahead.wins 0
  have h1 := hahead.wins 1
  have hd := hahead.draws
  have hr₁ := hv₁.round_eq
  have hr' := hs'.valid.round_eq
  rw [hs.completed_eq, hs'.completed_eq]
  omega

/-- What each seat holds after a claim: what it held before, with its share of
the pot if the match is over. -/
def Settled (L L' : Ledger) (g : GameBody) (s : Seat) : Prop :=
  ∃ u u', L (g.players s) = .user u ∧ L' (g.players s) = .user u' ∧
    u'.balance.toNat = u.balance.toNat + payout g.state g.stake.toNat s

/-- What a claim that went through did to the ledger. -/
structure Claimed (L L' : Ledger) (gid cid : ResourceId) (now : UInt64) (g g' : GameBody) :
    Prop extends Forfeited now g g' where
  game : L' gid = .game g'
  config : L' cid = L cid
  hashes : L'.lockHashes ⊆ L.lockHashes
  seats : g'.isFinished = true ∧ (∀ s, Settled L L' g' s) ∨
    g'.state = .playing ∧ ∀ s, L' (g.players s) = L (g.players s)

theorem lockHashes_update {L : Ledger} {id : ResourceId} {s : Slot}
    (h : ∀ u, s = .user u → ∃ w, L id = .user w ∧ w.initialLockHash = u.initialLockHash) :
    Ledger.lockHashes (update L id s) ⊆ L.lockHashes := by
  rintro hash ⟨i, u, hu, rfl⟩
  by_cases hi : i = id
  · subst hi
    rw [Function.update_self] at hu
    obtain ⟨w, hw, he⟩ := h u hu
    exact ⟨i, w, hw, he⟩
  · rw [Function.update_of_ne hi] at hu
    exact ⟨i, u, hu, rfl⟩

/-- A claim at the score of `cx`, read off the step it is. -/
theorem LedgerStep.claimed {cx : ApplyContext} {L L' : Ledger} {flow : Flow} {log : List PlyEvent}
    (h : LedgerStep B P cx L (.timeout 0 1) flow L') (hid : cx.idAt 0 = some gid)
    (hg : L gid = .game g) (hrun : GameRun g log) (hc : L cid = .config c)
    (hseats : ∀ s, ∃ u, L (g.players s) = .user u) :
    ∃ g', Claimed L L' gid cid cx.context.daaScore g g' := by
  cases h with
  | @play _ gid' g₀ g' hmove hg₀ hfin =>
    cases hmove with
    | timeout hgi _ _ hforfeit =>
      obtain rfl : gid = gid' := Option.some.inj (hid.symm.trans hgi)
      rw [hg] at hg₀
      cases hg₀
      have hforf := hrun.forfeited hforfeit
      obtain ⟨-, -, hopen⟩ := hrun.timedOut_from hforfeit
      refine ⟨g', hforf, Function.update_self .., ?_, ?_, .inr ⟨?_, fun s => ?_⟩⟩
      · exact Function.update_of_ne (ne_of_slot hc hg (by simp)) ..
      · exact lockHashes_update fun u hu => by cases hu
      · exact GameBody.playing_of_unfinished hopen hfin
      · obtain ⟨u, hu⟩ := hseats s
        exact Function.update_of_ne (ne_of_slot hu hg (by simp)) ..
  | @finish _ gid' g₀ g' _ hmove hg₀ hsettle =>
    cases hmove with
    | timeout hgi _ _ hforfeit =>
      obtain rfl : gid = gid' := Option.some.inj (hid.symm.trans hgi)
      rw [hg] at hg₀
      cases hg₀
      have hforf := hrun.forfeited hforfeit
      obtain ⟨u, hu⟩ := hseats 0
      obtain ⟨w, hw⟩ := hseats 1
      rw [← hforf.same.players] at hu hw
      have h0 := ne_of_slot hu hg (by simp)
      have h1 := ne_of_slot hw hg (by simp)
      have hcg := ne_of_slot hc hg (by simp)
      have hc0 := ne_of_slot hc hu (by simp)
      have hc1 := ne_of_slot hc hw (by simp)
      cases hsettle with
      | @paid u₀ u₀' u₁ u₁' hfin _ hu₀ hpaid₀ hu₁ hpaid₁ =>
        have h01 : g'.players 1 ≠ g'.players 0 := by
          rw [hforf.same.players]
          exact hrun.seats_ne (by simp [hrun.timedOut_from hforfeit |>.1])
        have hu₀' : L (g'.players 0) = .user u₀ := by rwa [Function.update_of_ne h0] at hu₀
        have hu₁' : L (g'.players 1) = .user u₁ := by
          rwa [Function.update_of_ne h01, Function.update_of_ne h1] at hu₁
        refine ⟨g', hforf, ?_, ?_, ?_, .inl ⟨hfin, fun s => ?_⟩⟩
        · rw [Function.update_of_ne h1.symm, Function.update_of_ne h0.symm, Function.update_self]
        · rw [Function.update_of_ne hc1, Function.update_of_ne hc0, Function.update_of_ne hcg]
        · refine (lockHashes_update fun v hv => ?_).trans
            ((lockHashes_update fun v hv => ?_).trans (lockHashes_update fun v hv => by cases hv))
          · cases hv
            exact ⟨u₁, hu₁, hpaid₁.initialLockHash.symm⟩
          · cases hv
            exact ⟨u₀, hu₀, hpaid₀.initialLockHash.symm⟩
        · obtain rfl | rfl := Reference.seat_cases s
          · refine ⟨u₀, u₀', hu₀', ?_, hpaid₀.balance⟩
            rw [Function.update_of_ne h01.symm, Function.update_self]
          · exact ⟨u₁, u₁', hu₁', Function.update_self .., hpaid₁.balance⟩

theorem Submission.Claims.idAt (hs : sub.Claims gid cid players) :
    (R.claimContext B sub).idAt 0 = some gid := by
  show ((R.attach sub)[0]?).map Resource.id = some gid
  rw [Rollup.attach, hs.access]
  rfl

/-- **One claim.** A claim that is due goes through and does what claims do. -/
theorem Claimable.claimed (h : Claimable B P R gid cid g c) (hs : sub.Claims gid cid g.players)
    (hact : R.events.length < 2 ^ 64)
    (hdue : g.lastMoveAt.toNat + c.turnTtl.toNat ≤ sub.context.daaScore.toNat) :
    (R.submit B P sub).events = R.events ++ [⟨sub.tx, .timeout 0 1⟩] ∧
      ∃ g', Claimed (R.store.ledger B) ((R.submit B P sub).store.ledger B) gid cid
        sub.context.daaScore g g' := by
  obtain ⟨cx', happly⟩ := h.accepted hs hact hdue
  obtain ⟨hstore, hevents⟩ := hs.submit_ok happly
  obtain ⟨hinv, hin⟩ := Rollup.Applying.inv h.reachable (h.nodup hs) (hs.applying (P := P))
  have hacc := (wp_applyAction hinv.coherent hinv.sound hin).ok happly
  obtain ⟨flow, hstep, -, -⟩ := hacc.step
  have hledger := hstep R.store
  rw [R.claimContext_ledger] at hledger
  have hrun := h.reachable.refines.1
  obtain ⟨log, hlog⟩ := sound_of_run hrun gid g h.game
  have hseats : ∀ s, ∃ u, R.store.ledger B (g.players s) = .user u := by
    intro s
    have hb := bound_of_run hrun
    obtain rfl | rfl := Reference.seat_cases s
    · obtain ⟨u, _, hu, -⟩ := hb.game h.game
      exact ⟨u, hu⟩
    · exact hb.joiner h.game (by simp [h.playing])
  rw [hstore]
  exact ⟨hevents, hledger.claimed hs.idAt h.game hlog h.config hseats⟩

/-- A game that was moved was on. -/
theorem GameMove.playing_of {cx : ApplyContext} {L : Ledger} {gid' : ResourceId} {g₀ g' : GameBody}
    {log : List PlyEvent} (h : GameMove B cx L (.timeout 0 1) gid' g₀ g')
    (hid : cx.idAt 0 = some gid) (hg : L gid = .game g) (hg₀ : L gid' = .game g₀)
    (hrun : GameRun g log) : g.state = .playing := by
  cases h with
  | timeout hgi _ _ hforfeit =>
    obtain rfl : gid = gid' := Option.some.inj (hid.symm.trans hgi)
    rw [hg] at hg₀
    cases hg₀
    exact (hrun.timedOut_from hforfeit).1

/-- Claims on a match that is over change nothing. -/
theorem Submission.Claims.refused (hR : Reachable B P R) (hs : sub.Claims gid cid players)
    (hn : (sub.access.map Prod.fst).Nodup) (hg : R.store.ledger B gid = .game g)
    (hidle : g.state ≠ .playing) : R.submit B P sub = R := by
  have hdec := hs.decoded (B := B) (R := R)
  cases hrun : R.runOn B P sub with
  | error e =>
    unfold Rollup.submit
    simp only [hdec, hrun]
  | ok cx' =>
    exfalso
    obtain ⟨ix, presig, s, hix, -, hto, -, -⟩ := Rollup.runOn_runsTo hrun
    rw [hdec] at hix
    cases hix
    have hlast : RunsTo B P presig _ ([] ++ [.timeout 0 1]) s := hto
    obtain ⟨s₁, hto₁, hact⟩ := hlast.last
    have hfirst := hto₁.first
    rw [resolveSigners_unsigned rfl rfl] at hfirst
    cases hfirst
    obtain ⟨s₂, hretry, happly, -⟩ := ok_runAction hact
    rw [retrySigners_none] at hretry
    cases hretry
    obtain ⟨hinv, hin⟩ := Rollup.Applying.inv hR hn (hs.applying (P := P))
    have hacc := (wp_applyAction hinv.coherent hinv.sound hin).ok happly
    obtain ⟨flow, hstep, -, -⟩ := hacc.step
    have hledger := hstep R.store
    rw [R.claimContext_ledger] at hledger
    obtain ⟨log, hlog⟩ := sound_of_run hR.refines.1 gid g hg
    have hid := hs.idAt (B := B) (R := R)
    generalize s.cx.ledger B R.store = L' at hledger
    cases hledger with
    | play hmove hg₀ _ =>
      exact hidle (hmove.playing_of hid hg hg₀ hlog)
    | finish hmove hg₀ _ =>
      exact hidle (hmove.playing_of hid hg hg₀ hlog)

end Claim

/-! ## Claiming to the end -/

section Sweep

variable {B : Battery} {P : DepositPolicy} {R : Rollup} {subs : List Submission}
  {gid cid : ResourceId} {g : GameBody} {c : ConfigBody}

theorem Claimable.next (h : Claimable B P R gid cid g c) {sub : Submission} {g' : GameBody}
    {now : UInt64} (hn : (sub.access.map Prod.fst).Nodup)
    (hevents : (R.submit B P sub).events = R.events ++ [⟨sub.tx, .timeout 0 1⟩])
    (hcl : Claimed (R.store.ledger B) ((R.submit B P sub).store.ledger B) gid cid now g g')
    (hon : g'.state = .playing) : Claimable B P (R.submit B P sub) gid cid g' c where
  reachable := h.reachable.submit hn
  game := hcl.game
  playing := hon
  config := hcl.config.trans h.config
  ids _ hmem := h.ids _ (hcl.hashes hmem)
  deposits := by
    rw [hevents, deposits_append]
    exact h.deposits

/-- Claims up to the end of the match are accepted, those behind it change
nothing. -/
structure Sweeps (B : Battery) (P : DepositPolicy) (R : Rollup) (claimed late : List Submission) :
    Prop where
  accepted : (R.submitAll B P claimed).events
    = R.events ++ claimed.map fun sub => ⟨sub.tx, .timeout 0 1⟩
  refused : ∀ sub ∈ late, (R.submitAll B P claimed).submit B P sub = R.submitAll B P claimed

theorem Sweeps.submitAll {claimed late : List Submission} (h : Sweeps B P R claimed late) :
    R.submitAll B P (claimed ++ late) = R.submitAll B P claimed := by
  obtain ⟨-, hlate⟩ := h
  have happend : R.submitAll B P (claimed ++ late)
      = (R.submitAll B P claimed).submitAll B P late := List.foldl_append
  rw [happend]
  induction late with
  | nil => rfl
  | cons sub late ih =>
    show ((R.submitAll B P claimed).submit B P sub).submitAll B P late = _
    rw [hlate sub List.mem_cons_self]
    exact ih (fun s hs => hlate s (List.mem_cons_of_mem _ hs)) List.foldl_append

/-- Claims, a turn apart and one for each round left, end the match. -/
theorem Claimable.sweep (h : Claimable B P R gid cid g c)
    (hact : R.events.length + subs.length < 2 ^ 64)
    (hs : ∀ sub ∈ subs, sub.Claims gid cid g.players) (hdue : Due c.turnTtl g.lastMoveAt subs)
    (hlen : g.roundsTotal.toNat ≤ g.completed + subs.length) :
    ∃ claimed late, subs = claimed ++ late ∧ Sweeps B P R claimed late ∧
      ∃ g', (R.submitAll B P claimed).store.ledger B gid = .game g' ∧ g'.isFinished = true ∧
        SameMatch g g' ∧
        ∀ s, Settled (R.store.ledger B) ((R.submitAll B P claimed).store.ledger B) g' s := by
  induction subs generalizing R g with
  | nil =>
    obtain ⟨log, hlog⟩ := sound_of_run h.reachable.refines.1 gid g h.game
    have hleft := hlog.validQueues.2 h.playing
    exact absurd hlen (Nat.not_le.mpr hleft)
  | cons sub subs ih =>
    obtain ⟨hnow, hrest⟩ := hdue
    have hsub := hs sub List.mem_cons_self
    rw [List.length_cons] at hact hlen
    obtain ⟨hevents, g₁, hcl⟩ := h.claimed hsub (by omega) hnow
    have hn := h.nodup hsub
    have hlater : ∀ s ∈ subs, s.Claims gid cid g₁.players := by
      intro s hm
      rw [hcl.same.players]
      exact hs s (List.mem_cons_of_mem _ hm)
    obtain ⟨hfin, hsettled⟩ | ⟨hon, hkept⟩ := hcl.seats
    · -- the match is over, and the claims left are refused
      have hidle : g₁.state ≠ .playing := by
        intro e
        rw [GameBody.not_finished_of_playing e] at hfin
        cases hfin
      refine ⟨[sub], subs, rfl, ⟨hevents, fun s hm => ?_⟩, g₁, hcl.game, hfin, hcl.same, hsettled⟩
      refine (hlater s hm).refused (h.reachable.submit hn) ?_ hcl.game hidle
      rw [(hs s (List.mem_cons_of_mem _ hm)).access, ← hsub.access]
      exact hn
    · have hcompleted := hcl.completed
      obtain ⟨claimed, late, rfl, hsweeps, g', hg', hfin, hsame, hsettled⟩ :=
        ih (h.next hn hevents hcl hon)
          (by rw [hevents, List.length_append, List.length_singleton]; omega) hlater
          (by rw [hcl.clock]; exact hrest) (by rw [hcl.same.roundsTotal]; omega)
      refine ⟨sub :: claimed, late, rfl, ⟨?_, hsweeps.refused⟩, g', hg', hfin, hcl.same.trans hsame,
        fun s => ?_⟩
      · show ((R.submit B P sub).submitAll B P claimed).events = _
        rw [hsweeps.accepted, hevents, List.append_assoc]
        rfl
      · obtain ⟨u, u', hu, hu', hbalance⟩ := hsettled s
        refine ⟨u, u', ?_, hu', hbalance⟩
        rw [← hu, hsame.players, hcl.same.players, hkept s]

/-- **No match is held up by its players.** Any playing match of a reachable
rollup ends, and its pot is paid, by claims that nobody has to sign: one
for each round left, each a full turn after the one before, with nothing
else in between. The claims up to the end are accepted; those behind it are
refused and change nothing. -/
theorem abandoned_settles (hR : Reachable B P R) (hg : GameBody.fromBytes (R.store gid) = .ok g)
    (hplaying : g.state = .playing) (hconfig : ConfigBody.fromBytes B (R.store cid) = .ok c)
    (H : NonzeroIds B (R.store.lockHashes B)) (hdep : deposits B R.events < 2 ^ 64)
    (hact : R.events.length + subs.length < 2 ^ 64)
    (hs : ∀ sub ∈ subs, sub.Claims gid cid g.players) (hdue : Due c.turnTtl g.lastMoveAt subs)
    (hlen : g.roundsTotal.toNat ≤ g.completed + subs.length) :
    (∃ claimed late, subs = claimed ++ late ∧ Sweeps B P R claimed late ∧
      R.submitAll B P subs = R.submitAll B P claimed) ∧
    ∃ g', GameBody.fromBytes ((R.submitAll B P subs).store gid) = .ok g' ∧
      g'.isFinished = true ∧ SameMatch g g' ∧ ∀ s, ∃ u u',
        UserBody.fromBytes B (R.store (g.players s)) = .ok u ∧
        UserBody.fromBytes B ((R.submitAll B P subs).store (g.players s)) = .ok u' ∧
        u'.balance.toNat = u.balance.toNat + payout g'.state g.stake.toNat s := by
  have h : Claimable B P R gid cid g c :=
    ⟨hR, Slot.parse_eq_game.mpr hg, hplaying, Slot.parse_eq_config.mpr hconfig,
      by rw [Store.ledger_lockHashes]; exact H, hdep⟩
  obtain ⟨claimed, late, rfl, hsweeps, g', hg', hfin, hsame, hsettled⟩ := h.sweep hact hs hdue hlen
  refine ⟨⟨claimed, late, rfl, hsweeps, hsweeps.submitAll⟩, g', ?_, hfin, hsame, fun s => ?_⟩
  · rw [hsweeps.submitAll]
    exact Slot.parse_eq_game.mp hg'
  · obtain ⟨u, u', hu, hu', hbalance⟩ := hsettled s
    rw [hsame.players] at hu hu'
    rw [hsame.stake] at hbalance
    rw [hsweeps.submitAll]
    exact ⟨u, u', Slot.parse_eq_user.mp hu, Slot.parse_eq_user.mp hu', hbalance⟩

end Sweep

namespace Sample

/-- Anyone's claim of the game. -/
def abandoning (daaScore : UInt64) : Submission where
  tx := { payload := { accessPrefix := [], ixData := encodeIx [.timeout 0 1] [] },
          restPreimage := [] }
  context := { daaScore }
  access := [(gameId, .write), (configId, .read), (aliceId, .write), (bobId, .write)]
  exits := []
  deposit := none

/-- A claim for each of five rounds, a turn apart. -/
def sweeping : List Submission := [110, 120, 130, 140, 150].map abandoning

def balanceOf (st : Store) (id : ResourceId) : Option Nat :=
  (UserBody.fromBytes .plain (st id)).toOption.map fun u => u.balance.toNat

end Sample

/-- The second player is never there: the first wins three of the five rounds
and with them the pot, and the last two claims come too late. -/
theorem abandoned_settles_queued :
    ∃ claimed late, Sample.sweeping = claimed ++ late ∧
      Sweeps .plain Sample.policy Sample.queued claimed late ∧ claimed.length = 3 ∧
      late.length = 2 ∧
      ∃ g', GameBody.fromBytes ((Sample.queued.submitAll .plain Sample.policy
          Sample.sweeping).store Sample.gameId) = .ok g' ∧ g'.isFinished = true ∧
        Sample.balanceOf Sample.queued.store Sample.aliceId = some 19500 ∧
        Sample.balanceOf (Sample.queued.submitAll .plain Sample.policy Sample.sweeping).store
          Sample.aliceId = some 20500 := by
  obtain ⟨g, hg, hcheck⟩ := ok_of_any
    (x := GameBody.fromBytes (Sample.queued.store Sample.gameId))
    (p := fun g => g.state = .playing ∧ g.players 0 = Sample.aliceId ∧
      g.players 1 = Sample.bobId ∧ g.lastMoveAt = 100 ∧ g.roundsTotal = 5) (by decide +kernel)
  obtain ⟨hon, hfirst, hsecond, hclock, hrounds⟩ := of_decide_eq_true hcheck
  obtain ⟨c, hc, httl⟩ := ok_of_any
    (x := ConfigBody.fromBytes .plain (Sample.queued.store Sample.configId))
    (p := fun c => c.turnTtl = 10) (by decide +kernel)
  have hclaims : ∀ sub ∈ Sample.sweeping,
      sub.Claims Sample.gameId Sample.configId g.players := by
    intro sub hsub
    obtain ⟨score, -, rfl⟩ := List.mem_map.mp hsub
    exact ⟨⟨[], rfl⟩, by rw [hfirst, hsecond]; rfl⟩
  have hdue : Due c.turnTtl g.lastMoveAt Sample.sweeping := by
    rw [hclock, of_decide_eq_true httl]
    exact ⟨by decide, by decide, by decide, by decide, by decide, trivial⟩
  have hlen : g.roundsTotal.toNat ≤ g.completed + Sample.sweeping.length := by
    rw [hrounds]
    exact Nat.le_add_left 5 _
  obtain ⟨⟨claimed, late, hsplit, hsweeps, hsame⟩, g', hg', hfin, -, -⟩ :=
    abandoned_settles (P := Sample.policy) Sample.reachable_queued hg hon hc plain_nonzeroIds
      (by decide +kernel) (by decide +kernel) hclaims hdue hlen
  -- three more events, so three claims
  have hthree : (Sample.queued.submitAll .plain Sample.policy Sample.sweeping).events.length
      = Sample.queued.events.length + 3 := by decide +kernel
  rw [hsame, hsweeps.accepted, List.length_append, List.length_map] at hthree
  have hfive : claimed.length + late.length = 5 := by
    rw [← List.length_append, ← hsplit]
    rfl
  exact ⟨claimed, late, hsplit, hsweeps, by omega, by omega, g', hg', hfin, by decide +kernel,
    by decide +kernel⟩

end TicTacToe
