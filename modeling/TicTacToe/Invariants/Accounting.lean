/-
TicTacToe.Invariants.Accounting — every accepted turn is accounted for
exactly once and in order.

`TurnRun` is a run on one game that also lists the turns it accepted, each
as the mover's seat and cell. `turns_accounted` finds the run a timeline:
the plies of the timeline are those logged, its turns those accepted, and
what a seat turned in is what was read of it, what its ring still holds
and what it lost when the match ended, in this order.

No `sorry`, no `axiom`, no `native_decide`.
-/
import TicTacToe.Invariants.Clock
import TicTacToe.Invariants.Reorder

namespace TicTacToe

open Lib
open Lib.Consumer (onStream)
open Function (update)
open Reference (Mark)

/-- A run on one game, with its log and the turns it accepted. -/
inductive TurnRun : GameBody → List PlyEvent → List (Seat × UInt8) → Prop
  | created (creator : ResourceId) {mark : Cell} (stake : UInt64) {rounds : UInt8} :
      mark ≠ .empty → rounds ≠ 0 → TurnRun (GameBody.fresh creator mark stake rounds) [] []
  | joined {g : GameBody} {log : List PlyEvent} {turns : List (Seat × UInt8)}
      {joiner : ResourceId} (now : UInt64) :
      TurnRun g log turns → g.state = .open → joiner ≠ g.creator →
      TurnRun (g.seatJoiner joiner now) log turns
  | turned {g g' : GameBody} {log l : List PlyEvent} {turns : List (Seat × UInt8)}
      {mover : ResourceId} {seat : Seat} {cell : UInt8} {now : UInt64} {fin : Bool} :
      TurnRun g log turns → seatOf g mover = .ok seat →
      playTurn mover cell now ⟨g, []⟩ = .ok fin ⟨g', l⟩ →
      TurnRun g' (log ++ l) (turns ++ [(seat, cell)])
  | timedOut {g g' : GameBody} {log l : List PlyEvent} {turns : List (Seat × UInt8)}
      {turnTtl now : UInt64} {fin : Bool} :
      TurnRun g log turns → forfeitRound turnTtl now ⟨g, []⟩ = .ok fin ⟨g', l⟩ →
      TurnRun g' (log ++ l) turns

theorem TurnRun.gameRun {g : GameBody} {log : List PlyEvent} {turns : List (Seat × UInt8)}
    (h : TurnRun g log turns) : GameRun g log := by
  induction h with
  | created creator stake hmark hrounds => exact .created creator stake hmark hrounds
  | joined now _ hopen hne ih => exact .joined now ih hopen hne
  | turned _ _ hrun ih => exact .turned ih hrun
  | timedOut _ hrun ih => exact .timedOut ih hrun

/-- Only a player of the game makes a turn on it. -/
theorem GameRun.turned_seat {g g' : GameBody} {log l : List PlyEvent} (h : GameRun g log)
    {mover : ResourceId} {cell : UInt8} {now : UInt64} {fin : Bool}
    (hrun : playTurn mover cell now ⟨g, []⟩ = .ok fin ⟨g', l⟩) :
    ∃ seat, seatOf g mover = .ok seat := by
  obtain ⟨u, hs, -⟩ := h.playing (playTurn_playing hrun)
  obtain ⟨seat, _, hseat, -⟩ := hs.turn hrun
  exact ⟨seat, hseat⟩

/-- Every run on one game accepted some turns. -/
theorem GameRun.turnRun {g : GameBody} {log : List PlyEvent} (h : GameRun g log) :
    ∃ turns, TurnRun g log turns := by
  induction h with
  | created creator stake hmark hrounds => exact ⟨_, .created creator stake hmark hrounds⟩
  | joined now _ hopen hne ih =>
    obtain ⟨turns, ht⟩ := ih
    exact ⟨turns, .joined now ht hopen hne⟩
  | timedOut _ hrun ih =>
    obtain ⟨turns, ht⟩ := ih
    exact ⟨turns, .timedOut ht hrun⟩
  | @turned g g' log l mover cell now fin hprev hrun ih =>
    obtain ⟨turns, ht⟩ := ih
    obtain ⟨seat, hseat⟩ := hprev.turned_seat hrun
    exact ⟨turns ++ [(seat, cell)], .turned ht hseat hrun⟩

/-- Turns played in a row are the turns of the run. -/
theorem TurnRun.playTurns {l : List Arrival} {g g' : GameBody} {log : List PlyEvent}
    {turns : List (Seat × UInt8)} (h : TurnRun g log turns)
    (hrun : TicTacToe.playTurns l g = some g') :
    ∃ log', TurnRun g' log' (turns ++ l.map fun t => (t.seat, t.cell)) := by
  induction l generalizing g log turns with
  | nil =>
    cases hrun
    exact ⟨log, by simpa using h⟩
  | cons t rest ih =>
    obtain ⟨fin, p, hturn, hrest⟩ := playTurns_cons hrun
    obtain ⟨u, hs, -⟩ := h.gameRun.playing (playTurn_playing hturn)
    obtain ⟨seat, _, hseat, -⟩ := hs.turn hturn
    obtain rfl := hs.seat_eq hseat
    obtain ⟨log', hmore⟩ := ih (h.turned hseat hturn) hrest
    exact ⟨log', by simpa using hmore⟩

/-! ## The turns of the ledger's games -/

/-- The turn that an action accepted over `L` played on the game `id`. -/
def ActionBody.turnOn (cx : ApplyContext) (L : Ledger) (id : ResourceId) :
    ActionBody → List (Seat × UInt8)
  | .turn gi ui cell =>
    match L id, cx.idAt ui with
    | .game g, some mover =>
      match seatOf g mover with
      | .ok seat => if cx.idAt gi = some id then [(seat, cell)] else []
      | .error _ => []
    | _, _ => []
  | _ => []

/-- Runs of the ledger machine, with the turns each game accepted. -/
inductive PlayedRun (B : Battery) (P : DepositPolicy) :
    (ResourceId → List (Seat × UInt8)) → Ledger → Prop
  | genesis : PlayedRun B P (fun _ => []) fun _ => .empty
  | step {turns : ResourceId → List (Seat × UInt8)} {L L' : Ledger} {cx : ApplyContext}
      {a : ActionBody} {flow : Flow} :
      PlayedRun B P turns L → LedgerStep B P cx L a flow L' →
      PlayedRun B P (fun id => turns id ++ a.turnOn cx L id) L'

/-- A game is a run over its turns, and nothing else has any. -/
structure Played (s : Slot) (turns : List (Seat × UInt8)) : Prop where
  game : ∀ g, s = .game g → ∃ log, TurnRun g log turns
  other : (∀ g, s ≠ .game g) → turns = []

section Ledger

variable {B : Battery} {P : DepositPolicy} {cx : ApplyContext} {L L' : Ledger} {a : ActionBody}
  {flow : Flow} {turns : ResourceId → List (Seat × UInt8)}

theorem Played.ofTurnRun {g : GameBody} {log : List PlyEvent} {ts : List (Seat × UInt8)}
    (h : TurnRun g log ts) : Played (.game g) ts where
  game := fun g' e => by
    cases e
    exact ⟨log, h⟩
  other := fun hno => absurd rfl (hno g)

/-- Writing over what is no game, with what is none or just created. -/
theorem played_write (h : ∀ id, Played (L id) (turns id)) {i : ResourceId}
    (hi : ∀ g, L i ≠ .game g) {s : Slot} (hs : ∀ g, s = .game g → TurnRun g [] [])
    (id : ResourceId) : Played (update L i s id) (turns id) := by
  by_cases he : id = i
  · subst he
    rw [Function.update_self, (h id).other hi]
    exact ⟨fun g hg => ⟨[], hs g hg⟩, fun _ => rfl⟩
  · rw [Function.update_of_ne he]
    exact h id

/-- A move of one game, by the turns it has then. -/
theorem played_move (turns' : ResourceId → List (Seat × UInt8))
    (h : ∀ id, Played (L id) (turns id)) {gid : ResourceId} {g' : GameBody} {log : List PlyEvent}
    (hrun : TurnRun g' log (turns' gid)) (hother : ∀ id, id ≠ gid → turns' id = turns id)
    (id : ResourceId) : Played (update L gid (.game g') id) (turns' id) := by
  by_cases he : id = gid
  · subst he
    rw [Function.update_self]
    exact .ofTurnRun hrun
  · rw [Function.update_of_ne he, hother id he]
    exact h id

theorem GameMove.turnOn_ne {gid id : ResourceId} {g g' : GameBody}
    (h : GameMove B cx L a gid g g') (hne : id ≠ gid) : a.turnOn cx L id = [] := by
  cases h with
  | @turn gi ui cell _ mover _ _ _ _ _ hgi =>
    have hoff : cx.idAt gi ≠ some id := fun e => hne (Option.some.inj (e.symm.trans hgi))
    simp only [ActionBody.turnOn, hoff, if_false]
    repeat' split
    all_goals rfl
  | timeout => rfl

/-- A move plays the turn of its action. -/
theorem GameMove.turnRun {gid : ResourceId} {g g' : GameBody} {log : List PlyEvent}
    {ts : List (Seat × UInt8)} (h : GameMove B cx L a gid g g') (hg : L gid = .game g)
    (hrun : TurnRun g log ts) : ∃ log', TurnRun g' log' (ts ++ a.turnOn cx L gid) := by
  cases h with
  | @turn gi ui cell _ mover _ _ _ _ l hgi hui _ _ hplay =>
    obtain ⟨seat, hseat⟩ := hrun.gameRun.turned_seat hplay
    have hturn : ActionBody.turnOn cx L gid (.turn gi ui cell) = [(seat, cell)] := by
      simp only [ActionBody.turnOn, hg, hui, hseat, hgi, if_true]
    rw [hturn]
    exact ⟨log ++ l, hrun.turned hseat hplay⟩
  | @timeout _ _ _ _ _ _ _ _ l _ _ _ hforfeit =>
    have hclaim := hrun.timedOut hforfeit
    exact ⟨log ++ l, by simpa [ActionBody.turnOn] using hclaim⟩

/-- Every action extends the turns of the games by those it plays. -/
theorem LedgerStep.plays (h : LedgerStep B P cx L a flow L')
    (hp : ∀ id, Played (L id) (turns id)) (id : ResourceId) :
    Played (L' id) (turns id ++ a.turnOn cx L id) := by
  cases h with
  | update _ hslot | init _ hslot | rotate _ hslot | depositCredit _ _ _ _ _ _ _ _ hslot
  | withdraw _ _ _ _ hslot | depositCreate _ _ _ _ _ _ _ _ hslot =>
    show Played _ (turns id ++ [])
    rw [List.append_nil]
    exact played_write hp (fun g => by rw [hslot]; simp) (by simp) id
  | transfer _ _ hne hu _ _ hdst | transferCreate _ _ hne hu _ _ hdst =>
    show Played _ (turns id ++ [])
    rw [List.append_nil]
    refine played_write (played_write hp (fun g => by rw [hu]; simp) (by simp)) ?_ (by simp) id
    rw [Function.update_of_ne hne.symm, hdst]
    simp
  | @createGame _ _ stake rounds mark cid gid _ _ _ _ hu _ _ _ _ he _ hrounds hmark =>
    show Played _ (turns id ++ [])
    rw [List.append_nil]
    refine played_write (played_write hp (fun g => by rw [hu]; simp) (by simp)) ?_ ?_ id
    · by_cases heq : gid = cid
      · rw [heq, Function.update_self]
        simp
      · rw [Function.update_of_ne heq, he]
        simp
    · intro g hg
      cases hg
      exact .created cid stake hmark hrounds
  | @joinGame _ _ jid gid u g b _ hu _ _ hg hopen hne _ =>
    obtain ⟨log, hrun⟩ := (hp gid).game g hg
    show Played _ (turns id ++ [])
    rw [List.append_nil]
    have hp' := played_write hp (fun g => by rw [hu]; simp) (s := .user { u with balance := b })
      (by simp)
    exact played_move turns hp' (hrun.joined cx.context.daaScore hopen hne) (fun _ _ => rfl) id
  | @play _ gid g g' hmove hg _ =>
    obtain ⟨log, hrun⟩ := (hp gid).game g hg
    obtain ⟨log', hrun'⟩ := hmove.turnRun hg hrun
    have hother : ∀ id, id ≠ gid → turns id ++ a.turnOn cx L id = turns id := fun id hne => by
      rw [hmove.turnOn_ne hne, List.append_nil]
    exact played_move (fun id => turns id ++ a.turnOn cx L id) hp hrun' hother id
  | @finish _ gid g g' _ hmove hg hsettle =>
    obtain ⟨log, hrun⟩ := (hp gid).game g hg
    obtain ⟨log', hrun'⟩ := hmove.turnRun hg hrun
    have hother : ∀ id, id ≠ gid → turns id ++ a.turnOn cx L id = turns id := fun id hne => by
      rw [hmove.turnOn_ne hne, List.append_nil]
    have hp' := played_move (fun id => turns id ++ a.turnOn cx L id) hp hrun' hother
    cases hsettle with
    | paid _ _ hu₀ _ hu₁ _ =>
      exact played_write (played_write hp' (fun g => by rw [hu₀]; simp) (by simp))
        (fun g => by rw [hu₁]; simp) (by simp) id

/-- In a run of the ledger the turns accepted on a game are those of a run on
that game. -/
theorem PlayedRun.turnRun (h : PlayedRun B P turns L) {id : ResourceId} {g : GameBody}
    (hg : L id = .game g) : ∃ log, TurnRun g log (turns id) := by
  have hall : ∀ id, Played (L id) (turns id) := by
    clear hg
    induction h with
    | genesis => exact fun _ => ⟨fun _ e => (by cases e), fun _ => rfl⟩
    | step _ hstep ih => exact hstep.plays ih
  exact (hall id).game g hg

/-- Every run of the ledger is one. -/
theorem LedgerRun.played {h : List Event} (hrun : LedgerRun B P h L) :
    ∃ turns, PlayedRun B P turns L := by
  induction hrun with
  | genesis => exact ⟨_, .genesis⟩
  | step _ hstep ih =>
    obtain ⟨turns, hprev⟩ := ih
    exact ⟨_, hprev.step hstep⟩

end Ledger

/-! ## The account of a seat -/

/-- How the turns of seat `s` are accounted for: the cells read, placed or
dropped, then those in its ring, then those `discarded`. -/
structure Accounted (g : GameBody) (log : List PlyEvent) (turns : List (Seat × UInt8))
    (es : List Entry) (s : Seat) (discarded : List UInt8) : Prop where
  split : onStream s turns
    = (fatesOf s es).map Prod.fst ++ (g.pending s).toList ++ discarded
  marks : marksOf s log = placedIn (fatesOf s es)
  kept : g.isFinished = false → discarded = []
  cleared : g.isFinished = true → (g.pending s).toList = []

/-- The match about to start, nothing committed. -/
def Committed.start (mark : Mark) (rounds : UInt8) : Committed :=
  ⟨Reference.Match.start mark rounds.toNat, fun _ => []⟩

/-- The timeline of a run that got to the body `g`. -/
structure Chronicle (g : GameBody) (log : List PlyEvent) (turns : List (Seat × UInt8))
    (mark : Mark) (es : List Entry) (u : Committed) : Prop where
  creatorMark : g.creatorMark = mark.toCell
  timeline : Timeline (.start mark g.roundsTotal) es u
  turns_eq : es.filterMap Entry.turn = turns
  plies_eq : es.filterMap Entry.ply = log

section Steps

variable {g g' : GameBody} {log l : List PlyEvent} {turns : List (Seat × UInt8)} {mark : Mark}
  {es : List Entry} {u u' : Committed}

/-- What is told of the next action continues the timeline. -/
theorem Chronicle.append (h : Chronicle g log turns mark es u) (hsame : SameMatch g g')
    {u₁ : Committed} {arrived : List Entry} (ha : Timeline u arrived u₁)
    (hquiet : arrived.filterMap Entry.ply = []) (ht : Told [] l u₁ u') :
    ∃ es', Chronicle g' (log ++ l) (turns ++ arrived.filterMap Entry.turn) mark es' u' := by
  obtain ⟨more, hmore, hturns, hplies⟩ := ht
  refine ⟨es ++ (arrived ++ more), hsame.creatorMark.trans h.creatorMark, ?_, ?_, ?_⟩
  · rw [hsame.roundsTotal]
    exact h.timeline.trans (ha.trans hmore)
  · simp [h.turns_eq, hturns]
  · simp [h.plies_eq, hquiet, hplies]

/-- An accepted turn arrives on its seat's queue, and is read from there. -/
theorem Chronicle.turned (h : Chronicle g log turns mark es u) (hs : Started g u)
    {mover : ResourceId} {seat : Seat} {cell : UInt8} {now : UInt64} {fin : Bool}
    (hseat : seatOf g mover = .ok seat) (hrun : playTurn mover cell now ⟨g, []⟩ = .ok fin ⟨g', l⟩) :
    ∃ es' u', Chronicle g' (log ++ l) (turns ++ [(seat, cell)]) mark es' u' ∧ Started g' u' := by
  have hon := hs.playing_iff.mp (playTurn_playing hrun)
  obtain ⟨seat', u', hseat', hs', -, hread⟩ := hs.turn hrun
  obtain rfl : seat = seat' := Except.ok.inj (hseat.symm.trans hseat')
  obtain ⟨es', hes'⟩ := h.append hread.same (.single (.accepted seat cell hon)) rfl hread.told
  exact ⟨es', u', hes', hs'⟩

/-- A claimed timeout accepts no turn. -/
theorem Chronicle.timedOut (h : Chronicle g log turns mark es u) (hs : Started g u)
    {turnTtl now : UInt64} {fin : Bool}
    (hrun : forfeitRound turnTtl now ⟨g, []⟩ = .ok fin ⟨g', l⟩) :
    ∃ es' u', Chronicle g' (log ++ l) turns mark es' u' ∧ Started g' u' := by
  obtain ⟨u', hs', -, hf, htold⟩ := hs.timeout hrun
  obtain ⟨es', hes'⟩ := h.append hf.same (.nil u) rfl htold
  refine ⟨es', u', ?_, hs'⟩
  simpa using hes'

/-- While the match is on, what is unread is in the rings; after it, the rings
are empty. -/
theorem Chronicle.accounted (h : Chronicle g log turns mark es u) (hs : Started g u) (s : Seat) :
    ∃ discarded, Accounted g log turns es s discarded := by
  have hlaw := h.timeline.conserved s
  rw [h.turns_eq] at hlaw
  have hmarks : marksOf s log = placedIn (fatesOf s es) := by
    rw [← h.plies_eq]
    exact marksOf_plies s es
  by_cases hon : u.state.result = none
  · have hplaying := hs.playing_iff.mpr hon
    refine ⟨[], ?_, hmarks, fun _ => rfl, fun hfin => ?_⟩
    · rw [(hs.rings hon s).2, List.append_nil]
      exact hlaw
    · rw [GameBody.not_finished_of_playing hplaying] at hfin
      cases hfin
  · have hcleared : (g.pending s).toList = [] := by
      rw [hs.cleared hon]
      rfl
    refine ⟨u.queue s, ?_, hmarks, fun hfin => ?_, fun _ => hcleared⟩
    · rw [hcleared, List.append_nil]
      exact hlaw
    · exact absurd (GameBody.playing_of_unfinished hs.state_ne_open hfin)
        fun e => hon (hs.playing_iff.mp e)

/-- Nothing has been accepted before the match starts. -/
theorem Unjoined.chronicle (h : Unjoined g mark) :
    Chronicle g [] [] mark [] (.start mark g.roundsTotal) where
  creatorMark := by
    rw [h.eq_fresh]
    rfl
  timeline := .nil _
  turns_eq := rfl
  plies_eq := rfl

theorem Unjoined.accounted (h : Unjoined g mark) (s : Seat) : Accounted g [] [] [] s [] where
  split := by
    rw [h.eq_fresh]
    rfl
  marks := rfl
  kept := fun _ => rfl
  cleared := fun hfin => by
    rw [GameBody.not_finished_of_open h.state] at hfin
    cases hfin

end Steps

/-- Where a run stands: not joined, or started at the end of its timeline. -/
inductive Standing (g : GameBody) (log : List PlyEvent) (turns : List (Seat × UInt8)) : Prop
  | unjoined (mark : Mark) : Unjoined g mark → log = [] → turns = [] → Standing g log turns
  | started (mark : Mark) (es : List Entry) (u : Committed) :
      Chronicle g log turns mark es u → Started g u → Standing g log turns

theorem TurnRun.standing {g : GameBody} {log : List PlyEvent} {turns : List (Seat × UInt8)}
    (h : TurnRun g log turns) : Standing g log turns := by
  induction h with
  | created creator stake hmark hrounds =>
    obtain ⟨m, rfl⟩ := Mark.exists_toCell hmark
    exact .unjoined m ⟨hrounds, rfl⟩ rfl rfl
  | joined now _ hopen hne ih =>
    cases ih with
    | unjoined mark hu hlog hturns =>
      subst hlog hturns
      refine .started mark [] _ ⟨?_, .nil _, rfl, rfl⟩ (hu.join now hne)
      exact hu.chronicle.creatorMark
    | started mark es u _ hs => exact absurd hopen hs.state_ne_open
  | turned _ hseat hrun ih =>
    cases ih with
    | unjoined mark hu _ _ => exact ((wp_playTurn_idle hu.idle _ _).ok hrun).elim
    | started mark es u hc hs =>
      obtain ⟨es', u', hc', hs'⟩ := hc.turned hs hseat hrun
      exact .started mark es' u' hc' hs'
  | timedOut _ hrun ih =>
    cases ih with
    | unjoined mark hu _ _ => exact ((wp_forfeitRound_idle hu.idle _ _).ok hrun).elim
    | started mark es u hc hs =>
      obtain ⟨es', u', hc', hs'⟩ := hc.timedOut hs hrun
      exact .started mark es' u' hc' hs'

/-- **No turn is lost, doubled or reordered.** A run on one game has a
timeline, from the match about to start to the one stored, whose plies are
the log and whose arrivals are the accepted turns; what each seat turned in
is, in order, what was placed or dropped at the head of its queue, what is
queued, and what the end of the match discarded. The marks of a seat are
those of its turns. -/
theorem turns_accounted {g : GameBody} {log : List PlyEvent} {turns : List (Seat × UInt8)}
    (h : TurnRun g log turns) :
    ∃ (mark : Mark) (es : List Entry) (u : Committed), g.creatorMark = mark.toCell ∧
      Timeline (.start mark g.roundsTotal) es u ∧ es.filterMap Entry.turn = turns ∧
      es.filterMap Entry.ply = log ∧ (g.state ≠ .open → Stores g u) ∧
      ∀ s, ∃ discarded, Accounted g log turns es s discarded := by
  cases h.standing with
  | unjoined mark hu hlog hturns =>
    subst hlog hturns
    have hc := hu.chronicle
    exact ⟨mark, [], _, hc.creatorMark, hc.timeline, rfl, rfl, fun hopen => absurd hu.state hopen,
      fun s => ⟨[], hu.accounted s⟩⟩
  | started mark es u hc hs =>
    exact ⟨mark, es, u, hc.creatorMark, hc.timeline, hc.turns_eq, hc.plies_eq,
      fun _ => hs.toStores, fun s => hc.accounted hs s⟩

/-- Seat 1 commits to two cells, and seat 0 takes the first. -/
theorem turns_accounted_stale :
    ∃ (g : GameBody) (log : List PlyEvent) (mark : Mark) (es : List Entry) (u : Committed),
      playTurns [⟨1, 0, 101⟩, ⟨1, 4, 102⟩, ⟨0, 0, 103⟩] Sample.seated = some g ∧
      g.creatorMark = mark.toCell ∧ Timeline (.start mark g.roundsTotal) es u ∧
      es.filterMap Entry.turn = [(1, 0), (1, 4), (0, 0)] ∧ es.filterMap Entry.ply = log ∧
      (g.state ≠ .open → Stores g u) ∧
      ∀ s, ∃ discarded, Accounted g log [(1, 0), (1, 4), (0, 0)] es s discarded := by
  have hseated : TurnRun Sample.seated [] [] :=
    .joined 100 (.created Sample.aliceId 500 (by decide) (by decide)) rfl (by decide +kernel)
  have hplays : (playTurns [⟨1, 0, 101⟩, ⟨1, 4, 102⟩, ⟨0, 0, 103⟩] Sample.seated).isSome := by
    decide +kernel
  obtain ⟨g, hg⟩ := Option.isSome_iff_exists.mp hplays
  obtain ⟨log, hrun⟩ := hseated.playTurns hg
  obtain ⟨mark, es, u, haccount⟩ := turns_accounted hrun
  exact ⟨g, log, mark, es, u, hg, haccount⟩

end TicTacToe
