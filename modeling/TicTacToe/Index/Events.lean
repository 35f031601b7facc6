/-
TicTacToe.Index.Events — the keys of the secondary index and the events of
a game transition (`node/src/indexer.rs`).

Two kinds of keys share the index: a player event and the status bucket of
a game, told apart by their first byte. `forwardEvents` is the pure part of
the indexer: what a step from one game body to the next logs, for whom.

No `sorry`, no `axiom`, no `native_decide`.
-/
import TicTacToe.Resources.Game

namespace TicTacToe

open Lib

/-! ## Keys -/

def playerEventDiscriminator : UInt8 := 0x01

def gameStatusDiscriminator : UInt8 := 0x02

/-- Player-event-log entry kind: one immutable fact per (player, game, version). -/
inductive PlayerEvent where
  | created
  | joined
  | won
  | lost
  | draw
  deriving DecidableEq, Repr

/-- `event as u8`. -/
def PlayerEvent.toByte : PlayerEvent → UInt8
  | created => 1
  | joined => 2
  | won => 3
  | lost => 4
  | draw => 5

/-- Game-status bucket; `finished` covers all terminal states. -/
inductive GameStatus where
  | open
  | playing
  | finished
  deriving DecidableEq, Repr

/-- `status as u8`. -/
def GameStatus.toByte : GameStatus → UInt8
  | .open => 0
  | playing => 1
  | finished => 2

/-- `0x01 || player[32] || event[1] || version_be[8] || game[32]`. -/
def playerEventKey (player : ResourceId) (event : PlayerEvent) (version : UInt64)
    (game : ResourceId) : List UInt8 :=
  playerEventDiscriminator :: (player.val ++ (event.toByte :: (be64 version ++ game.val)))

/-- `0x02 || status[1] || game[32]`. -/
def gameStatusKey (status : GameStatus) (game : ResourceId) : List UInt8 :=
  gameStatusDiscriminator :: status.toByte :: game.val

theorem PlayerEvent.toByte_injective {e e' : PlayerEvent} (h : e.toByte = e'.toByte) :
    e = e' := by
  cases e <;> cases e' <;> first | rfl | (revert h; decide)

theorem GameStatus.toByte_injective {s s' : GameStatus} (h : s.toByte = s'.toByte) :
    s = s' := by
  cases s <;> cases s' <;> first | rfl | (revert h; decide)

theorem playerEventKey_inj {p p' : ResourceId} {e e' : PlayerEvent} {v v' : UInt64}
    {id id' : ResourceId} (h : playerEventKey p e v id = playerEventKey p' e' v' id') :
    p = p' ∧ e = e' ∧ v = v' ∧ id = id' := by
  have htail := (List.cons.inj h).2
  obtain ⟨hp, hrest⟩ := List.append_inj htail (p.property.trans p'.property.symm)
  obtain ⟨he, hrest⟩ := List.cons.inj hrest
  obtain ⟨hv, hid⟩ := List.append_inj hrest ((length_be64 v).trans (length_be64 v').symm)
  exact ⟨Subtype.ext hp, PlayerEvent.toByte_injective he, be64_injective hv, Subtype.ext hid⟩

theorem gameStatusKey_inj {s s' : GameStatus} {id id' : ResourceId}
    (h : gameStatusKey s id = gameStatusKey s' id') : s = s' ∧ id = id' := by
  obtain ⟨hs, hid⟩ := List.cons.inj (List.cons.inj h).2
  exact ⟨GameStatus.toByte_injective hs, Subtype.ext hid⟩

theorem playerEventKey_ne_gameStatusKey (p : ResourceId) (e : PlayerEvent) (v : UInt64)
    (s : GameStatus) (id id' : ResourceId) :
    playerEventKey p e v id ≠ gameStatusKey s id' := by
  intro h
  exact absurd (List.cons.inj h).1 (by decide)

/-! ## Events of a transition -/

/-- `game`: an optional raw body; `none` for non-game bytes. -/
def gameOf (bytes : Option (List UInt8)) : Option GameBody :=
  bytes.bind fun b => (GameBody.fromBytes b).toOption

/-- `status_of`. -/
def statusOf : State → GameStatus
  | .open => .open
  | .playing => .playing
  | _ => .finished

/-- What a game that just finished logs for its two players. -/
def finishEvents (new : GameBody) : List (ResourceId × PlayerEvent) :=
  let (creatorEvent, joinerEvent) : PlayerEvent × PlayerEvent :=
    match new.state with
    | .first => (.won, .lost)
    | .second => (.lost, .won)
    | _ => (.draw, .draw)
  (new.creator, creatorEvent) ::
    match new.joiner with
    | some joiner => [(joiner, joinerEvent)]
    | none => []

/-- `forward_events`: the player events of an old-to-new game transition. -/
def forwardEvents (old new : Option GameBody) : List (ResourceId × PlayerEvent) :=
  match new with
  | none => []
  | some new =>
    (if old.isNone then [(new.creator, .created)] else []) ++
    ((match old.bind GameBody.joiner, new.joiner with
      | none, some joiner => [(joiner, .joined)]
      | _, _ => []) ++
    (if !old.any GameBody.isFinished && new.isFinished then finishEvents new else []))

@[simp] theorem gameOf_toBytes (g : GameBody) : gameOf (some g.toBytes) = some g := by
  simp [gameOf, GameBody.fromBytes_toBytes, Except.toOption]

@[simp] theorem gameOf_none : gameOf none = none := rfl

/-- A body whose bytes are stored is the body read back. -/
@[simp] theorem gameOf_map (g : Option GameBody) : gameOf (g.map GameBody.toBytes) = g := by
  cases g with
  | none => rfl
  | some g => exact gameOf_toBytes g

/-! ## Events over several steps -/

/-- `g'` is what `g` can become: the creator stays, a joiner stays, and a
finished game does not change. -/
structure GameBody.Ahead (g g' : GameBody) : Prop where
  creator : g'.creator = g.creator
  joiner : ∀ j, g.joiner = some j → g'.joiner = some j
  finished : g.isFinished = true → g' = g

theorem GameBody.Ahead.refl (g : GameBody) : g.Ahead g := ⟨rfl, fun _ h => h, fun _ => rfl⟩

theorem GameBody.Ahead.trans {g g' g'' : GameBody} (h : g.Ahead g') (h' : g'.Ahead g'') :
    g.Ahead g'' where
  creator := h'.creator.trans h.creator
  joiner j hj := h'.joiner j (h.joiner j hj)
  finished hfin := by
    have hsame := h.finished hfin
    subst hsame
    exact h'.finished hfin

/-- A body that stands stays, in what it can become. -/
def BodyAhead (old new : Option GameBody) : Prop := ∀ g ∈ old, ∃ g' ∈ new, g.Ahead g'

@[simp] theorem bodyAhead_none (new : Option GameBody) : BodyAhead none new := fun _ h => by cases h

@[simp] theorem bodyAhead_some {g g' : GameBody} : BodyAhead (some g) (some g') ↔ g.Ahead g' := by
  simp [BodyAhead]

theorem BodyAhead.refl (g : Option GameBody) : BodyAhead g g := fun b h => ⟨b, h, .refl b⟩

theorem BodyAhead.trans {g g' g'' : Option GameBody} (h : BodyAhead g g')
    (h' : BodyAhead g' g'') : BodyAhead g g'' := by
  intro b hb
  obtain ⟨b', hb', hahead⟩ := h b hb
  obtain ⟨b'', hb'', hahead'⟩ := h' b' hb'
  exact ⟨b'', hb'', hahead.trans hahead'⟩

/-- The events of consecutive steps. -/
def stepEvents (old : Option GameBody) : List GameBody → List (ResourceId × PlayerEvent)
  | [] => []
  | g :: rest => forwardEvents old (some g) ++ stepEvents (some g) rest

@[simp] theorem forwardEvents_none (old : Option GameBody) : forwardEvents old none = [] := rfl

/-- The finish events are fixed once the game is finished. -/
theorem forwardEvents_self (g : GameBody) : forwardEvents (some g) (some g) = [] := by
  unfold forwardEvents
  cases hj : g.joiner <;> cases hf : g.isFinished <;> simp [hj, hf]

/-- The three conditions of `forward_events` telescope: birth, a joiner
appearing and the first finish each happen in one of the two steps. -/
theorem forwardEvents_append {old : Option GameBody} {g g' : GameBody}
    (h : BodyAhead old (some g)) (h' : g.Ahead g') :
    forwardEvents old (some g') = forwardEvents old (some g) ++ forwardEvents (some g) (some g') := by
  by_cases hfin : g.isFinished = true
  · -- nothing happens after the finish
    rw [h'.finished hfin, forwardEvents_self, List.append_nil]
  · have hunfinished : g.isFinished = false := by simpa using hfin
    cases old with
    | none =>
      cases hj : g.joiner with
      | none => simp [forwardEvents, hj, hunfinished, h'.creator]
      | some j => simp [forwardEvents, hj, hunfinished, h'.creator, h'.joiner j hj]
    | some g₀ =>
      have h₀ : g₀.Ahead g := bodyAhead_some.mp h
      have hunfinished₀ : g₀.isFinished = false := by
        by_contra hne
        have hfin₀ : g₀.isFinished = true := by simpa using hne
        exact hfin (h₀.finished hfin₀ ▸ hfin₀)
      cases hj₀ : g₀.joiner with
      | some j =>
        simp [forwardEvents, hj₀, h₀.joiner j hj₀, hunfinished, hunfinished₀]
      | none =>
        cases hj : g.joiner with
        | none => simp [forwardEvents, hj₀, hj, hunfinished, hunfinished₀]
        | some j =>
          simp [forwardEvents, hj₀, hj, h'.joiner j hj, hunfinished, hunfinished₀]

/-- A diff over several steps logs what the steps log, in their order. -/
theorem forwardEvents_getLast {old : Option GameBody} {gs : List GameBody}
    (hold : ∀ g ∈ gs, BodyAhead old (some g)) (hgs : gs.Pairwise GameBody.Ahead) :
    forwardEvents old gs.getLast? = stepEvents old gs := by
  induction gs generalizing old with
  | nil => rfl
  | cons g rest ih =>
    obtain ⟨hahead, hrest⟩ := List.pairwise_cons.mp hgs
    have htail := ih (fun g' hg' => bodyAhead_some.mpr (hahead g' hg')) hrest
    have hfirst := hold g List.mem_cons_self
    rw [stepEvents, ← htail]
    cases hlast : rest.getLast? with
    | none =>
      rw [List.getLast?_eq_none_iff.mp hlast]
      simp
    | some last =>
      rw [List.getLast?_cons, hlast]
      exact forwardEvents_append hfirst (hahead last (List.mem_of_getLast? hlast))

/-- A finish logs neither a creation nor a joining. -/
theorem kind_of_mem_finishEvents {g : GameBody} {e : ResourceId × PlayerEvent}
    (h : e ∈ finishEvents g) : e.2 ≠ .created ∧ e.2 ≠ .joined := by
  unfold finishEvents at h
  cases hj : g.joiner with
  | none => cases hs : g.state <;> simp [hs, hj] at h <;> simp [h]
  | some j => cases hs : g.state <;> simp [hs, hj] at h <;> rcases h with h | h <;> simp [h]

theorem nodup_finishEvents {g : GameBody} (h : g.joiner ≠ some g.creator) :
    (finishEvents g).Nodup := by
  unfold finishEvents
  cases hj : g.joiner with
  | none => simp
  | some j =>
    have hplayers : g.creator ≠ j := fun e => h (by rw [hj, e])
    simp [hplayers]

/-- No event is logged twice: the two players are different. -/
theorem nodup_forwardEvents {old : Option GameBody} {g : GameBody}
    (h : g.isFinished = true → g.joiner ≠ some g.creator) :
    (forwardEvents old (some g)).Nodup := by
  have hfinish : ∀ e ∈ (if !old.any GameBody.isFinished && g.isFinished then finishEvents g
      else []), e.2 ≠ .created ∧ e.2 ≠ .joined := by
    intro e he
    split at he
    · exact kind_of_mem_finishEvents he
    · cases he
  have hnodup : (if !old.any GameBody.isFinished && g.isFinished then finishEvents g
      else []).Nodup := by
    split
    · rename_i hfin
      exact nodup_finishEvents (h (Bool.and_eq_true_iff.mp hfin).2)
    · exact List.nodup_nil
  have hjoin : ∀ e ∈ (match old.bind GameBody.joiner, g.joiner with
      | none, some joiner => [(joiner, PlayerEvent.joined)]
      | _, _ => []), e.2 = .joined := by
    intro e he
    split at he
    · rw [List.mem_singleton.mp he]
    · cases he
  have hjoinNodup : (match old.bind GameBody.joiner, g.joiner with
      | none, some joiner => [(joiner, PlayerEvent.joined)]
      | _, _ => []).Nodup := by
    split
    · exact List.nodup_singleton _
    · exact List.nodup_nil
  have hbirth : ∀ e ∈ (if old.isNone then [(g.creator, PlayerEvent.created)] else []),
      e.2 = .created := by
    intro e he
    split at he
    · rw [List.mem_singleton.mp he]
    · cases he
  have hbirthNodup : (if old.isNone then [(g.creator, PlayerEvent.created)] else []).Nodup := by
    split
    · exact List.nodup_singleton _
    · exact List.nodup_nil
  -- the three parts log different kinds of events
  refine hbirthNodup.append (hjoinNodup.append hnodup ?_) ?_
  · intro e he he'
    exact (hfinish e he').2 (hjoin e he)
  · intro e he he'
    rcases List.mem_append.mp he' with hj | hf
    · exact absurd ((hbirth e he).symm.trans (hjoin e hj)) (by decide)
    · exact (hfinish e hf).1 (hbirth e he)

end TicTacToe
