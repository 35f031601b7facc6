/-
TicTacToe.Reference.Outcome — the early clinch never changes a result.

A match is a list of round results. `finalState` compares the round wins
once every round is played; `matchOutcome_forced` says that
`match_outcome` answers exactly when all ways of playing on agree, and
with what they agree on. Stopping at the first answer is then as good as
playing every round (`earlyClinch_exact`).

No `sorry`, no `axiom`, no `native_decide`.
-/
import TicTacToe.Rules
import TicTacToe.Reference.Match

namespace TicTacToe

open Reference (Result)

/-! ## Lists of round results -/

/-- Rounds won by a seat. -/
def winsIn (rounds : List Result) (seat : Seat) : Nat := rounds.count (.won seat)

def drawsIn (rounds : List Result) : Nat := rounds.count .drawn

theorem winsIn_append (l l' : List Result) (s : Seat) :
    winsIn (l ++ l') s = winsIn l s + winsIn l' s := List.count_append

/-- Every round has one result. -/
theorem winsIn_add (rounds : List Result) :
    winsIn rounds 0 + winsIn rounds 1 + drawsIn rounds = rounds.length := by
  induction rounds with
  | nil => rfl
  | cons r rest ih =>
    simp only [winsIn, drawsIn, List.length_cons] at ih ⊢
    rcases r with s | _
    · obtain rfl | rfl := Reference.seat_cases s
      · simp
        omega
      · simp
        omega
    · simp
      omega

theorem winsIn_replicate_self (n : Nat) (s : Seat) :
    winsIn (List.replicate n (.won s)) s = n := List.count_replicate_self

theorem winsIn_replicate_other (n : Nat) {s t : Seat} (h : s ≠ t) :
    winsIn (List.replicate n (.won s)) t = 0 := by
  refine List.count_eq_zero.mpr fun hmem => ?_
  have he := List.eq_of_mem_replicate hmem
  exact h (Result.won.inj he).symm

/-! ## The final comparison -/

/-- The state a match ends in once all its rounds are played. -/
def finalState (w0 w1 : Nat) : State :=
  match compare w0 w1 with
  | .gt => .first
  | .lt => .second
  | .eq => .draw

theorem finalState_first {w0 w1 : Nat} : finalState w0 w1 = .first ↔ w1 < w0 := by
  unfold finalState
  cases h : compare w0 w1 with
  | lt => simp; exact Nat.le_of_lt (Nat.compare_eq_lt.mp h)
  | eq => simp; exact Nat.le_of_eq (Nat.compare_eq_eq.mp h)
  | gt => simp; exact Nat.compare_eq_gt.mp h

theorem finalState_second {w0 w1 : Nat} : finalState w0 w1 = .second ↔ w0 < w1 := by
  unfold finalState
  cases h : compare w0 w1 with
  | lt => simp; exact Nat.compare_eq_lt.mp h
  | eq => simp; exact Nat.le_of_eq (Nat.compare_eq_eq.mp h).symm
  | gt => simp; exact Nat.le_of_lt (Nat.compare_eq_gt.mp h)

theorem finalState_draw {w0 w1 : Nat} : finalState w0 w1 = .draw ↔ w0 = w1 := by
  unfold finalState
  cases h : compare w0 w1 with
  | lt => simp; exact Nat.ne_of_lt (Nat.compare_eq_lt.mp h)
  | eq => simp; exact Nat.compare_eq_eq.mp h
  | gt => simp; exact Nat.ne_of_gt (Nat.compare_eq_gt.mp h)

/-- What `match_outcome` answers, with its arithmetic read as natural numbers. -/
theorem matchOutcome_cases (n : UInt8) (wins : Seat → UInt8) (draws : UInt8) (w0 w1 left : Nat)
    (h0 : (wins 0).toNat = w0) (h1 : (wins 1).toNat = w1)
    (hleft : n.toNat - (w0 + w1 + draws.toNat) = left) :
    Rules.matchOutcome n wins draws =
      if w0 > w1 + left then some .first
      else if w1 > w0 + left then some .second
      else if left = 0 then some (finalState w0 w1)
      else none := by
  unfold Rules.matchOutcome
  simp only [h0, h1, hleft]
  rfl

/-! ## Playing on -/

/-- `s` is the result however the `left` remaining rounds go. -/
def Forced (w0 w1 left : Nat) (s : State) : Prop :=
  ∀ rest : List Result, rest.length = left →
    finalState (w0 + winsIn rest 0) (w1 + winsIn rest 1) = s

section Forced

variable {w0 w1 left : Nat} {s : State}

theorem forced_first (h : w0 > w1 + left) : Forced w0 w1 left .first := by
  intro rest hlen
  have hsum := winsIn_add rest
  exact finalState_first.mpr (by omega)

theorem forced_second (h : w1 > w0 + left) : Forced w0 w1 left .second := by
  intro rest hlen
  have hsum := winsIn_add rest
  exact finalState_second.mpr (by omega)

theorem forced_over : Forced w0 w1 0 (finalState w0 w1) := by
  intro rest hlen
  rw [List.length_eq_zero_iff.mp hlen]
  rfl

/-- Seat 0 taking every round left. -/
theorem Forced.sweep0 (h : Forced w0 w1 left s) : finalState (w0 + left) w1 = s := by
  have hs := h (List.replicate left (.won 0)) List.length_replicate
  rwa [winsIn_replicate_self, winsIn_replicate_other left (by decide)] at hs

/-- Seat 1 taking every round left. -/
theorem Forced.sweep1 (h : Forced w0 w1 left s) : finalState w0 (w1 + left) = s := by
  have hs := h (List.replicate left (.won 1)) List.length_replicate
  rwa [winsIn_replicate_self, winsIn_replicate_other left (by decide)] at hs

/-- With rounds left and nobody out of reach, the two sweeps end differently. -/
theorem not_forced (hleft : left ≠ 0) (h0 : ¬ w0 > w1 + left) (h1 : ¬ w1 > w0 + left) :
    ¬ Forced w0 w1 left s := by
  intro hf
  have hsame := hf.sweep0.trans hf.sweep1.symm
  by_cases hup : w1 < w0 + left
  · rw [finalState_first.mpr hup] at hsame
    have hlt := finalState_first.mp hsame.symm
    omega
  · rw [finalState_draw.mpr (by omega : w0 + left = w1)] at hsame
    have heq := finalState_draw.mp hsame.symm
    omega

/-- `match_outcome` answers exactly when the result is forced, with that
result. -/
theorem matchOutcome_forced {n : UInt8} {wins : Seat → UInt8} {draws : UInt8}
    (h0 : (wins 0).toNat = w0) (h1 : (wins 1).toNat = w1)
    (hleft : n.toNat - (w0 + w1 + draws.toNat) = left) :
    Rules.matchOutcome n wins draws = some s ↔ Forced w0 w1 left s := by
  rw [matchOutcome_cases n wins draws w0 w1 left h0 h1 hleft]
  split
  · rename_i hlead
    rw [Option.some.injEq]
    constructor
    · intro e
      exact e ▸ forced_first hlead
    · intro hf
      exact (finalState_first.mpr (by omega)).symm.trans hf.sweep1
  · rename_i hlead0
    split
    · rename_i hlead
      rw [Option.some.injEq]
      constructor
      · intro e
        exact e ▸ forced_second hlead
      · intro hf
        exact (finalState_second.mpr (by omega)).symm.trans hf.sweep0
    · rename_i hlead1
      split
      · rename_i hzero
        rw [Option.some.injEq, hzero]
        constructor
        · intro e
          exact e ▸ forced_over
        · intro hf
          exact hf.sweep0
      · rename_i hzero
        constructor
        · intro e
          cases e
        · intro hf
          exact (not_forced hzero hlead0 hlead1 hf).elim

end Forced

/-! ## Stopping early -/

/-- `match_outcome` on the counters after the given rounds. -/
def outcomeAfter (roundsTotal : UInt8) (rounds : List Result) : Option State :=
  Rules.matchOutcome roundsTotal (fun s => .ofNat (winsIn rounds s)) (.ofNat (drawsIn rounds))

/-- The answer on the first prefix that has one. -/
def stoppedOutcome (roundsTotal : UInt8) (rounds : List Result) : Option State :=
  rounds.inits.findSome? (outcomeAfter roundsTotal)

/-- The counters of a match that fits a byte are exact. -/
theorem outcomeAfter_forced {n : UInt8} {done : List Result} {left : Nat} {s : State}
    (hlen : done.length + left = n.toNat) :
    outcomeAfter n done = some s ↔ Forced (winsIn done 0) (winsIn done 1) left s := by
  have hsum := winsIn_add done
  have hfits := n.toNat_lt
  have h0 : (UInt8.ofNat (winsIn done 0)).toNat = winsIn done 0 :=
    UInt8.toNat_ofNat_of_lt' (by omega : winsIn done 0 < 256)
  have h1 : (UInt8.ofNat (winsIn done 1)).toNat = winsIn done 1 :=
    UInt8.toNat_ofNat_of_lt' (by omega : winsIn done 1 < 256)
  have hd : (UInt8.ofNat (drawsIn done)).toNat = drawsIn done :=
    UInt8.toNat_ofNat_of_lt' (by omega : drawsIn done < 256)
  exact matchOutcome_forced h0 h1 (by omega)

/-- An answer on any prefix is the result of the whole list. -/
theorem outcomeAfter_initial {n : UInt8} {rounds done : List Result} {s : State}
    (hlen : rounds.length = n.toNat) (hpre : done <+: rounds)
    (h : outcomeAfter n done = some s) : finalState (winsIn rounds 0) (winsIn rounds 1) = s := by
  obtain ⟨rest, rfl⟩ := hpre
  rw [List.length_append] at hlen
  rw [winsIn_append, winsIn_append]
  exact (outcomeAfter_forced hlen).mp h rest rfl

/-- The whole list has an answer. -/
theorem outcomeAfter_full {n : UInt8} {rounds : List Result} (hlen : rounds.length = n.toNat) :
    outcomeAfter n rounds = some (finalState (winsIn rounds 0) (winsIn rounds 1)) :=
  (outcomeAfter_forced (by omega : rounds.length + 0 = n.toNat)).mpr forced_over

theorem stoppedOutcome_eq {n : UInt8} {rounds : List Result} (hlen : rounds.length = n.toNat) :
    stoppedOutcome n rounds = some (finalState (winsIn rounds 0) (winsIn rounds 1)) := by
  unfold stoppedOutcome
  cases hfind : rounds.inits.findSome? (outcomeAfter n) with
  | none =>
    have hnone := List.findSome?_eq_none_iff.mp hfind rounds (by simp)
    rw [outcomeAfter_full hlen] at hnone
    cases hnone
  | some s =>
    obtain ⟨done, hmem, hs⟩ := List.exists_of_findSome?_eq_some hfind
    rw [outcomeAfter_initial hlen ((List.mem_inits _ _).mp hmem) hs]

/-- **Early clinch.** While the counters fit the match, `match_outcome` is
`some s` if and only if every way of playing the remaining rounds ends in
`s`; so over any full list of round results, stopping at the first prefix
with an answer gives what playing every round gives. -/
theorem earlyClinch_exact (roundsTotal : UInt8) :
    (∀ (roundWins : Seat → UInt8) (draws : UInt8) (s : State),
      (roundWins 0).toNat + (roundWins 1).toNat + draws.toNat ≤ roundsTotal.toNat →
      (Rules.matchOutcome roundsTotal roundWins draws = some s ↔
        ∀ rest : List Result,
          (roundWins 0).toNat + (roundWins 1).toNat + draws.toNat + rest.length
            = roundsTotal.toNat →
          finalState ((roundWins 0).toNat + winsIn rest 0) ((roundWins 1).toNat + winsIn rest 1)
            = s)) ∧
    ∀ rounds : List Result, rounds.length = roundsTotal.toNat →
      stoppedOutcome roundsTotal rounds
        = some (finalState (winsIn rounds 0) (winsIn rounds 1)) := by
  refine ⟨fun wins draws s hle => ?_, fun rounds hlen => stoppedOutcome_eq hlen⟩
  rw [matchOutcome_forced rfl rfl rfl]
  constructor
  · intro hf rest hlen
    exact hf rest (by omega)
  · intro hall rest hlen
    exact hall rest (by omega)

theorem earlyClinch_exact_sweep :
    Rules.matchOutcome 5 (fun s => if s = 0 then 3 else 0) 0 = some .first ∧
      stoppedOutcome 3 [.won 1, .drawn, .won 1] = some .second :=
  ⟨((earlyClinch_exact 5).1 (fun s => if s = 0 then 3 else 0) 0 .first (by decide)).mpr
      fun rest hlen => forced_first (by decide : 3 > 0 + 2) rest (by
        have h5 : 3 + 0 + 0 + rest.length = 5 := hlen
        omega),
    (earlyClinch_exact 3).2 [.won 1, .drawn, .won 1] rfl⟩

end TicTacToe
