/-
TicTacToe.Resources.Id — the domain-separated resource ids
(`program/resources/id.rs`, `program/resources/domain.rs`) and what it
means for them not to collide.

No function into 32 bytes is injective on every preimage, so the
assumption names the preimages it is about: `CollisionFree B S` is for
the ids that can be derived from a set `S` of initial lock hashes (the
config label, the users of `S`, every game of theirs). `NonzeroIds B S`
says that no user's id is all zero, the value a game body uses for "no
joiner".

No `sorry`, no `axiom`, no `native_decide`.
-/
import Mathlib.Data.Set.Function
import TicTacToe.Resources.Kind

namespace TicTacToe

open Lib

/-- One-byte domain tags. -/
inductive Domain where
  | sigMessage
  | lockId
  | config
  | game
  | user
  deriving DecidableEq

/-- `Domain as u8`. -/
def Domain.toByte : Domain → UInt8
  | sigMessage => 2
  | lockId => 3
  | config => 4
  | game => 5
  | user => 6

/-- The singleton config resource id. -/
def configResourceId (B : Battery) : ResourceId := B.hashWithDomain Domain.config.toByte []

def deriveUserResource (B : Battery) (initialLockHash : Bytes32) : ResourceId :=
  B.hashWithDomain Domain.user.toByte initialLockHash.val

/-- The id of the creator's `gameNumber`-th game. -/
def deriveGameResource (B : Battery) (creatorInitialLockHash : Bytes32) (gameNumber : UInt64) :
    ResourceId :=
  B.hashWithDomain Domain.game.toByte (creatorInitialLockHash.val ++ le64 gameNumber)

/-- What the ids derivable from the lock hashes in `S` are hashed from. -/
inductive IdPreimage (S : Set Bytes32) : UInt8 × List UInt8 → Prop
  | config : IdPreimage S (Domain.config.toByte, [])
  | user {h : Bytes32} : h ∈ S → IdPreimage S (Domain.user.toByte, h.val)
  | game {h : Bytes32} (n : UInt64) : h ∈ S →
      IdPreimage S (Domain.game.toByte, h.val ++ le64 n)

structure CollisionFree (B : Battery) (S : Set Bytes32) : Prop where
  injOn : Set.InjOn (fun p : UInt8 × List UInt8 => B.hashWithDomain p.1 p.2) {p | IdPreimage S p}

/-- No user of `S` has the id that stands for "no joiner". -/
def NonzeroIds (B : Battery) (S : Set Bytes32) : Prop :=
  ∀ h ∈ S, deriveUserResource B h ≠ ResourceId.default

namespace CollisionFree

variable {B : Battery} {S : Set Bytes32} {h h' : Bytes32}

theorem game_inj (H : CollisionFree B S) {n n' : UInt64} (hh : h ∈ S) (hh' : h' ∈ S)
    (e : deriveGameResource B h n = deriveGameResource B h' n') : h = h' ∧ n = n' := by
  have hpre : h.val ++ le64 n = h'.val ++ le64 n' :=
    congrArg Prod.snd (H.injOn (.game n hh) (.game n' hh') e)
  obtain ⟨hv, hn⟩ := List.append_inj hpre (h.property.trans h'.property.symm)
  exact ⟨Subtype.ext hv, le64_injective hn⟩

theorem user_ne_game (H : CollisionFree B S) (n : UInt64) (hh : h ∈ S) (hh' : h' ∈ S) :
    deriveUserResource B h ≠ deriveGameResource B h' n := by
  intro e
  have hd : Domain.user.toByte = Domain.game.toByte :=
    congrArg Prod.fst (H.injOn (.user hh) (.game n hh') e)
  exact absurd hd (by decide)

theorem config_ne_user (H : CollisionFree B S) (hh : h ∈ S) :
    configResourceId B ≠ deriveUserResource B h := by
  intro e
  have hd : Domain.config.toByte = Domain.user.toByte :=
    congrArg Prod.fst (H.injOn .config (.user hh) e)
  exact absurd hd (by decide)

theorem config_ne_game (H : CollisionFree B S) (n : UInt64) (hh : h ∈ S) :
    configResourceId B ≠ deriveGameResource B h n := by
  intro e
  have hd : Domain.config.toByte = Domain.game.toByte :=
    congrArg Prod.fst (H.injOn .config (.game n hh) e)
  exact absurd hd (by decide)

end CollisionFree

/-! ## The battery that computes -/

section Plain

variable {S : Set Bytes32}

theorem plainHash_val (domain : UInt8) (bytes : List UInt8) :
    (Battery.plainHash domain bytes).val
      = domain :: ((padTo 23 bytes).val ++ (padTo 8 (bytes.drop 32)).val) := by
  have hlen : (domain :: ((padTo 23 bytes).val ++ (padTo 8 (bytes.drop 32)).val)).length = 32 := by
    simp only [List.length_cons, List.length_append, (padTo 23 bytes).property,
      (padTo 8 (bytes.drop 32)).property]
  have hpad := congrArg Subtype.val (padTo_append ⟨_, hlen⟩ [])
  rwa [List.append_nil] at hpad

theorem plain_nonzeroIds : NonzeroIds .plain S := by
  intro h _ e
  have hhead := congrArg (fun v : Bytes32 => v.val.head?) e
  simp only [deriveUserResource, Battery.plain, plainHash_val, List.head?_cons] at hhead
  exact absurd hhead (by decide)

/-- It tells the ids apart as long as the lock hashes differ early. -/
theorem plain_collisionFree
    (hS : ∀ h ∈ S, ∀ h' ∈ S, (padTo 23 h.val).val = (padTo 23 h'.val).val → h = h') :
    CollisionFree .plain S where
  injOn := by
    rintro ⟨d, bytes⟩ hp ⟨d', bytes'⟩ hp' e
    have hval := congrArg Subtype.val e
    simp only [Battery.plain, plainHash_val, List.cons.injEq] at hval
    obtain ⟨hd, htail⟩ := hval
    obtain ⟨hfront, hback⟩ := List.append_inj htail
      ((padTo 23 bytes).property.trans (padTo 23 bytes').property.symm)
    have hgame : ∀ (h : Bytes32) (n : UInt64),
        (padTo 23 (h.val ++ le64 n)).val = (padTo 23 h.val).val ∧
          (padTo 8 ((h.val ++ le64 n).drop 32)).val = le64 n := fun h n => by
      refine ⟨?_, ?_⟩
      · show ((h.val ++ le64 n) ++ _).take 23 = (h.val ++ _).take 23
        rw [List.append_assoc, List.take_append_of_le_length (by rw [h.property]; decide),
          List.take_append_of_le_length (by rw [h.property]; decide)]
      · rw [List.drop_left' h.property]
        exact List.take_left' (length_le64 n)
    cases hp with
    | config =>
      cases hp' with
      | config => rfl
      | user _ | game _ _ => exact absurd hd (by decide)
    | @user h hh =>
      cases hp' with
      | @user h' hh' => rw [hS h hh h' hh' hfront]
      | config | game _ _ => exact absurd hd (by decide)
    | @game h n hh =>
      cases hp' with
      | config | user _ => exact absurd hd (by decide)
      | @game h' n' hh' =>
        rw [(hgame h n).1, (hgame h' n').1] at hfront
        rw [(hgame h n).2, (hgame h' n').2] at hback
        rw [hS h hh h' hh' hfront, le64_injective hback]

end Plain

end TicTacToe
