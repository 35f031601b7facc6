/-
TicTacToe.Ledger.Slot — the store as a ledger of typed slots, and a
transaction's resources as an overlay on it.

`Slot.parse` reads a payload as the one thing it can be. A transaction
works on copies of the slots it names; `commit` writes them back, and the
ledger of a context is the ledger of what would be written back now. The
point of this module is `ledger_setResource`: changing one attached
resource is updating one slot.

No `sorry`, no `axiom`, no `native_decide`.
-/
import TicTacToe.Action.Apply

namespace TicTacToe

open Lib

/-- What a slot's payload holds. -/
inductive Slot where
  | empty
  | config (c : ConfigBody)
  | user (u : UserBody)
  | game (g : GameBody)
  | junk

def Slot.parse (B : Battery) (data : List UInt8) : Slot :=
  if data = [] then .empty
  else
    match ConfigBody.fromBytes B data with
    | .ok c => .config c
    | .error _ =>
      match UserBody.fromBytes B data with
      | .ok u => .user u
      | .error _ =>
        match GameBody.fromBytes data with
        | .ok g => .game g
        | .error _ => .junk

namespace Slot

variable {B : Battery} {data : List UInt8}

/-- The kind byte tells the three bodies apart. -/
theorem kind_unique {k k' : Kind} {xs ys : List UInt8} (h : data = k.toByte :: xs)
    (h' : data = k'.toByte :: ys) : k = k' :=
  Kind.toByte_injective (List.cons.inj (h.symm.trans h')).1

theorem parse_eq_empty : parse B data = .empty ↔ data = [] := by
  unfold parse
  by_cases h : data = []
  · simp [h]
  · rw [if_neg h]
    refine ⟨fun hp => ?_, fun he => absurd he h⟩
    split at hp
    · cases hp
    · split at hp
      · cases hp
      · split at hp <;> cases hp

theorem parse_eq_config {c : ConfigBody} :
    parse B data = .config c ↔ ConfigBody.fromBytes B data = .ok c := by
  unfold parse
  constructor
  · intro hp
    split at hp
    · cases hp
    · split at hp
      · rename_i hc
        cases hp
        exact hc
      · split at hp
        · cases hp
        · split at hp <;> cases hp
  · intro h
    have hne : data ≠ [] := by
      rw [(ConfigBody.fromBytes_ok.mp h).1]
      exact List.cons_ne_nil _ _
    rw [if_neg hne, h]

theorem parse_eq_user {u : UserBody} :
    parse B data = .user u ↔ UserBody.fromBytes B data = .ok u := by
  unfold parse
  constructor
  · intro hp
    split at hp
    · cases hp
    · split at hp
      · cases hp
      · split at hp
        · rename_i hu
          cases hp
          exact hu
        · split at hp <;> cases hp
  · intro h
    have hd := (UserBody.fromBytes_ok.mp h).1
    have hne : data ≠ [] := by
      rw [hd]
      exact List.cons_ne_nil _ _
    rw [if_neg hne]
    cases hc : ConfigBody.fromBytes B data with
    | ok c => cases kind_unique hd (ConfigBody.fromBytes_ok.mp hc).1
    | error m => simp only [h]

theorem parse_eq_game {g : GameBody} :
    parse B data = .game g ↔ GameBody.fromBytes data = .ok g := by
  unfold parse
  constructor
  · intro hp
    split at hp
    · cases hp
    · split at hp
      · cases hp
      · split at hp
        · cases hp
        · split at hp
          · rename_i hg
            cases hp
            exact hg
          · cases hp
  · intro h
    have hd := GameBody.fromBytes_ok.mp h
    have hne : data ≠ [] := by
      rw [hd]
      exact List.cons_ne_nil _ _
    rw [if_neg hne]
    cases hc : ConfigBody.fromBytes B data with
    | ok c => cases kind_unique hd (ConfigBody.fromBytes_ok.mp hc).1
    | error m =>
      cases hu : UserBody.fromBytes B data with
      | ok u => cases kind_unique hd (UserBody.fromBytes_ok.mp hu).1
      | error m' => simp only [h]

theorem parse_config {c : ConfigBody} (h : validateLockBody B c.lockTag c.lockBody = .ok ()) :
    parse B c.toBytes = .config c :=
  parse_eq_config.mpr (ConfigBody.fromBytes_ok.mpr ⟨rfl, h⟩)

theorem parse_user {u : UserBody} (h : validateLockBody B u.lockTag u.lockBody = .ok ()) :
    parse B u.toBytes = .user u :=
  parse_eq_user.mpr (UserBody.fromBytes_ok.mpr ⟨rfl, h⟩)

theorem parse_game (g : GameBody) : parse B g.toBytes = .game g :=
  parse_eq_game.mpr (GameBody.fromBytes_toBytes g)

end Slot

/-! ## The store and its overlay -/

abbrev Store := ResourceId → List UInt8

abbrev Ledger := ResourceId → Slot

def Store.ledger (B : Battery) (st : Store) : Ledger := fun id => Slot.parse B (st id)

/-- The store with the attached resources written back. -/
def Store.commit (st : Store) (resources : List Resource) : Store := fun id =>
  match resources.find? fun r => r.id = id with
  | some r => r.data
  | none => st id

/-- The ledger a context stands for over the store `st`. -/
def ApplyContext.ledger (B : Battery) (st : Store) (cx : ApplyContext) : Ledger :=
  (st.commit cx.resources).ledger B

/-- Distinct ids, and a lifecycle that says which slots are empty. -/
structure ApplyContext.Coherent (cx : ApplyContext) : Prop where
  nodup : (cx.resources.map Resource.id).Nodup
  lifecycle : cx.lifecycle = cx.resources.map Lifecycle.fromResource

section Overlay

variable {rs : List Resource} {r : Resource} {i j : Nat}

theorem index_unique (hn : (rs.map Resource.id).Nodup) {r' : Resource} (hi : rs[i]? = some r)
    (hj : rs[j]? = some r') (h : r.id = r'.id) : i = j := by
  have hlt : i < (rs.map Resource.id).length := by
    rw [List.length_map]
    exact (List.getElem?_eq_some_iff.mp hi).1
  refine (List.getElem?_inj hlt hn).mp ?_
  rw [List.getElem?_map, List.getElem?_map, hi, hj, Option.map_some, Option.map_some, h]

theorem find?_eq_of_nodup (hn : (rs.map Resource.id).Nodup) (hi : rs[i]? = some r) :
    rs.find? (fun r' => r'.id = r.id) = some r := by
  cases hf : rs.find? (fun r' => r'.id = r.id) with
  | none =>
    have hmem : r ∈ rs := List.mem_of_getElem? hi
    have := List.find?_eq_none.mp hf r hmem
    simp at this
  | some r' =>
    have hid : r'.id = r.id := by simpa using List.find?_some hf
    obtain ⟨j, hj⟩ := List.getElem?_of_mem (List.mem_of_find?_eq_some hf)
    obtain rfl := index_unique hn hj hi hid
    rw [hi] at hj
    exact hj.symm

theorem commit_apply (st : Store) (hn : (rs.map Resource.id).Nodup) (hi : rs[i]? = some r) :
    st.commit rs r.id = r.data := by
  simp only [Store.commit, find?_eq_of_nodup hn hi]

/-- Replacing an entry by one with the same image leaves the images. -/
theorem map_set_of_eq {α β : Type} {f : α → β} {l : List α} {i : Nat} {a a' : α}
    (hi : l[i]? = some a) (h : f a' = f a) : (l.set i a').map f = l.map f := by
  refine List.ext_getElem? fun j => ?_
  rw [List.getElem?_map, List.getElem?_map, List.getElem?_set]
  by_cases hij : i = j
  · subst hij
    rw [if_pos rfl, if_pos (List.getElem?_eq_some_iff.mp hi).1, hi, Option.map_some,
      Option.map_some, h]
  · rw [if_neg hij]

theorem map_id_set {r' : Resource} (hi : rs[i]? = some r) (hid : r'.id = r.id) :
    (rs.set i r').map Resource.id = rs.map Resource.id := map_set_of_eq hi hid

theorem commit_set (st : Store) (hn : (rs.map Resource.id).Nodup) (hi : rs[i]? = some r)
    {r' : Resource} (hid : r'.id = r.id) :
    st.commit (rs.set i r') = Function.update (st.commit rs) r.id r'.data := by
  have hn' : ((rs.set i r').map Resource.id).Nodup := by rwa [map_id_set hi hid]
  have hlt : i < rs.length := (List.getElem?_eq_some_iff.mp hi).1
  funext id
  by_cases he : id = r.id
  · subst he
    rw [Function.update_self, ← hid]
    exact commit_apply st hn' (List.getElem?_set_self hlt)
  · rw [Function.update_of_ne he]
    have hfind : (rs.set i r').find? (fun x => x.id = id) = rs.find? fun x => x.id = id := by
      clear hn hn' hlt
      induction rs generalizing i with
      | nil => rfl
      | cons x xs ih =>
        cases i with
        | zero =>
          obtain rfl : x = r := by simpa using hi
          simp [hid, Ne.symm he]
        | succ i => simp [List.find?_cons, ih (i := i) (by simpa using hi)]
    simp only [Store.commit, hfind]

theorem ledger_update {B : Battery} (st : Store) (id : ResourceId) (d : List UInt8) :
    Store.ledger B (Function.update st id d)
      = Function.update (st.ledger B) id (Slot.parse B d) := by
  funext id'
  unfold Store.ledger
  by_cases h : id' = id
  · subst h
    simp
  · simp [Function.update_of_ne h]

end Overlay

namespace ApplyContext

variable {B : Battery} {st : Store} {cx : ApplyContext} {i j : Nat} {r r' : Resource}

variable (st) in
theorem ledger_apply (hc : cx.Coherent) (hi : cx.resources[i]? = some r) :
    cx.ledger B st r.id = Slot.parse B r.data :=
  congrArg (Slot.parse B) (commit_apply st hc.nodup hi)

/-- Rewriting an attached resource updates its slot. -/
theorem ledger_setResource (hc : cx.Coherent) (hi : cx.resources[i]? = some r)
    (hid : r'.id = r.id) :
    (cx.setResource i r').ledger B st
      = Function.update (cx.ledger B st) r.id (Slot.parse B r'.data) := by
  simp only [ledger, setResource, commit_set st hc.nodup hi hid, ledger_update]

end ApplyContext

end TicTacToe
