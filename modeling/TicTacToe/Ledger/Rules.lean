/-
TicTacToe.Ledger.Rules — one rule for each thing a handler does to its
context: reading a resource or a lifecycle, viewing, unlocking,
modifying, creating.

Each rule says what is known on success and, on failure, which condition
was not met, so the same derivation gives what an accepted action did and
when an action cannot be refused.

No `sorry`, no `axiom`, no `native_decide`.
-/
import TicTacToe.Ledger.Step

namespace TicTacToe

open Lib

/-- What no action changes: the attached ids and access modes, the
transaction, the clock and the resolved signers. -/
structure Frame (cx cx' : ApplyContext) : Prop where
  keys : cx'.resources.map (fun r => (r.id, r.accessType))
    = cx.resources.map (fun r => (r.id, r.accessType))
  tx : cx'.tx = cx.tx
  context : cx'.context = cx.context
  authCtx : cx'.authCtx = cx.authCtx

theorem Frame.refl (cx : ApplyContext) : Frame cx cx := ⟨rfl, rfl, rfl, rfl⟩

theorem Frame.trans {cx cx' cx'' : ApplyContext} (h : Frame cx cx') (h' : Frame cx' cx'') :
    Frame cx cx'' :=
  ⟨h'.keys.trans h.keys, h'.tx.trans h.tx, h'.context.trans h.context,
    h'.authCtx.trans h.authCtx⟩

namespace ApplyContext

variable {cx : ApplyContext} {i j : Nat} {r r' : Resource}

@[simp] theorem setResource_authCtx : (cx.setResource i r).authCtx = cx.authCtx := rfl

@[simp] theorem setResource_context : (cx.setResource i r).context = cx.context := rfl

@[simp] theorem setResource_lifecycle : (cx.setResource i r).lifecycle = cx.lifecycle := rfl

@[simp] theorem setResource_exits : (cx.setResource i r).exits = cx.exits := rfl

@[simp] theorem setResource_consumed :
    (cx.setResource i r).consumedOutputs = cx.consumedOutputs := rfl

theorem setResource_self (hi : cx.resources[i]? = some r) :
    (cx.setResource i r').resources[i]? = some r' :=
  List.getElem?_set_self (List.getElem?_eq_some_iff.mp hi).1

theorem setResource_unchanged (hi : cx.resources[i]? = some r) : cx.setResource i r = cx := by
  obtain ⟨hlt, rfl⟩ := List.getElem?_eq_some_iff.mp hi
  unfold setResource
  rw [List.set_getElem_self]

theorem setResource_ne (h : i ≠ j) : (cx.setResource i r').resources[j]? = cx.resources[j]? :=
  List.getElem?_set_ne h

/-- The slot `i` comes to life holding `r`. -/
def createResource (cx : ApplyContext) (i : Nat) (r : Resource) : ApplyContext :=
  { cx with lifecycle := cx.lifecycle.set i .live, resources := cx.resources.set i r }

theorem frame_setResource (hi : cx.resources[i]? = some r)
    (hid : r'.id = r.id) (hacc : r'.accessType = r.accessType) : Frame cx (cx.setResource i r') where
  keys := map_set_of_eq hi (by rw [hid, hacc])
  tx := rfl
  context := rfl
  authCtx := rfl

theorem frame_setData (hi : cx.resources[i]? = some r) (d : List UInt8) :
    Frame cx (cx.setResource i (r.setData d)) := frame_setResource hi rfl rfl

theorem frame_createResource (hi : cx.resources[i]? = some r)
    (hid : r'.id = r.id) (hacc : r'.accessType = r.accessType) :
    Frame cx (cx.createResource i r') :=
  ⟨(frame_setResource hi hid hacc).keys, rfl, rfl, rfl⟩

section Ledger

variable {B : Battery} {st : Store}

theorem ledger_setData (hc : cx.Coherent) (hi : cx.resources[i]? = some r) (d : List UInt8) :
    (cx.setResource i (r.setData d)).ledger B st
      = Function.update (cx.ledger B st) r.id (Slot.parse B d) :=
  ledger_setResource hc hi rfl

theorem frame_createData (hi : cx.resources[i]? = some r) (d : List UInt8) :
    Frame cx (cx.createResource i (r.setData d)) := frame_createResource hi rfl rfl

theorem ledger_createData (hc : cx.Coherent) (hi : cx.resources[i]? = some r) (d : List UInt8) :
    (cx.createResource i (r.setData d)).ledger B st
      = Function.update (cx.ledger B st) r.id (Slot.parse B d) :=
  ledger_setResource hc hi rfl

theorem ledger_config (hc : cx.Coherent) (hi : cx.resources[i]? = some r) {c : ConfigBody}
    (h : ConfigBody.fromBytes B r.data = .ok c) : cx.ledger B st r.id = .config c :=
  (ledger_apply _ hc hi).trans (Slot.parse_eq_config.mpr h)

theorem ledger_user (hc : cx.Coherent) (hi : cx.resources[i]? = some r) {u : UserBody}
    (h : UserBody.fromBytes B r.data = .ok u) : cx.ledger B st r.id = .user u :=
  (ledger_apply _ hc hi).trans (Slot.parse_eq_user.mpr h)

theorem ledger_game (hc : cx.Coherent) (hi : cx.resources[i]? = some r) {g : GameBody}
    (h : GameBody.fromBytes r.data = .ok g) : cx.ledger B st r.id = .game g :=
  (ledger_apply _ hc hi).trans (Slot.parse_eq_game.mpr h)

theorem ledger_empty (hc : cx.Coherent) (hi : cx.resources[i]? = some r) (h : r.data = []) :
    cx.ledger B st r.id = .empty :=
  (ledger_apply _ hc hi).trans (Slot.parse_eq_empty.mpr h)

end Ledger

namespace Coherent

theorem lifecycle_at (hc : cx.Coherent) (hi : cx.resources[i]? = some r) :
    cx.lifecycle[i]? = some (Lifecycle.fromResource r) := by
  rw [hc.lifecycle, List.getElem?_map, hi]
  rfl

theorem setResource (hc : cx.Coherent) (hi : cx.resources[i]? = some r) (hid : r'.id = r.id)
    (hlive : r.data ≠ []) (hlive' : r'.data ≠ []) : (cx.setResource i r').Coherent where
  nodup := by
    show ((cx.resources.set i r').map Resource.id).Nodup
    rw [map_id_set hi hid]
    exact hc.nodup
  lifecycle := by
    show cx.lifecycle = (cx.resources.set i r').map Lifecycle.fromResource
    rw [hc.lifecycle]
    refine (map_set_of_eq hi ?_).symm
    rw [Lifecycle.fromResource, Lifecycle.fromResource, if_neg hlive, if_neg hlive']

theorem createResource (hc : cx.Coherent) (hi : cx.resources[i]? = some r) (hid : r'.id = r.id)
    (hlive' : r'.data ≠ []) : (cx.createResource i r').Coherent where
  nodup := by
    show ((cx.resources.set i r').map Resource.id).Nodup
    rw [map_id_set hi hid]
    exact hc.nodup
  lifecycle := by
    show cx.lifecycle.set i .live = (cx.resources.set i r').map Lifecycle.fromResource
    rw [hc.lifecycle, List.map_set, Lifecycle.fromResource, if_neg hlive']

theorem setData (hc : cx.Coherent) (hi : cx.resources[i]? = some r) {d : List UInt8}
    (hlive : r.data ≠ []) (hlive' : d ≠ []) : (cx.setResource i (r.setData d)).Coherent :=
  hc.setResource hi rfl hlive hlive'

theorem createData (hc : cx.Coherent) (hi : cx.resources[i]? = some r) {d : List UInt8}
    (hlive' : d ≠ []) : (cx.createResource i (r.setData d)).Coherent :=
  hc.createResource hi rfl hlive'

theorem id_ne (hc : cx.Coherent) (hi : cx.resources[i]? = some r)
    (hj : cx.resources[j]? = some r') (h : i ≠ j) : r.id ≠ r'.id := fun e =>
  h (index_unique hc.nodup hi hj e)

end Coherent

theorem idAt_of {k : UInt8} (hi : cx.resources[k.toNat]? = some r) : cx.idAt k = some r.id := by
  rw [idAt, hi]
  rfl

theorem exists_resource {k : UInt8} (h : k.toNat < cx.resources.length) :
    ∃ r, cx.resources[k.toNat]? = some r :=
  ⟨_, List.getElem?_eq_getElem h⟩

end ApplyContext

theorem UserBody.toBytes_ne_nil {u : UserBody} : u.toBytes ≠ [] := List.cons_ne_nil _ _

theorem GameBody.toBytes_ne_nil {g : GameBody} : g.toBytes ≠ [] := List.cons_ne_nil _ _

theorem data_ne_nil_of_user {B : Battery} {data : List UInt8} {u : UserBody}
    (h : UserBody.fromBytes B data = .ok u) : data ≠ [] := by
  rw [(UserBody.fromBytes_ok.mp h).1]
  exact List.cons_ne_nil _ _

/-- Rewriting a user but its lock keeps it parsing. -/
theorem parse_modified {B : Battery} {data : List UInt8} {u : UserBody} (u' : UserBody)
    (h : UserBody.fromBytes B data = .ok u) (htag : u'.lockTag = u.lockTag)
    (hbody : u'.lockBody = u.lockBody) : Slot.parse B u'.toBytes = .user u' :=
  Slot.parse_user (by rw [htag, hbody]; exact (UserBody.fromBytes_ok.mp h).2)

theorem data_ne_nil_of_game {data : List UInt8} {g : GameBody}
    (h : GameBody.fromBytes data = .ok g) : data ≠ [] := by
  rw [GameBody.fromBytes_ok.mp h]
  exact List.cons_ne_nil _ _

theorem data_ne_nil_of_config {B : Battery} {data : List UInt8} {c : ConfigBody}
    (h : ConfigBody.fromBytes B data = .ok c) : data ≠ [] := by
  rw [(ConfigBody.fromBytes_ok.mp h).1]
  exact List.cons_ne_nil _ _

/-! ## Rules -/

section Rules

variable {α : Type} {B : Battery} {cx : ApplyContext} {i : Nat} {r : Resource}

@[simp] theorem wp_err {Q : α → ApplyContext → Prop} {E : Fault → ApplyContext → Prop}
    (m : String) : wp (err m : Guest α) Q E cx ↔ E (.decode m) cx := Iff.rfl

theorem wp_resourceAt {Q : Resource → ApplyContext → Prop}
    {E : Fault → ApplyContext → Prop} (hi : cx.resources[i]? = some r) :
    wp (resourceAt i) Q E cx ↔ Q r cx := by
  simp only [resourceAt, wp_bind, wp_get, hi, wp_okOr_some]

theorem wp_onResource {Q : α → ApplyContext → Prop} {E : Fault → ApplyContext → Prop}
    {x : EStateM Fault Resource α} (hi : cx.resources[i]? = some r) :
    wp (onResource i x) Q E cx ↔
      wp x (fun a r' => Q a (cx.setResource i r')) (fun e r' => E e (cx.setResource i r')) r :=
  wp_zoom hi

theorem wp_lifecycleAt {Q : Lifecycle → ApplyContext → Prop}
    {E : Fault → ApplyContext → Prop} {l : Lifecycle} (hl : cx.lifecycle[i]? = some l) :
    wp (lifecycleAt i) Q E cx ↔ Q l cx := by
  simp only [lifecycleAt, wp_bind, wp_get, hl, wp_okOr_some]

theorem wp_markCreated {Q : Unit → ApplyContext → Prop} {E : Fault → ApplyContext → Prop}
    (hl : cx.lifecycle[i]? = some .new) :
    wp (markCreated i) Q E cx ↔ Q () { cx with lifecycle := cx.lifecycle.set i .live } := by
  simp only [markCreated, wp_bind, wp_lifecycleAt hl, if_true, wp_modify]

theorem wp_viewConfigAt {f : ConfigBody → α} {k : UInt8} {Q : α → ApplyContext → Prop}
    {E : Fault → ApplyContext → Prop} (hi : cx.resources[k.toNat]? = some r)
    (hE : (∀ c, ConfigBody.fromBytes B r.data ≠ .ok c) → ∀ m, E (.decode m) cx)
    (hQ : ∀ c, ConfigBody.fromBytes B r.data = .ok c → Q (f c) cx) :
    wp (viewConfigAt B k f) Q E cx := by
  simp only [viewConfigAt, wp_bind, wp_resourceAt hi, wp_okOr]
  refine ⟨fun a ha => ?_, fun hnone => hE (fun c hc => ?_) _⟩
  · obtain ⟨c, hc, rfl⟩ := viewBody_eq_some.mp ha
    exact hQ c hc
  · rw [viewConfig, viewBody, hc] at hnone
    cases hnone

variable (B cx) in
/-- A stored lock that can be read can be tried. -/
theorem lockOpens_ok {lock : Except Fault LockEnum} {l : LockEnum} (hl : lock = .ok l)
    (k : UInt8) : ∃ b, lockOpens B lock k cx.authCtx = .ok b ∧ (b = true ↔ Opens B lock k cx) := by
  refine ⟨l.unlock B k cx.authCtx, by rw [lockOpens, hl]; rfl, fun hb => ⟨l, hl, hb⟩, ?_⟩
  rintro ⟨l', hl', hb⟩
  rw [hl] at hl'
  cases hl'
  exact hb

/-- The preamble: a live user whose lock opens at its index, or a refusal. -/
theorem wp_requireUserLock {k : UInt8} {m₁ m₂ : String} {Q : UserBody → ApplyContext → Prop}
    {E : Fault → ApplyContext → Prop} (hi : cx.resources[k.toNat]? = some r)
    (hE : (∀ u, UserBody.fromBytes B r.data = .ok u → ¬ Opens B u.lock k cx) →
      ∀ m, E (.decode m) cx)
    (hQ : ∀ u, UserBody.fromBytes B r.data = .ok u → Opens B u.lock k cx → Q u cx) :
    wp (requireUserLock B k m₁ m₂) Q E cx := by
  simp only [requireUserLock, wp_bind, wp_get, wp_resourceAt hi, wp_okOr]
  refine ⟨?_, fun hnone => hE (fun u hu => ?_) _⟩
  · rintro ⟨opens, v⟩ ha
    obtain ⟨u, hu, e⟩ := viewBody_eq_some.mp ha
    obtain ⟨rfl, rfl⟩ := Prod.mk.inj e
    obtain ⟨l, hl, -⟩ := UserBody.lock_of_fromBytes hu
    obtain ⟨b, hb, hopens⟩ := lockOpens_ok B cx hl k
    simp only [hb, wp_liftE_ok]
    cases b with
    | true => exact hQ u hu (hopens.mp rfl)
    | false =>
      refine hE (fun u' hu' hop => ?_) _
      rw [hu] at hu'
      cases hu'
      exact absurd (hopens.mpr hop) (by decide)
  · rw [viewUser, viewBody, hu] at hnone
    cases hnone

/-- A writable live user is modified in place, or nothing happens. -/
theorem wp_modifyUserAt {f : EStateM Fault UserBody Unit} {m : String}
    {Q : Unit → ApplyContext → Prop} {E : Fault → ApplyContext → Prop}
    (hi : cx.resources[i]? = some r)
    (hE : (r.isWritable = true → ∀ u, UserBody.fromBytes B r.data ≠ .ok u) → E (.decode m) cx)
    (hQ : ∀ u, r.isWritable = true → UserBody.fromBytes B r.data = .ok u →
      wp f (fun _ u' => Q () (cx.setResource i (r.setData u'.toBytes)))
        (fun e u' => E e (cx.setResource i (r.setData u'.toBytes))) u) :
    wp (modifyUserAt B i f m) Q E cx := by
  simp only [modifyUserAt, wp_bind, wp_onResource hi]
  refine wp_modifyBody (fun hno => ?_) fun u hw hu => ?_
  · have hself : cx.setResource i r = cx := ApplyContext.setResource_unchanged hi
    rw [hself]
    exact hE hno
  · exact hQ u hw hu

/-- The same where the user stored at `i` is known. -/
theorem wp_modifyKnownUser {f : EStateM Fault UserBody Unit} {m : String}
    {Q : Unit → ApplyContext → Prop} {E : Fault → ApplyContext → Prop} {u : UserBody}
    (hi : cx.resources[i]? = some r) (hu : UserBody.fromBytes B r.data = .ok u)
    (hE : E (.decode m) cx)
    (hQ : wp f (fun _ u' => Q () (cx.setResource i (r.setData u'.toBytes)))
      (fun e u' => E e (cx.setResource i (r.setData u'.toBytes))) u) :
    wp (modifyUserAt B i f m) Q E cx := by
  refine wp_modifyUserAt hi (fun _ => hE) fun u' _ hu' => ?_
  obtain rfl : u = u' := Except.ok.inj (hu.symm.trans hu')
  exact hQ

/-- The same for a game, whose closure also logs plies. -/
theorem wp_modifyGameAt {f : PlayM α} {m : String} {Q : α → ApplyContext → Prop}
    {E : Fault → ApplyContext → Prop} (hi : cx.resources[i]? = some r)
    (hE : (r.isWritable = true → ∀ g, GameBody.fromBytes r.data ≠ .ok g) → E (.decode m) cx)
    (hQ : ∀ g, r.isWritable = true → GameBody.fromBytes r.data = .ok g →
      wp f (fun a p => Q a (cx.setResource i (r.setData p.game.toBytes)))
        (fun e p => E e (cx.setResource i (r.setData p.game.toBytes))) ⟨g, []⟩) :
    wp (onResource i (modifyGame f))
      (fun res cx' => wp (okOr (.decode m) res) Q E cx') E cx := by
  rw [wp_onResource hi]
  refine wp_modifyBody (fun hno => ?_) fun g hw hg => ?_
  · have hself : cx.setResource i r = cx := ApplyContext.setResource_unchanged hi
    rw [hself]
    exact hE hno
  · exact (wp_zoom_some _).mpr (hQ g hw hg)

theorem wp_validateUserCreate {slotId : ResourceId} {lock : LockEnum} {funding min : UInt64}
    {Q : Bytes32 → ApplyContext → Prop} {E : Fault → ApplyContext → Prop}
    (hE : ¬ (slotId = deriveUserResource B (lock.idHash B) ∧ ¬ funding < min) →
      ∀ m, E (.decode m) cx)
    (hQ : slotId = deriveUserResource B (lock.idHash B) → ¬ funding < min →
      Q (lock.idHash B) cx) :
    wp (liftE (validateUserCreate B slotId lock funding min)) Q E cx := by
  unfold validateUserCreate
  by_cases hid : slotId = deriveUserResource B (lock.idHash B)
  · by_cases hmin : funding < min
    · simp only [ne_eq, hid, not_true_eq_false, if_false, hmin, if_true, wp_liftE_error]
      exact hE (fun h => h.2 hmin) _
    · simp only [ne_eq, hid, not_true_eq_false, if_false, hmin, wp_liftE_ok]
      exact hQ hid hmin
  · simp only [ne_eq, hid, not_false_eq_true, if_true, wp_liftE_error]
    exact hE (fun h => hid h.1) _

/-! ## Balance closures -/

theorem wp_debitBalance {amount : UInt64} {m : String} {Q : Unit → UserBody → Prop}
    {E : Fault → UserBody → Prop} {u : UserBody}
    (hE : ¬ amount.toNat ≤ u.balance.toNat → E (.decode m) u)
    (hQ : ∀ b : UInt64, b.toNat + amount.toNat = u.balance.toNat → Q () { u with balance := b }) :
    wp (debitBalance amount m) Q E u := by
  simp only [debitBalance, wp_bind, wp_get, wp_okOr, wp_set]
  refine ⟨fun b hb => hQ b (checkedSub_eq_some.mp hb), fun hnone => hE fun hle => ?_⟩
  rw [checkedSub, if_pos hle] at hnone
  cases hnone

theorem wp_creditBalance {amount : UInt64} {m : String} {Q : Unit → UserBody → Prop}
    {E : Fault → UserBody → Prop} {u : UserBody}
    (hE : ¬ u.balance.toNat + amount.toNat < 2 ^ 64 → E (.decode m) u)
    (hQ : ∀ b : UInt64, b.toNat = u.balance.toNat + amount.toNat → Q () { u with balance := b }) :
    wp (creditBalance amount m) Q E u := by
  simp only [creditBalance, wp_bind, wp_get, wp_okOr, wp_set]
  refine ⟨fun b hb => hQ b (checkedAdd_eq_some.mp hb), fun hnone => hE fun hlt => ?_⟩
  rw [checkedAdd, if_pos hlt] at hnone
  cases hnone

end Rules

end TicTacToe
