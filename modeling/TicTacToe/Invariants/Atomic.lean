/-
TicTacToe.Invariants.Atomic — what a refused action leaves behind.

The four handlers that move funds check first and write then, and some of
what they check comes after the first write: that the second slot is
declared writable, is of the right kind or empty, and that the last sum
does not overflow. `LateFailure` says, for each of them, which contexts
reach such a check and fail it; `fund_moving_atomic` that these are exactly
the contexts in which a refused action has already changed something.

No `sorry`, no `axiom`, no `native_decide`.
-/
import TicTacToe.Ledger.Games
import TicTacToe.Rollup

namespace TicTacToe

open Lib

/-- Every resource's bytes, every slot's lifecycle and the consumed outputs
are as before. -/
structure Untouched (cx cx' : ApplyContext) : Prop where
  bytes : cx'.resources.map Resource.data = cx.resources.map Resource.data
  lifecycle : cx'.lifecycle = cx.lifecycle
  consumed : cx'.consumedOutputs = cx.consumedOutputs

/-- If `x` returns `Err`, it leaves nothing behind. -/
def Atomic (x : Guest Unit) (cx : ApplyContext) : Prop :=
  ∀ e cx', x cx = .error e cx' → e.IsReject → Untouched cx cx'

/-! ## Failing after a write -/

/-- A live user whose lock opens at its index. -/
structure Spender (B : Battery) (cx : ApplyContext) (i : UInt8) (r : Resource) (u : UserBody) :
    Prop where
  resource : cx.resources[i.toNat]? = some r
  parses : UserBody.fromBytes B r.data = .ok u
  opens : Opens B u.lock i cx

/-- `Err` of the `init_*` combinators. -/
def Resource.Refuses (r : Resource) : Prop := r.isWritable = false ∨ r.data ≠ []

/-- Every check before the debit passes, and the debit of `amount` succeeds. -/
structure CanPay (B : Battery) (cx : ApplyContext) (i : UInt8) (amount : UInt64) (r : Resource)
    (u : UserBody) : Prop extends Spender B cx i r u where
  writable : r.isWritable = true
  funded : amount.toNat ≤ u.balance.toNat

/-- The stake is taken, and then the counter overflows or the slot refuses
the game. -/
def LateCreateGame (B : Battery) (cx : ApplyContext) (ci gi : UInt8) (stake : UInt64)
    (rounds : UInt8) (mark : Cell) : Prop :=
  ∃ r u q, rounds ≠ 0 ∧ cx.lifecycle[gi.toNat]? = some .new ∧ CanPay B cx ci stake r u ∧
    cx.resources[gi.toNat]? = some q ∧
    q.id = deriveGameResource B u.initialLockHash u.gamesStarted ∧
    if u.gamesStarted.toNat + 1 < 2 ^ 64 then q.Refuses ∨ mark = .empty else stake ≠ 0

/-- A stake is taken, and then the game turns out not to be writable. -/
def LateJoinGame (B : Battery) (cx : ApplyContext) (gi ji : UInt8) : Prop :=
  ∃ r u q g, cx.resources[gi.toNat]? = some q ∧ GameBody.fromBytes q.data = .ok g ∧
    g.state = .open ∧ r.id ≠ g.creator ∧ CanPay B cx ji g.stake r u ∧ g.stake ≠ 0 ∧
    q.isWritable = false

/-- The amount is taken, and then the destination cannot be created or
credited. -/
def LateTransfer (B : Battery) (P : DepositPolicy) (cx : ApplyContext) (s d : UInt8)
    (amount : UInt64) (lock : Option LockEnum) : Prop :=
  ∃ r u q l, s ≠ d ∧ cx.lifecycle[d.toNat]? = some l ∧ l ≠ .deleted ∧
    cx.resources[d.toNat]? = some q ∧ CanPay B cx s amount r u ∧ amount ≠ 0 ∧
    if l = .new then
      (∃ lk, lock = some lk ∧ q.id = deriveUserResource B (lk.idHash B) ∧
        ¬ amount < P.minCreateBalance) ∧ q.Refuses
    else
      q.isWritable = true → ∀ w, UserBody.fromBytes B q.data = .ok w →
        ¬ w.balance.toNat + amount.toNat < 2 ^ 64

/-- The slot passes the checks of a deposit of `value` under `lock`. -/
def Creditable (B : Battery) (P : DepositPolicy) (target : CreditTarget) (lock : LockEnum)
    (value : UInt64) (q : Resource) : Lifecycle → Prop
  | .new => target.createWith.isSome = true ∧ q.id = deriveUserResource B (lock.idHash B) ∧
      ¬ value < P.minCreateBalance
  | .live => ∃ w, UserBody.fromBytes B q.data = .ok w ∧ w.initialLockHash = lock.idHash B ∧
      w.balance.toNat + value.toNat < 2 ^ 64
  | .deleted => False

/-- The output is consumed, and then the slot cannot be written. -/
def LateDeposit (B : Battery) (P : DepositPolicy) (cx : ApplyContext) (ui ci : UInt8)
    (oi : UInt32) (lock : LockEnum) : Prop :=
  ∃ rc c out target q l sink, oi ∉ cx.consumedOutputs ∧ cx.resources[ci.toNat]? = some rc ∧
    ConfigBody.fromBytes B rc.data = .ok c ∧
    B.parseOutputAtIndexV1 cx.tx.restPreimage oi = some out ∧ out.spkVersion = 0 ∧
    out.spk = P.depositSpk ⟨ui, oi, lock⟩ c.covenantId ∧
    P.creditTarget ⟨ui, oi, lock⟩ = .ok target ∧
    cx.resources[target.userIdx.toNat]? = some q ∧
    cx.lifecycle[target.userIdx.toNat]? = some l ∧
    Creditable B P target lock out.value q l ∧
    B.depositSet cx.deposit (B.delegateEntrySpkHash c.covenantId) = .ok sink ∧
    (q.isWritable = false ∨ (l = .new ∧ q.data ≠ []))

section Ends

variable {B : Battery} {P : DepositPolicy} {cx cx' : ApplyContext} {late : Prop} {e : Fault}
  {m : String} {r r' : Resource} {u : UserBody} {i j : Nat}

theorem Untouched.refl (cx : ApplyContext) : Untouched cx cx := ⟨rfl, rfl, rfl⟩

/-- An error of a handler that fails late exactly when `late` holds. -/
def Ends (late : Prop) (cx : ApplyContext) (e : Fault) (cx' : ApplyContext) : Prop :=
  (¬ late ∧ (e.IsReject → Untouched cx cx')) ∨ (late ∧ e.IsReject ∧ ¬ Untouched cx cx')

theorem ends_early (h : ¬ late) : Ends late cx e cx := .inl ⟨h, fun _ => .refl cx⟩

theorem ends_late (h : late) (ht : ¬ Untouched cx cx') : Ends late cx (.decode m) cx' :=
  .inr ⟨h, trivial, ht⟩

theorem atomic_iff {x : Guest Unit} (h : wp x (fun _ _ => ¬ late) (Ends late cx) cx) :
    Atomic x cx ↔ ¬ late := by
  constructor
  · intro hat hlate
    cases hx : x cx with
    | ok a cx' => exact h.ok hx hlate
    | error e cx' =>
      rcases h.error hx with hearly | ⟨-, hrej, ht⟩
      · exact hearly.1 hlate
      · exact ht (hat e cx' hx hrej)
  · intro hnot e cx' hx hrej
    rcases h.error hx with hearly | ⟨hlate, -⟩
    · exact hearly.2 hrej
    · exact absurd hlate hnot

/-- A slot with other bytes is not as before. -/
theorem touched_data (hi : cx.resources[i]? = some r) (hi' : cx'.resources[i]? = some r')
    (hne : r'.data ≠ r.data) : ¬ Untouched cx cx' := by
  intro h
  have hat := congrArg (·[i]?) h.bytes
  simp only [List.getElem?_map, hi, hi', Option.map_some, Option.some.injEq] at hat
  exact hne hat

theorem touched_lifecycle (h : cx'.lifecycle ≠ cx.lifecycle) : ¬ Untouched cx cx' :=
  fun ht => h ht.lifecycle

theorem born_ne (hl : cx.lifecycle[i]? = some .new) : cx.lifecycle.set i .live ≠ cx.lifecycle := by
  intro h
  have hat := congrArg (·[i]?) h
  obtain ⟨hlt, -⟩ := List.getElem?_eq_some_iff.mp hl
  simp only [List.getElem?_set_self hlt, hl, Option.some.injEq, reduceCtorEq] at hat

/-- Another balance is other bytes. -/
theorem balance_ne (hu : UserBody.fromBytes B r.data = .ok u) {b : UInt64} {amount : UInt64}
    (hb : b.toNat + amount.toNat = u.balance.toNat) (hne : amount ≠ 0) :
    (r.setData (UserBody.toBytes { u with balance := b })).data ≠ r.data := by
  intro h
  obtain ⟨-, hlock⟩ := UserBody.fromBytes_ok.mp hu
  have hnew : UserBody.fromBytes B r.data = .ok { u with balance := b } :=
    UserBody.fromBytes_ok.mpr ⟨h.symm, hlock⟩
  rw [hu] at hnew
  have hbal : u.balance = b := congrArg UserBody.balance (Except.ok.inj hnew)
  rw [hbal] at hb
  exact hne (UInt64.toNat_inj.mp (by simpa using hb))

theorem setData_toBytes (hu : UserBody.fromBytes B r.data = .ok u) : r.setData u.toBytes = r := by
  rw [← (UserBody.fromBytes_ok.mp hu).1]
  rfl

theorem setResource_toBytes (hi : cx.resources[i]? = some r)
    (hu : UserBody.fromBytes B r.data = .ok u) : cx.setResource i (r.setData u.toBytes) = cx := by
  rw [setData_toBytes hu]
  exact ApplyContext.setResource_unchanged hi

theorem wp_resourceAt_none {Q : Resource → ApplyContext → Prop} {E : Fault → ApplyContext → Prop}
    (hi : cx.resources[i]? = none) : wp (resourceAt i) Q E cx ↔ E .panic cx := by
  simp only [resourceAt, wp_bind, wp_get, hi, wp_okOr_none]

theorem wp_lifecycleAt_none {Q : Lifecycle → ApplyContext → Prop}
    {E : Fault → ApplyContext → Prop} (hi : cx.lifecycle[i]? = none) :
    wp (lifecycleAt i) Q E cx ↔ E .panic cx := by
  simp only [lifecycleAt, wp_bind, wp_get, hi, wp_okOr_none]

/-- The preamble of a handler: a spender, or an early end. -/
theorem wp_spender {k : UInt8} {m₁ m₂ : String} {Q : UserBody → ApplyContext → Prop}
    (hE : (∀ r u, ¬ Spender B cx k r u) → ¬ late)
    (hQ : ∀ r u, Spender B cx k r u → Q u cx) :
    wp (requireUserLock B k m₁ m₂) Q (Ends late cx) cx := by
  cases hr : cx.resources[k.toNat]? with
  | none =>
    simp only [requireUserLock, wp_bind, wp_get, wp_resourceAt_none hr]
    refine ends_early (hE fun r u h => ?_)
    rw [h.resource] at hr
    cases hr
  | some r =>
    refine wp_requireUserLock hr (fun hno _ => ends_early (hE fun r' u h => ?_))
      fun u hu hop => hQ r u ⟨hr, hu, hop⟩
    obtain rfl := Option.some.inj (hr.symm.trans h.resource)
    exact hno u h.parses h.opens

/-- A debit that was announced: it fails early, or the balance is taken. -/
theorem wp_debit {amount : UInt64} {k : UInt8} {m₁ m₂ : String} {Q : Unit → ApplyContext → Prop}
    (hs : Spender B cx k r u) (hE : ¬ CanPay B cx k amount r u → ¬ late)
    (hQ : ∀ b : UInt64, CanPay B cx k amount r u → b.toNat + amount.toNat = u.balance.toNat →
      Q () (cx.setResource k.toNat (r.setData (UserBody.toBytes { u with balance := b })))) :
    wp (modifyUserAt B k.toNat (debitBalance amount m₁) m₂) Q (Ends late cx) cx := by
  refine wp_modifyUserAt hs.resource (fun hno => ends_early (hE fun h => ?_)) fun u' hw hu' => ?_
  · exact hno h.writable u hs.parses
  · obtain rfl := Except.ok.inj (hs.parses.symm.trans hu')
    refine wp_debitBalance (fun hle => ?_) fun b hb => hQ b ⟨hs, hw, by omega⟩ hb
    rw [setResource_toBytes hs.resource hs.parses]
    exact ends_early (hE fun h => hle h.funded)

theorem Spender.unique {k : UInt8} {u' : UserBody} (h : Spender B cx k r u)
    (h' : Spender B cx k r' u') : r = r' ∧ u = u' := by
  obtain rfl := Option.some.inj (h.resource.symm.trans h'.resource)
  exact ⟨rfl, Except.ok.inj (h.parses.symm.trans h'.parses)⟩

theorem wp_initUser_refuses {balance : UInt64} {ilh : Bytes32} {lock : LockEnum}
    {Q : Unit → Resource → Prop} {E : Fault → Resource → Prop}
    (hbad : r.Refuses → ∀ m, E (.decode m) r) (hok : ¬ r.Refuses → ∀ r', Q () r') :
    wp (initUser balance ilh lock) Q E r := by
  refine wp_initUser (fun hw => hbad (.inl hw) _) (fun hd => hbad (.inr hd) _) fun hw hd => ?_
  refine hok (fun h => ?_) _
  rcases h with hro | hfull
  · rw [hw] at hro
    cases hro
  · exact hfull hd

theorem wp_initGame_refuses {creator : ResourceId} {mark : Cell} {stake : UInt64} {rounds : UInt8}
    {Q : Unit → Resource → Prop} {E : Fault → Resource → Prop}
    (hbad : r.Refuses ∨ mark = .empty → ∀ m r', E (.decode m) r')
    (hok : ¬ (r.Refuses ∨ mark = .empty) → ∀ r', Q () r') :
    wp (initGame creator mark stake rounds) Q E r := by
  by_cases hmark : mark = .empty
  · simp only [initGame, wp_bind, wp_get]
    by_cases hw : (!r.isWritable) = true
    · rw [if_pos hw]
      exact hbad (.inr hmark) _ _
    · rw [if_neg hw]
      by_cases hd : r.data ≠ []
      · rw [if_pos hd]
        exact hbad (.inr hmark) _ _
      · have hwrite : writeGame (r.resize gameWireLen).data creator mark stake rounds
            = .error (.decode "game: creator_mark must be X or O") := by
          have hlen := Resource.length_resize r gameWireLen
          simp only [writeGame, hlen, hmark, ne_eq, not_true_eq_false, if_false, if_true]
          rfl
        rw [if_neg hd]
        simp only [wp_bind, wp_set, hwrite, wp_liftE_error]
        exact hbad (.inr hmark) _ _
  · refine wp_initGame hmark (fun hw => hbad (.inl (.inl hw)) _ _)
      (fun hd => hbad (.inl (.inr hd)) _ _) fun hw hd => hok (fun h => ?_) _
    rcases h with (hro | hfull) | hm
    · rw [hw] at hro
      cases hro
    · exact hfull hd
    · exact hmark hm

end Ends

/-! ## The four handlers -/

section Handlers

variable {B : Battery} {P : DepositPolicy} {cx : ApplyContext}

theorem wp_createGame_late {ci gi : UInt8} {stake : UInt64} {rounds : UInt8} {mark : Cell} :
    wp (applyCreateGame B ci gi stake rounds mark)
      (fun _ _ => ¬ LateCreateGame B cx ci gi stake rounds mark)
      (Ends (LateCreateGame B cx ci gi stake rounds mark) cx) cx := by
  unfold applyCreateGame
  by_cases hrounds : rounds = 0
  · rw [if_pos hrounds]
    refine ends_early ?_
    intro hall
    obtain ⟨_, _, _, h, _⟩ := hall
    exact h hrounds
  rw [if_neg hrounds, wp_bind]
  cases hl : cx.lifecycle[gi.toNat]? with
  | none =>
    rw [wp_lifecycleAt_none hl]
    refine ends_early ?_
    intro hall
    obtain ⟨_, _, _, _, h, _⟩ := hall
    rw [hl] at h
    cases h
  | some l =>
  rw [wp_lifecycleAt hl]
  by_cases hnew : l = .new
  swap
  · rw [if_pos hnew]
    refine ends_early ?_
    intro hall
    obtain ⟨_, _, _, _, h, _⟩ := hall
    refine hnew ?_
    rw [hl] at h
    exact Option.some.inj h
  subst hnew
  simp only [ne_eq, not_true_eq_false, if_false, wp_bind]
  refine wp_spender (fun hno hall => ?_) fun r u hs => ?_
  · obtain ⟨r, u, _, _, _, h, _⟩ := hall
    exact hno r u h.toSpender
  cases hq : cx.resources[gi.toNat]? with
  | none =>
    rw [wp_resourceAt_none hq]
    refine ends_early ?_
    intro hall
    obtain ⟨_, _, _, _, _, _, h, _⟩ := hall
    rw [hq] at h
    cases h
  | some q =>
  rw [wp_resourceAt hq]
  -- what is left to decide, once the creator and the slot are known
  have hlate : LateCreateGame B cx ci gi stake rounds mark ↔
      CanPay B cx ci stake r u ∧
      q.id = deriveGameResource B u.initialLockHash u.gamesStarted ∧
      if u.gamesStarted.toNat + 1 < 2 ^ 64 then q.Refuses ∨ mark = .empty else stake ≠ 0 := by
    constructor
    · intro hall
      obtain ⟨r', u', q', _, _, hpay, hq', htail⟩ := hall
      obtain ⟨rfl, rfl⟩ := hs.unique hpay.toSpender
      obtain rfl := Option.some.inj (hq.symm.trans hq')
      exact ⟨hpay, htail⟩
    · intro hall
      obtain ⟨hpay, htail⟩ := hall
      exact ⟨r, u, q, hrounds, hl, hpay, hq, htail⟩
  by_cases hid : q.id = deriveGameResource B u.initialLockHash u.gamesStarted
  swap
  · rw [if_pos hid]
    exact ends_early fun h => hid (hlate.mp h).2.1
  rw [if_neg (not_not.mpr hid), wp_bind]
  refine wp_modifyUserAt hs.resource (fun hno => ends_early fun h => ?_) fun u' hw hu' => ?_
  · exact hno (hlate.mp h).1.writable u hs.parses
  obtain rfl := Except.ok.inj (hs.parses.symm.trans hu')
  rw [debitCreator, wp_bind]
  refine wp_debitBalance (fun hle => ?_) fun b hb => ?_
  · rw [setResource_toBytes hs.resource hs.parses]
    exact ends_early fun h => hle (hlate.mp h).1.funded
  have hpay : CanPay B cx ci stake r u := ⟨hs, hw, by omega⟩
  rw [wp_bind, wp_get, wp_bind, wp_okOr]
  refine ⟨fun n hn => ?_, fun hover => ?_⟩
  · -- the creator is debited, the counter advanced; the slot may still refuse
    have hroom : u.gamesStarted.toNat + 1 < 2 ^ 64 := by
      have := checkedAdd_eq_some.mp hn
      have := n.toNat_lt
      rw [UInt64.toNat_one] at *
      omega
    rw [if_pos hroom] at hlate
    rw [wp_set, wp_bind]
    set u₁ : UserBody := { u with balance := b, gamesStarted := n } with hu₁
    set cx₁ := cx.setResource ci.toNat (r.setData u₁.toBytes) with hcx₁
    have hl₁ : cx₁.lifecycle[gi.toNat]? = some .new := hl
    rw [wp_markCreated hl₁, wp_bind]
    set cx₂ : ApplyContext := { cx₁ with lifecycle := cx₁.lifecycle.set gi.toNat .live } with hcx₂
    have hr₂ : cx₂.resources[ci.toNat]? = some (r.setData u₁.toBytes) :=
      ApplyContext.setResource_self hs.resource
    rw [wp_resourceAt hr₂]
    obtain ⟨q₂, hq₂, hrefuses⟩ : ∃ q₂, cx₂.resources[gi.toNat]? = some q₂ ∧
        (q₂.Refuses ↔ q.Refuses) := by
      by_cases hsame : ci.toNat = gi.toNat
      · refine ⟨_, hsame ▸ hr₂, ?_⟩
        have hrq := hs.resource
        rw [hsame, hq] at hrq
        cases hrq
        exact iff_of_true (.inr UserBody.toBytes_ne_nil) (.inr (data_ne_nil_of_user hs.parses))
      · exact ⟨q, (ApplyContext.setResource_ne hsame).trans hq, Iff.rfl⟩
    rw [wp_onResource hq₂]
    refine wp_initGame_refuses (fun hbad m r' => ?_) fun hok r' h => hok ?_
    · rw [hrefuses] at hbad
      exact ends_late (hlate.mpr ⟨hpay, hid, hbad⟩) (touched_lifecycle (born_ne hl))
    · rw [hrefuses]
      exact (hlate.mp h).2.2
  · -- the counter is at its end, after the debit
    have hfull : ¬ u.gamesStarted.toNat + 1 < 2 ^ 64 := by
      intro hlt
      rw [checkedAdd, if_pos (by simpa using hlt)] at hover
      cases hover
    rw [if_neg hfull] at hlate
    by_cases hstake : stake = 0
    · subst hstake
      have hbal : b = u.balance := UInt64.toNat_inj.mp (by simpa using hb)
      subst hbal
      have hsame : cx.setResource ci.toNat (r.setData u.toBytes) = cx :=
        setResource_toBytes hs.resource hs.parses
      show Ends _ cx _ (cx.setResource ci.toNat (r.setData u.toBytes))
      rw [hsame]
      exact ends_early fun h => (hlate.mp h).2.2 rfl
    · refine ends_late (hlate.mpr ⟨hpay, hid, hstake⟩) ?_
      exact touched_data hs.resource (ApplyContext.setResource_self hs.resource)
        (balance_ne hs.parses hb hstake)

theorem wp_joinGame_late {gi ji : UInt8} :
    wp (applyJoinGame B gi ji) (fun _ _ => ¬ LateJoinGame B cx gi ji)
      (Ends (LateJoinGame B cx gi ji) cx) cx := by
  unfold applyJoinGame
  rw [wp_bind]
  refine wp_spender (fun hno hall => ?_) fun r u hs => ?_
  · obtain ⟨r, u, _, _, _, _, _, _, h, _⟩ := hall
    exact hno r u h.toSpender
  rw [wp_bind]
  cases hq : cx.resources[gi.toNat]? with
  | none =>
    rw [wp_resourceAt_none hq]
    refine ends_early ?_
    intro hall
    obtain ⟨_, _, _, _, h, _⟩ := hall
    rw [hq] at h
    cases h
  | some q =>
  rw [wp_resourceAt hq, wp_bind, wp_okOr]
  refine ⟨?_, fun hnone => ends_early ?_⟩
  swap
  · intro hall
    obtain ⟨_, _, q', g, h, hg, _⟩ := hall
    obtain rfl := Option.some.inj (hq.symm.trans h)
    rw [viewGame, viewBody, hg] at hnone
    cases hnone
  intro view hview
  obtain ⟨state, creator, stake⟩ := view
  obtain ⟨g, hg, heq⟩ := viewBody_eq_some.mp hview
  cases heq
  dsimp only
  have hlate : LateJoinGame B cx gi ji ↔ g.state = .open ∧ r.id ≠ g.creator ∧
      CanPay B cx ji g.stake r u ∧ g.stake ≠ 0 ∧ q.isWritable = false := by
    constructor
    · intro hall
      obtain ⟨r', u', q', g', hq', hg', hopen, hother, hpay, htail⟩ := hall
      obtain ⟨rfl, rfl⟩ := hs.unique hpay.toSpender
      obtain rfl := Option.some.inj (hq.symm.trans hq')
      obtain rfl := Except.ok.inj (hg.symm.trans hg')
      exact ⟨hopen, hother, hpay, htail⟩
    · intro hall
      obtain ⟨hopen, hother, hpay, htail⟩ := hall
      exact ⟨r, u, q, g, hq, hg, hopen, hother, hpay, htail⟩
  by_cases hopen : g.state = .open
  swap
  · rw [if_pos hopen]
    exact ends_early fun h => hopen (hlate.mp h).1
  rw [if_neg (not_not.mpr hopen), wp_bind, wp_resourceAt hs.resource]
  by_cases hself : r.id = g.creator
  · rw [if_pos hself]
    exact ends_early fun h => (hlate.mp h).2.1 hself
  rw [if_neg hself, wp_bind]
  refine wp_debit hs (fun hno h => hno (hlate.mp h).2.2.1) fun b hpay hb => ?_
  -- the joiner holds a user, so the game is another slot
  have hne : ji.toNat ≠ gi.toNat := by
    intro e
    have hrq := hs.resource
    rw [e, hq] at hrq
    cases hrq
    have huser := (UserBody.fromBytes_ok.mp hs.parses).1
    cases Slot.kind_unique huser (GameBody.fromBytes_ok.mp hg)
  set cx₁ := cx.setResource ji.toNat (r.setData (UserBody.toBytes { u with balance := b }))
    with hcx₁
  have hq₁ : cx₁.resources[gi.toNat]? = some q := (ApplyContext.setResource_ne hne).trans hq
  have hr₁ : cx₁.resources[ji.toNat]?
      = some (r.setData (UserBody.toBytes { u with balance := b })) :=
    ApplyContext.setResource_self hs.resource
  rw [wp_bind, wp_get, wp_bind]
  refine wp_modifyGameAt hq₁ (fun hno => ?_) fun g' hw hg' => ?_
  · -- the game cannot be written
    have hro : q.isWritable = false := by
      cases hw : q.isWritable with
      | false => rfl
      | true => exact absurd hg (hno hw g)
    by_cases hstake : g.stake = 0
    · rw [hstake] at hb
      have hbal : b = u.balance := UInt64.toNat_inj.mp (by simpa using hb)
      have hsame : cx₁ = cx := by
        rw [hcx₁, hbal]
        exact setResource_toBytes hs.resource hs.parses
      rw [hsame]
      exact ends_early fun h => (hlate.mp h).2.2.2.1 hstake
    · refine ends_late (hlate.mpr ⟨hopen, hself, hpay, hstake, hro⟩) ?_
      exact touched_data hs.resource hr₁ (balance_ne hs.parses hb hstake)
  · rw [wp_modify]
    intro h
    have hro := (hlate.mp h).2.2.2.2
    rw [hw] at hro
    cases hro

theorem wp_transfer_late {s d : UInt8} {amount : UInt64} {lock : Option LockEnum} :
    wp (applyTransfer B P s d amount lock) (fun _ _ => ¬ LateTransfer B P cx s d amount lock)
      (Ends (LateTransfer B P cx s d amount lock) cx) cx := by
  unfold applyTransfer
  by_cases hsd : s = d
  · rw [if_pos hsd]
    refine ends_early ?_
    intro hall
    obtain ⟨_, _, _, _, h, _⟩ := hall
    exact h hsd
  have hne : s.toNat ≠ d.toNat := fun e => hsd (UInt8.toNat_inj.mp e)
  rw [if_neg hsd, wp_bind]
  cases hl : cx.lifecycle[d.toNat]? with
  | none =>
    rw [wp_lifecycleAt_none hl]
    refine ends_early ?_
    intro hall
    obtain ⟨_, _, _, _, _, h, _⟩ := hall
    rw [hl] at h
    cases h
  | some l =>
  rw [wp_lifecycleAt hl]
  by_cases hdel : l = .deleted
  · rw [if_pos hdel]
    refine ends_early ?_
    intro hall
    obtain ⟨_, _, _, l', _, h, hno, _⟩ := hall
    refine hno ?_
    rw [← Option.some.inj (hl.symm.trans h)]
    exact hdel
  rw [if_neg hdel, wp_bind, wp_get]
  by_cases hbounds : s.toNat ≥ cx.resources.length ∨ d.toNat ≥ cx.resources.length
  · rw [if_pos hbounds]
    refine ends_early ?_
    intro hall
    obtain ⟨_, _, _, _, _, _, _, hd, hpay, _⟩ := hall
    have hslt := (List.getElem?_eq_some_iff.mp hpay.resource).1
    have hdlt := (List.getElem?_eq_some_iff.mp hd).1
    omega
  rw [if_neg hbounds, wp_bind]
  obtain ⟨q, hq⟩ : ∃ q, cx.resources[d.toNat]? = some q := ApplyContext.exists_resource (by omega)
  refine wp_spender (fun hno hall => ?_) fun r u hs => ?_
  · obtain ⟨r, u, _, _, _, _, _, _, h, _⟩ := hall
    exact hno r u h.toSpender
  have hlate : LateTransfer B P cx s d amount lock ↔ CanPay B cx s amount r u ∧ amount ≠ 0 ∧
      if l = .new then
        (∃ lk, lock = some lk ∧ q.id = deriveUserResource B (lk.idHash B) ∧
          ¬ amount < P.minCreateBalance) ∧ q.Refuses
      else
        q.isWritable = true → ∀ w, UserBody.fromBytes B q.data = .ok w →
          ¬ w.balance.toNat + amount.toNat < 2 ^ 64 := by
    constructor
    · intro hall
      obtain ⟨r', u', q', l', _, hl', _, hq', hpay, htail⟩ := hall
      obtain ⟨rfl, rfl⟩ := hs.unique hpay.toSpender
      obtain rfl := Option.some.inj (hq.symm.trans hq')
      obtain rfl := Option.some.inj (hl.symm.trans hl')
      exact ⟨hpay, htail⟩
    · intro hall
      obtain ⟨hpay, htail⟩ := hall
      exact ⟨r, u, q, l, hsd, hl, hdel, hq, hpay, htail⟩
  -- what a failure after the debit leaves
  have hdebited : ∀ {b : UInt64} {m : String}, b.toNat + amount.toNat = u.balance.toNat →
      (amount ≠ 0 → LateTransfer B P cx s d amount lock) →
      Ends (LateTransfer B P cx s d amount lock) cx (.decode m)
        (cx.setResource s.toNat (r.setData (UserBody.toBytes { u with balance := b }))) := by
    intro b m hb hpart
    by_cases hzero : amount = 0
    · rw [hzero] at hb
      have hbal : b = u.balance := UInt64.toNat_inj.mp (by simpa using hb)
      have hsame : cx.setResource s.toNat (r.setData (UserBody.toBytes { u with balance := b }))
          = cx := by
        rw [hbal]
        exact setResource_toBytes hs.resource hs.parses
      rw [hsame]
      exact ends_early fun h => (hlate.mp h).2.1 hzero
    · exact ends_late (hpart hzero) (touched_data hs.resource
        (ApplyContext.setResource_self hs.resource) (balance_ne hs.parses hb hzero))
  by_cases hnew : l = .new
  · -- the destination is to be created
    subst hnew
    rw [if_pos rfl] at hlate
    cases lock with
    | none =>
      simp only [transferCreatePlan, beq_self_eq_true, if_true, wp_bind, wp_okOr_none]
      refine ends_early fun h => ?_
      obtain ⟨-, -, ⟨lk, hlk, -⟩, -⟩ := hlate.mp h
      cases hlk
    | some lk =>
      simp only [transferCreatePlan, beq_self_eq_true, if_true, wp_bind, wp_okOr_some,
        wp_resourceAt hq, wp_pure]
      refine wp_validateUserCreate (fun hno _ => ends_early fun h => ?_) fun hid hmin => ?_
      · obtain ⟨-, -, ⟨lk', hlk, hvalid⟩, -⟩ := hlate.mp h
        cases hlk
        exact hno hvalid
      refine wp_debit hs (fun hno h => hno (hlate.mp h).1) fun b hpay hb => ?_
      have hq₁ : (cx.setResource s.toNat (r.setData
          (UserBody.toBytes { u with balance := b }))).resources[d.toNat]? = some q :=
        (ApplyContext.setResource_ne hne).trans hq
      rw [wp_onResource hq₁]
      refine wp_initUser_refuses (fun hbad m => ?_) fun hok r' => ?_
      · rw [ApplyContext.setResource_unchanged hq₁]
        exact hdebited hb fun hzero => hlate.mpr ⟨hpay, hzero, ⟨lk, rfl, hid, hmin⟩, hbad⟩
      · refine (wp_markCreated (by exact hl)).mpr ?_
        intro h
        exact hok (hlate.mp h).2.2.2
  · -- the destination is to be credited
    have hlive : (l == Lifecycle.new) = false := by simpa using hnew
    rw [if_neg hnew] at hlate
    simp only [transferCreatePlan, hlive, Bool.false_eq_true, if_false, wp_bind, wp_pure]
    refine wp_debit hs (fun hno h => hno (hlate.mp h).1) fun b hpay hb => ?_
    have hq₁ : (cx.setResource s.toNat (r.setData
        (UserBody.toBytes { u with balance := b }))).resources[d.toNat]? = some q :=
      (ApplyContext.setResource_ne hne).trans hq
    refine wp_modifyUserAt hq₁ (fun hno => ?_) fun w hw hwu => ?_
    · exact hdebited hb fun hzero =>
        hlate.mpr ⟨hpay, hzero, fun hw w hwu => absurd hwu (hno hw w)⟩
    · refine wp_creditBalance (fun hover => ?_) fun b' hb' h => ?_
      · rw [setResource_toBytes hq₁ hwu]
        refine hdebited hb fun hzero => hlate.mpr ⟨hpay, hzero, fun _ w' hwu' => ?_⟩
        obtain rfl := Except.ok.inj (hwu.symm.trans hwu')
        exact hover
      · refine (hlate.mp h).2.2 hw w hwu ?_
        have := b'.toNat_lt
        omega

/-- The decision of a deposit: creditable, or an early end. -/
theorem wp_depositCreditKind_late {target : CreditTarget} {lock : LockEnum} {value : UInt64}
    {q : Resource} {l : Lifecycle} {late : Prop} {Q : CreditKind → ApplyContext → Prop}
    (hq : cx.resources[target.userIdx.toNat]? = some q)
    (hl : cx.lifecycle[target.userIdx.toNat]? = some l)
    (hE : ¬ Creditable B P target lock value q l → ¬ late)
    (hnew : l = .new → Creditable B P target lock value q l → Q (.create (lock.idHash B)) cx)
    (hlive : ∀ b w, l = .live → UserBody.fromBytes B q.data = .ok w →
      Creditable B P target lock value q l → Q (.creditExisting b) cx) :
    wp (depositCreditKind B P target lock value) Q (Ends late cx) cx := by
  simp only [depositCreditKind, wp_bind, wp_lifecycleAt hl]
  cases l with
  | new =>
    cases hwith : target.createWith with
    | none =>
      refine ends_early (hE fun h => ?_)
      have hsome := h.1
      rw [hwith] at hsome
      cases hsome
    | some x =>
      simp only [wp_bind, wp_resourceAt hq]
      refine wp_validateUserCreate (fun hno _ => ends_early (hE fun h => hno h.2))
        fun hid hmin => ?_
      exact hnew rfl ⟨by rw [hwith]; rfl, hid, hmin⟩
  | deleted => exact ends_early (hE id)
  | live =>
    simp only [wp_bind, wp_resourceAt hq, wp_okOr]
    refine ⟨?_, fun hnone => ends_early (hE ?_)⟩
    swap
    · intro hall
      obtain ⟨w, hw, _⟩ := hall
      rw [viewUser, viewBody, hw] at hnone
      cases hnone
    intro view hview
    obtain ⟨bal, ilh⟩ := view
    obtain ⟨w, hw, heq⟩ := viewBody_eq_some.mp hview
    cases heq
    dsimp only
    by_cases hilh : w.initialLockHash = lock.idHash B
    swap
    · rw [if_pos hilh]
      refine ends_early (hE ?_)
      intro hall
      obtain ⟨w', hw', hilh', _⟩ := hall
      refine hilh ?_
      obtain rfl := Except.ok.inj (hw.symm.trans hw')
      exact hilh'
    rw [if_neg (not_not.mpr hilh), wp_bind, wp_okOr]
    refine ⟨fun b hb => ?_, fun hnone => ends_early (hE ?_)⟩
    · refine hlive b w rfl hw ⟨w, hw, hilh, ?_⟩
      have := checkedAdd_eq_some.mp hb
      have := b.toNat_lt
      omega
    · intro hall
      obtain ⟨w', hw', _, hlt⟩ := hall
      obtain rfl := Except.ok.inj (hw.symm.trans hw')
      rw [checkedAdd, if_pos hlt] at hnone
      cases hnone

theorem wp_deposit_late {ui ci : UInt8} {oi : UInt32} {lock : LockEnum} :
    wp (applyDeposit B P ui ci oi lock) (fun _ _ => ¬ LateDeposit B P cx ui ci oi lock)
      (Ends (LateDeposit B P cx ui ci oi lock) cx) cx := by
  simp only [applyDeposit, wp_bind, wp_get]
  by_cases hdup : oi ∈ cx.consumedOutputs
  · rw [if_pos hdup]
    refine ends_early ?_
    intro hall
    obtain ⟨_, _, _, _, _, _, _, h, _⟩ := hall
    exact h hdup
  rw [if_neg hdup, wp_bind]
  cases hrc : cx.resources[ci.toNat]? with
  | none =>
    simp only [viewConfigAt, wp_bind, wp_resourceAt_none hrc]
    refine ends_early ?_
    intro hall
    obtain ⟨_, _, _, _, _, _, _, _, h, _⟩ := hall
    rw [hrc] at h
    cases h
  | some rc =>
  refine wp_viewConfigAt hrc (fun hno _ => ends_early ?_) fun c hc => ?_
  · intro hall
    obtain ⟨rc', c', _, _, _, _, _, _, h, hc', _⟩ := hall
    obtain rfl := Option.some.inj (hrc.symm.trans h)
    exact hno c' hc'
  rw [wp_bind, wp_okOr]
  refine ⟨fun out hout => ?_, fun hnone => ends_early ?_⟩
  swap
  · intro hall
    obtain ⟨_, _, _, _, _, _, _, _, _, _, h, _⟩ := hall
    rw [hnone] at h
    cases h
  by_cases hspk : out.spkVersion ≠ 0 ∨ out.spk ≠ P.depositSpk ⟨ui, oi, lock⟩ c.covenantId
  · rw [if_pos hspk]
    refine ends_early ?_
    intro hall
    obtain ⟨rc', c', out', _, _, _, _, _, h, hc', hout', hver, hscript, _⟩ := hall
    obtain rfl := Option.some.inj (hrc.symm.trans h)
    obtain rfl := Except.ok.inj (hc.symm.trans hc')
    obtain rfl := Option.some.inj (hout.symm.trans hout')
    exact hspk.elim (fun hv => hv hver) fun hs => hs hscript
  rw [if_neg hspk, wp_bind]
  obtain ⟨hver, hscript⟩ := not_or.mp hspk
  rw [ne_eq, not_not] at hver hscript
  cases htarget : P.creditTarget ⟨ui, oi, lock⟩ with
  | error m =>
    refine ends_early ?_
    intro hall
    obtain ⟨_, _, _, _, _, _, _, _, _, _, _, _, _, h, _⟩ := hall
    rw [htarget] at h
    cases h
  | ok target =>
  simp only [Except.mapError, wp_liftE_ok]
  by_cases hrange : target.userIdx.toNat ≥ cx.resources.length
  · rw [if_pos hrange]
    refine ends_early ?_
    intro hall
    obtain ⟨_, _, _, target', _, _, _, _, _, _, _, _, _, h, hq, _⟩ := hall
    obtain rfl := Except.ok.inj (htarget.symm.trans h)
    have := (List.getElem?_eq_some_iff.mp hq).1
    omega
  rw [if_neg hrange, wp_bind]
  obtain ⟨q, hq⟩ : ∃ q, cx.resources[target.userIdx.toNat]? = some q :=
    ApplyContext.exists_resource (Nat.lt_of_not_le hrange)
  cases hl : cx.lifecycle[target.userIdx.toNat]? with
  | none =>
    simp only [depositCreditKind, wp_bind, wp_lifecycleAt_none hl]
    refine ends_early ?_
    intro hall
    obtain ⟨_, _, _, target', _, _, _, _, _, _, _, _, _, h, _, hl', _⟩ := hall
    obtain rfl := Except.ok.inj (htarget.symm.trans h)
    rw [hl] at hl'
    cases hl'
  | some l =>
  have hlate : LateDeposit B P cx ui ci oi lock ↔ Creditable B P target lock out.value q l ∧
      (∃ sink, B.depositSet cx.deposit (B.delegateEntrySpkHash c.covenantId) = .ok sink) ∧
      (q.isWritable = false ∨ (l = .new ∧ q.data ≠ [])) := by
    constructor
    · intro hall
      obtain ⟨rc', c', out', target', q', l', sink, _, hrc', hc', hout', _, _, htarget', hq', hl',
        hcred, hset, htail⟩ := hall
      obtain rfl := Option.some.inj (hrc.symm.trans hrc')
      obtain rfl := Except.ok.inj (hc.symm.trans hc')
      obtain rfl := Option.some.inj (hout.symm.trans hout')
      obtain rfl := Except.ok.inj (htarget.symm.trans htarget')
      obtain rfl := Option.some.inj (hq.symm.trans hq')
      obtain rfl := Option.some.inj (hl.symm.trans hl')
      exact ⟨hcred, ⟨sink, hset⟩, htail⟩
    · intro hall
      obtain ⟨hcred, ⟨sink, hset⟩, htail⟩ := hall
      exact ⟨rc, c, out, target, q, l, sink, hdup, hrc, hc, hout, hver, hscript, htarget, hq, hl,
        hcred, hset, htail⟩
  -- an output that was consumed stays consumed
  have hconsumed : ∀ {cx' : ApplyContext}, cx'.consumedOutputs = cx.consumedOutputs ++ [oi] →
      ¬ Untouched cx cx' := by
    intro cx' h ht
    have hsame := h.symm.trans ht.consumed
    exact absurd hsame (by simp)
  refine wp_depositCreditKind_late hq hl (fun hno h => hno (hlate.mp h).1) (fun hnew hcred => ?_)
    fun b w hlive hw hcred => ?_
  · -- the user is to be created
    subst hnew
    cases hset : B.depositSet cx.deposit (B.delegateEntrySpkHash c.covenantId) with
    | error m =>
      refine ends_early fun h => ?_
      obtain ⟨-, ⟨sink, hsink⟩, -⟩ := hlate.mp h
      rw [hset] at hsink
      cases hsink
    | ok sink =>
    simp only [wp_bind, wp_liftE_ok, wp_modify, depositCredit]
    have hl₁ : ({ cx with deposit := sink, consumedOutputs := cx.consumedOutputs ++ [oi] } :
        ApplyContext).lifecycle[target.userIdx.toNat]? = some .new := hl
    refine (wp_markCreated hl₁).mpr ?_
    refine (wp_onResource (by exact hq)).mpr ?_
    refine wp_initUser_refuses (fun hbad m => ?_) fun hok r' h => hok ?_
    · refine ends_late (hlate.mpr ⟨hcred, ⟨sink, hset⟩, ?_⟩) (hconsumed rfl)
      exact hbad.imp_right fun hfull => ⟨rfl, hfull⟩
    · exact (hlate.mp h).2.2.imp_right fun hfull => hfull.2
  · -- the user is to be credited
    subst hlive
    cases hset : B.depositSet cx.deposit (B.delegateEntrySpkHash c.covenantId) with
    | error m =>
      refine ends_early fun h => ?_
      obtain ⟨-, ⟨sink, hsink⟩, -⟩ := hlate.mp h
      rw [hset] at hsink
      cases hsink
    | ok sink =>
    simp only [wp_bind, wp_liftE_ok, wp_modify, depositCredit]
    refine wp_modifyUserAt (by exact hq) (fun hno => ?_) fun w' hw' _ h => ?_
    · refine ends_late (hlate.mpr ⟨hcred, ⟨sink, hset⟩, .inl ?_⟩) (hconsumed rfl)
      cases hwr : q.isWritable with
      | false => rfl
      | true => exact absurd hw (hno hwr w)
    · rcases (hlate.mp h).2.2 with hro | ⟨hnew, -⟩
      · rw [hw'] at hro
        cases hro
      · cases hnew

end Handlers

/-- **Refused actions.** In every context, a `CreateGame`, `JoinGame`,
`Transfer` or `Deposit` that returns `Err` leaves every resource, lifecycle
and consumed output as before, except where it fails late: exactly there, the
debit, the birth or the consumed output stays. -/
theorem fund_moving_atomic (B : Battery) (P : DepositPolicy) (cx : ApplyContext) :
    (∀ ci gi stake rounds mark,
      Atomic (applyAction B P (.createGame ci gi stake rounds mark)) cx ↔
        ¬ LateCreateGame B cx ci gi stake rounds mark) ∧
    (∀ gi ji, Atomic (applyAction B P (.joinGame gi ji)) cx ↔ ¬ LateJoinGame B cx gi ji) ∧
    (∀ s d amount lock, Atomic (applyAction B P (.transfer s d amount lock)) cx ↔
      ¬ LateTransfer B P cx s d amount lock) ∧
    (∀ ui ci oi lock, Atomic (applyAction B P (.deposit ui ci oi lock)) cx ↔
      ¬ LateDeposit B P cx ui ci oi lock) := by
  refine ⟨fun ci gi stake rounds mark => ?_, fun gi ji => ?_, fun s d amount lock => ?_,
    fun ui ci oi lock => ?_⟩
  · exact atomic_iff wp_createGame_late
  · exact atomic_iff wp_joinGame_late
  · exact atomic_iff wp_transfer_late
  · exact atomic_iff wp_deposit_late

namespace Sample

/-- The first player's next game, its slot declared read-only. -/
def readOnlyGame : Submission :=
  { submission [(1, 0x01, aliceKey)] [.createGame 1 2 500 1 .x] with
    access := [(configId, .write), (aliceId, .write),
      (deriveGameResource .plain (aliceLock.idHash .plain) 1, .read)] }

/-- The stake is gone and the slot is live, and there is no game. -/
theorem readOnlyGame_leaves :
    ∃ (a : ActionBody) (cx cx' : ApplyContext),
      opened.Applying .plain policy readOnlyGame [] a cx ∧
      a = .createGame 1 2 500 1 .x ∧
      applyAction .plain policy a cx
        = .error (.decode "init_game: resource not declared writable") cx' ∧
      ¬ Untouched cx cx' := by
  have hcheck : (opened.moment .plain policy readOnlyGame 0).any (fun m =>
      decide (m.1 = [] ∧ m.2.1 = .createGame 1 2 500 1 .x) &&
        match applyAction .plain policy m.2.1 m.2.2 with
        | .error e cx' => decide (e = .decode "init_game: resource not declared writable" ∧
            cx'.lifecycle ≠ m.2.2.lifecycle)
        | .ok _ _ => false) = true := by
    decide +kernel
  obtain ⟨⟨as, a, cx⟩, hm, hmoment⟩ := (Option.any_eq_true _ _).mp hcheck
  have happ := Rollup.applying_of_moment hm
  obtain ⟨hfirst, hrun⟩ := Bool.and_eq_true_iff.mp hmoment
  obtain ⟨has, ha⟩ := of_decide_eq_true hfirst
  dsimp only at has ha hrun happ
  subst has
  cases hx : applyAction .plain policy a cx with
  | ok u cx' =>
    rw [hx] at hrun
    cases hrun
  | error e cx' =>
    rw [hx] at hrun
    obtain ⟨he, hlife⟩ := of_decide_eq_true hrun
    refine ⟨a, cx, cx', happ, ha, ?_, touched_lifecycle hlife⟩
    rw [hx, he]

end Sample

end TicTacToe
