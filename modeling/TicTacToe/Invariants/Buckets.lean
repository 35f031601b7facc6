/-
TicTacToe.Invariants.Buckets — lazy signer resolution against the contract
of the unlocker buckets.

A run of `resolvePending` calls is tracked signer by signer: a `Move` says
what one call does to one signer of the wire list. The aggregation looks at
the last entry of the multisig bucket only, which is right for a call that
is `Clean` and wrong for others: then an index is split over two entries,
or its keys are out of wire order.

No `sorry`, no `axiom`, no `native_decide`.
-/
import TicTacToe.Invariants.Verdict
import TicTacToe.Lib.Buckets

namespace TicTacToe

open Lib

/-! ## Signers, tracked -/

/-- A signer of the wire list, with what it resolved to so far. -/
abbrev Tracked := SignerEntry × Option Unlocker

/-- No signer has resolved yet. -/
def unresolved (signers : List SignerEntry) : List Tracked := signers.map fun e => (e, none)

def pendingOf (tr : List Tracked) : List SignerEntry :=
  tr.filterMap fun t => if t.2.isNone then some t.1 else none

namespace Unlocker

def isMultisig : Unlocker → Bool
  | schnorr _ => false
  | multisig _ => true

def schnorrKey : Unlocker → Option Bytes32
  | schnorr pubkey => some pubkey
  | multisig _ => none

def multisigKeys : Unlocker → Option (List Bytes32)
  | schnorr _ => none
  | multisig pubkeys => some pubkeys

end Unlocker

/-- What was contributed to one bucket, in wire order. -/
def contributed {α : Type} (pick : Unlocker → Option α) (tr : List Tracked) : List (UInt8 × α) :=
  tr.filterMap fun t => (t.2.bind pick).map (t.1.1, ·)

/-- What one call does to one signer. -/
inductive Move where
  | waiting (e : SignerEntry)
  | had (e : SignerEntry) (u : Unlocker)
  | resolved (e : SignerEntry) (u : Unlocker)

namespace Move

def before : Move → Tracked
  | waiting e => (e, none)
  | had e u => (e, some u)
  | resolved e _ => (e, none)

def after : Move → Tracked
  | waiting e => (e, none)
  | had e u => (e, some u)
  | resolved e u => (e, some u)

/-- The call really does this. -/
def Valid (B : Battery) (ctx : SignerResolveContext) (resources : List Resource) : Move → Prop
  | waiting e => waits resources e = true
  | had _ _ => True
  | resolved e u => waits resources e = false ∧ e.2.resolve B e.1 ctx = .ok u

/-- The contribution of the call. -/
def gained : Move → Option (UInt8 × Unlocker)
  | resolved e u => some (e.1, u)
  | _ => none

/-- Old and new contributions to one bucket. -/
def side {α : Type} (pick : Unlocker → Option α) : Move → Option ((UInt8 × α) ⊕ (UInt8 × α))
  | waiting _ => none
  | had e u => (pick u).map fun a => .inl (e.1, a)
  | resolved e u => (pick u).map fun a => .inr (e.1, a)

end Move

section Sides

variable {α : Type} (pick : Unlocker → Option α) (ms : List Move)

theorem merged_sides :
    merged (ms.filterMap (Move.side pick)) = contributed pick (ms.map Move.after) := by
  induction ms with
  | nil => rfl
  | cons m ms ih =>
    unfold merged contributed at ih ⊢
    cases m with
    | waiting e => exact ih
    | had e u | resolved e u =>
      cases h : pick u with
      | none => simpa [Move.side, Move.after, h] using ih
      | some a => simpa [Move.side, Move.after, h] using ih

theorem lefts_sides :
    lefts (ms.filterMap (Move.side pick)) = contributed pick (ms.map Move.before) := by
  induction ms with
  | nil => rfl
  | cons m ms ih =>
    cases m with
    | waiting e => exact ih
    | had e u =>
      unfold lefts contributed at ih ⊢
      cases h : pick u with
      | none => simpa [Move.side, Move.before, h] using ih
      | some a => simpa [Move.side, Move.before, h] using ih
    | resolved e u =>
      refine Eq.trans ?_ ih
      cases h : pick u with
      | none => simp [lefts, Move.side, h]
      | some a =>
        simp only [lefts, List.filterMap_cons, Move.side, h, Option.map_some]
        rfl

theorem rights_sides : rights (ms.filterMap (Move.side pick))
    = (ms.filterMap Move.gained).filterMap fun c => (pick c.2).map (c.1, ·) := by
  induction ms with
  | nil => rfl
  | cons m ms ih =>
    cases m with
    | waiting e => exact ih
    | had e u =>
      refine Eq.trans ?_ ih
      cases h : pick u with
      | none => simp [rights, Move.side, h]
      | some a =>
        simp only [rights, List.filterMap_cons, Move.side, h, Option.map_some]
        rfl
    | resolved e u =>
      unfold rights at ih ⊢
      cases h : pick u with
      | none => simpa [Move.side, Move.gained, h] using ih
      | some a => simpa [Move.side, Move.gained, h] using ih

end Sides

/-! ## One call -/

/-- Files an unlocker in the bucket of its kind. -/
def AuthContext.file (auth : AuthContext) (i : UInt8) : Unlocker → AuthContext
  | .schnorr pubkey => { auth with schnorr := auth.schnorr ++ [(i, pubkey)] }
  | .multisig pubkeys => { auth with multisig := appendMultisigContrib auth.multisig i pubkeys }

/-- Both buckets sorted by index. -/
def AuthContext.sorted (B : Battery) (auth : AuthContext) : AuthContext where
  schnorr := (B.sortUnstable auth.schnorr).val
  multisig := (B.sortUnstable auth.multisig).val

def AuthContext.fileAll (auth : AuthContext) (news : List (UInt8 × Unlocker)) : AuthContext :=
  news.foldl (fun a c => a.file c.1 c.2) auth

section Call

variable {B : Battery} {ctx : SignerResolveContext} {resources : List Resource}
  {auth auth' : AuthContext} {ms : List Move} {tr : List Tracked} {still : List SignerEntry}

theorem resolveOne_eq (e : SignerEntry) :
    resolveOne B e auth ctx = (e.2.resolve B e.1 ctx).map (auth.file e.1) := by
  unfold resolveOne
  cases e.2.resolve B e.1 ctx with
  | error f => rfl
  | ok u => cases u <;> rfl

theorem resolveEach_moves (hv : ∀ m ∈ ms, m.Valid B ctx resources) (auth : AuthContext) :
    resolveEach B ctx resources (pendingOf (ms.map Move.before)) auth
      = .ok (pendingOf (ms.map Move.after), auth.fileAll (ms.filterMap Move.gained)) := by
  induction ms generalizing auth with
  | nil => rfl
  | cons m ms ih =>
    have ih := ih fun m' hm' => hv m' (List.mem_cons_of_mem m hm')
    have hm := hv m List.mem_cons_self
    cases m with
    | had e u => exact ih auth
    | waiting e =>
      show resolveEach B ctx resources (e :: pendingOf (ms.map Move.before)) auth
        = .ok (e :: pendingOf (ms.map Move.after), auth.fileAll (ms.filterMap Move.gained))
      unfold resolveEach
      rw [if_pos (by exact hm), ih auth]
    | resolved e u =>
      show resolveEach B ctx resources (e :: pendingOf (ms.map Move.before)) auth
        = .ok (pendingOf (ms.map Move.after), (auth.file e.1 u).fileAll (ms.filterMap Move.gained))
      have hwaits : ¬ (e.2.gated && !lockBearing resources e.1) = true := by
        show ¬ waits resources e = true
        rw [hm.1]
        exact Bool.false_ne_true
      unfold resolveEach
      rw [if_neg hwaits, resolveOne_eq, hm.2]
      exact ih (auth.file e.1 u)

/-- What a call computes, read off its moves. -/
theorem resolvePending_moves (hv : ∀ m ∈ ms, m.Valid B ctx resources) (auth : AuthContext) :
    resolvePending B (pendingOf (ms.map Move.before)) auth ctx resources
      = .ok (pendingOf (ms.map Move.after), (auth.fileAll (ms.filterMap Move.gained)).sorted B) := by
  unfold resolvePending
  rw [resolveEach_moves hv]
  rfl

/-- Every call that succeeds has moves. -/
theorem exists_moves (h : resolvePending B (pendingOf tr) auth ctx resources = .ok (still, auth')) :
    ∃ ms : List Move, ms.map Move.before = tr ∧ ∀ m ∈ ms, m.Valid B ctx resources := by
  have heach : ∃ p, resolveEach B ctx resources (pendingOf tr) auth = .ok p := by
    unfold resolvePending at h
    cases hp : resolveEach B ctx resources (pendingOf tr) auth with
    | error e =>
      rw [hp] at h
      cases h
    | ok p => exact ⟨p, rfl⟩
  clear h
  induction tr generalizing auth with
  | nil => exact ⟨[], rfl, fun _ hm => absurd hm List.not_mem_nil⟩
  | cons t tr ih =>
    obtain ⟨e, o⟩ := t
    cases o with
    | some u =>
      obtain ⟨ms, rfl, hv⟩ := ih heach
      exact ⟨.had e u :: ms, rfl, List.forall_mem_cons.mpr ⟨trivial, hv⟩⟩
    | none =>
      obtain ⟨p, hp⟩ := heach
      have hp' : resolveEach B ctx resources (e :: pendingOf tr) auth = .ok p := hp
      unfold resolveEach at hp'
      by_cases hw : (e.2.gated && !lockBearing resources e.1) = true
      · rw [if_pos hw] at hp'
        have hrest : ∃ q, resolveEach B ctx resources (pendingOf tr) auth = .ok q := by
          cases hq : resolveEach B ctx resources (pendingOf tr) auth with
          | error f =>
            rw [hq] at hp'
            cases hp'
          | ok q => exact ⟨q, rfl⟩
        obtain ⟨ms, rfl, hv⟩ := ih hrest
        exact ⟨.waiting e :: ms, rfl, List.forall_mem_cons.mpr ⟨hw, hv⟩⟩
      · rw [if_neg hw, resolveOne_eq] at hp'
        cases hres : e.2.resolve B e.1 ctx with
        | error f =>
          rw [hres] at hp'
          cases hp'
        | ok u =>
          rw [hres] at hp'
          obtain ⟨ms, rfl, hv⟩ := ih ⟨p, hp'⟩
          exact ⟨.resolved e u :: ms, rfl,
            List.forall_mem_cons.mpr ⟨⟨Bool.not_eq_true _ ▸ hw, hres⟩, hv⟩⟩

theorem fileAll_schnorr (news : List (UInt8 × Unlocker)) (auth : AuthContext) :
    (auth.fileAll news).schnorr
      = auth.schnorr ++ news.filterMap fun c => (c.2.schnorrKey).map (c.1, ·) := by
  induction news generalizing auth with
  | nil => exact (List.append_nil _).symm
  | cons c news ih =>
    obtain ⟨i, u⟩ := c
    refine (ih (auth.file i u)).trans ?_
    cases u with
    | schnorr pk => simp [AuthContext.file, Unlocker.schnorrKey]
    | multisig pks => simp [AuthContext.file, Unlocker.schnorrKey]

theorem appendMultisigContrib_eq (bucket : List (UInt8 × List Bytes32)) (i : UInt8)
    (contrib : List Bytes32) :
    appendMultisigContrib bucket i contrib = extendLast bucket i contrib := by
  unfold appendMultisigContrib extendLast
  cases bucket.getLast? <;> rfl

theorem fileAll_multisig (news : List (UInt8 × Unlocker)) (auth : AuthContext) :
    (auth.fileAll news).multisig
      = (news.filterMap fun c => (c.2.multisigKeys).map (c.1, ·)).foldl
          (fun b c => extendLast b c.1 c.2) auth.multisig := by
  induction news generalizing auth with
  | nil => rfl
  | cons c news ih =>
    obtain ⟨i, u⟩ := c
    refine (ih (auth.file i u)).trans ?_
    cases u with
    | schnorr pk => rfl
    | multisig pks =>
      simp only [AuthContext.file, appendMultisigContrib_eq]
      rfl

end Call

/-! ## Runs of calls -/

/-- Any sequence of successful calls whose moves are in `C`, over whatever
the resources are at each of them. -/
inductive LazyRun (B : Battery) (C : List Move → Prop) (signers : List SignerEntry) :
    List Tracked → AuthContext → Prop
  | start : LazyRun B C signers (unresolved signers) .default
  | call {ms : List Move} {auth auth' : AuthContext} {ctx : SignerResolveContext}
      {resources : List Resource} : LazyRun B C signers (ms.map Move.before) auth →
      (∀ m ∈ ms, m.Valid B ctx resources) → C ms →
      resolvePending B (pendingOf (ms.map Move.before)) auth ctx resources
        = .ok (pendingOf (ms.map Move.after), auth') →
      LazyRun B C signers (ms.map Move.after) auth'

/-- A call that the aggregation gets right. A signer that resolves now comes,
in wire order, after those of its bucket and index that resolved before; and
a multisig signer whose index has an entry finds it last: no entry has a
greater index, and no signer of a smaller one resolves in the same call. -/
structure Clean (ms : List Move) : Prop where
  inOrder : ms.Pairwise fun m m' => ∀ e u e' u', m = .resolved e u → m' = .had e' u' →
    u.isMultisig = u'.isMultisig → e.1 ≠ e'.1
  onTop : ∀ e ks e' ks', Move.resolved e (.multisig ks) ∈ ms →
    Move.had e' (.multisig ks') ∈ ms → e.1 = e'.1 →
    (∀ d kd, Move.had d (.multisig kd) ∈ ms → d.1 ≤ e.1) ∧
      ∀ d kd, Move.resolved d (.multisig kd) ∈ ms → e.1 ≤ d.1

/-- The sort keeps the order of the entries under each key. -/
def Battery.Stable (B : Battery) : Prop :=
  ∀ {α : Type} (l : List (UInt8 × α)) (i : UInt8), under i (B.sortUnstable l).val = under i l

def SignerEnum.multi : SignerEnum → Bool
  | multisigSchnorrSigPtr _ _ | multisigPrevTxV1Witness _ => true
  | schnorrSigPtr _ | prevTxV1Witness _ | genesisSchnorrSigPtr _ => false

/-- No two single-key signers of one resource. -/
def NoTies (signers : List SignerEntry) : Prop :=
  ((signers.filter fun e => !e.2.multi).map Prod.fst).Nodup

section Contract

variable {B : Battery} {C : List Move → Prop} {signers : List SignerEntry} {ms : List Move}
  {tr : List Tracked} {auth : AuthContext} {α : Type} {pick : Unlocker → Option α}

theorem side_inl {m : Move} {a : UInt8 × α} (h : m.side pick = some (.inl a)) :
    ∃ e u, m = .had e u ∧ pick u = some a.2 ∧ e.1 = a.1 := by
  cases m with
  | waiting e => cases h
  | had e u =>
    obtain ⟨b, hb, hab⟩ := Option.map_eq_some_iff.mp h
    cases hab
    exact ⟨e, u, rfl, hb, rfl⟩
  | resolved e u =>
    obtain ⟨b, hb, hab⟩ := Option.map_eq_some_iff.mp h
    cases hab

theorem side_inr {m : Move} {a : UInt8 × α} (h : m.side pick = some (.inr a)) :
    ∃ e u, m = .resolved e u ∧ pick u = some a.2 ∧ e.1 = a.1 := by
  cases m with
  | waiting e => cases h
  | had e u =>
    obtain ⟨b, hb, hab⟩ := Option.map_eq_some_iff.mp h
    cases hab
  | resolved e u =>
    obtain ⟨b, hb, hab⟩ := Option.map_eq_some_iff.mp h
    cases hab
    exact ⟨e, u, rfl, hb, rfl⟩

theorem mem_lefts {a : UInt8 × α} (h : a ∈ lefts (ms.filterMap (Move.side pick))) :
    ∃ e u, Move.had e u ∈ ms ∧ pick u = some a.2 ∧ e.1 = a.1 := by
  obtain ⟨x, hx, hxa⟩ := List.mem_filterMap.mp h
  obtain ⟨m, hm, hmx⟩ := List.mem_filterMap.mp hx
  rw [Sum.getLeft?_eq_some_iff.mp hxa] at hmx
  obtain ⟨e, u, rfl, hpick, he⟩ := side_inl hmx
  exact ⟨e, u, hm, hpick, he⟩

theorem mem_rights {a : UInt8 × α} (h : a ∈ rights (ms.filterMap (Move.side pick))) :
    ∃ e u, Move.resolved e u ∈ ms ∧ pick u = some a.2 ∧ e.1 = a.1 := by
  obtain ⟨x, hx, hxa⟩ := List.mem_filterMap.mp h
  obtain ⟨m, hm, hmx⟩ := List.mem_filterMap.mp hx
  rw [Sum.getRight?_eq_some_iff.mp hxa] at hmx
  obtain ⟨e, u, rfl, hpick, he⟩ := side_inr hmx
  exact ⟨e, u, hm, hpick, he⟩

/-- Under each index, the contributions so far are the old and then the new. -/
theorem Clean.under (hc : Clean ms)
    (hp : ∀ u u' a a', pick u = some a → pick u' = some a' → u.isMultisig = u'.isMultisig)
    (i : UInt8) : under i (contributed pick (ms.map Move.after))
      = under i (contributed pick (ms.map Move.before))
        ++ under i (rights (ms.filterMap (Move.side pick))) := by
  rw [← merged_sides, ← lefts_sides]
  refine under_merged ?_ i
  rw [List.pairwise_filterMap]
  refine hc.inOrder.imp fun {m m'} hmm x hx y hy a b hxa hyb => ?_
  rw [hxa] at hx
  rw [hyb] at hy
  obtain ⟨e, u, rfl, hu, he⟩ := side_inr hx
  obtain ⟨e', u', rfl, hu', he'⟩ := side_inl hy
  rw [← he, ← he']
  exact hmm e u e' u' rfl rfl (hp u u' _ _ hu hu')

theorem rights_sorted (hs : (ms.map Move.before).Pairwise fun t t' => t.1.1 ≤ t'.1.1) :
    (rights (ms.filterMap (Move.side pick))).Pairwise fun a b => a.1 ≤ b.1 := by
  unfold rights
  rw [List.pairwise_filterMap, List.pairwise_filterMap]
  refine (List.pairwise_map.mp hs).imp fun {m m'} hle x hx y hy a ha b hb => ?_
  rw [Sum.getRight?_eq_some_iff.mp ha] at hx
  rw [Sum.getRight?_eq_some_iff.mp hb] at hy
  obtain ⟨e, u, rfl, -, he⟩ := side_inr hx
  obtain ⟨e', u', rfl, -, he'⟩ := side_inr hy
  rw [← he, ← he']
  exact hle

theorem multisigKeys_some {u : Unlocker} {ks : List Bytes32} (h : u.multisigKeys = some ks) :
    u = .multisig ks := by
  cases u <;> cases h
  rfl

theorem schnorrKey_some {u : Unlocker} {pk : Bytes32} (h : u.schnorrKey = some pk) :
    u = .schnorr pk := by
  cases u <;> cases h
  rfl

/-- The step lemma of the multisig bucket. -/
theorem Clean.multisig (hc : Clean ms)
    (hs : (ms.map Move.before).Pairwise fun t t' => t.1.1 ≤ t'.1.1)
    (hg : Grouped (contributed Unlocker.multisigKeys (ms.map Move.before)) auth.multisig) :
    Grouped (contributed Unlocker.multisigKeys (ms.map Move.after))
      ((auth.fileAll (ms.filterMap Move.gained)).sorted B).multisig := by
  have hok : ∀ c ∈ rights (ms.filterMap (Move.side Unlocker.multisigKeys)),
      c.1 ∈ (contributed Unlocker.multisigKeys (ms.map Move.before)).map Prod.fst →
      EndsAt c.1 auth.multisig ∧
        ∀ d ∈ rights (ms.filterMap (Move.side Unlocker.multisigKeys)), c.1 ≤ d.1 := by
    intro c hcr hcl
    obtain ⟨e, u, hm, hu, he⟩ := mem_rights hcr
    have hold := hcl
    rw [← lefts_sides] at hold
    obtain ⟨c', hc', hkey⟩ := List.mem_map.mp hold
    obtain ⟨e', u', hm', hu', he'⟩ := mem_lefts hc'
    rw [multisigKeys_some hu] at hm
    rw [multisigKeys_some hu'] at hm'
    obtain ⟨hmax, hmin⟩ := hc.onTop e _ e' _ hm hm' (by rw [he, he', hkey])
    rw [he] at hmax hmin
    refine ⟨hg.endsAt hcl fun j hj => ?_, fun d hd => ?_⟩
    · rw [← lefts_sides] at hj
      obtain ⟨f, hf, rfl⟩ := List.mem_map.mp hj
      obtain ⟨d, v, hd, hv, hdf⟩ := mem_lefts hf
      rw [multisigKeys_some hv] at hd
      rw [← hdf]
      exact hmax d _ hd
    · obtain ⟨f, v, hf, hv, hfd⟩ := mem_rights hd
      rw [multisigKeys_some hv] at hf
      rw [← hfd]
      exact hmin f _ hf
  have hfiles := files_foldl hg.files (rights_sorted hs) hok
  rw [rights_sides, ← fileAll_multisig] at hfiles
  have hsort := (B.sortUnstable (auth.fileAll (ms.filterMap Move.gained)).multisig).property
  refine (hfiles.sorted hsort.1 hsort.2).congr fun i => ?_
  rw [under_append, ← rights_sides]
  refine (hc.under (fun u u' a a' hu hu' => ?_) i).symm
  rw [multisigKeys_some hu, multisigKeys_some hu']
  rfl

/-! ## What every run keeps -/

theorem unresolved_signers : (unresolved signers).map Prod.fst = signers := by
  rw [unresolved, List.map_map]
  exact List.map_id signers

theorem contributed_unresolved : contributed pick (unresolved signers) = [] := by
  simp [contributed, unresolved]

theorem pendingOf_unresolved : pendingOf (unresolved signers) = signers := by
  simp [pendingOf, unresolved]

theorem after_signers (ms : List Move) :
    (ms.map Move.after).map Prod.fst = (ms.map Move.before).map Prod.fst := by
  rw [List.map_map, List.map_map]
  refine List.map_congr_left fun m _ => ?_
  cases m <;> rfl

theorem LazyRun.entries (h : LazyRun B C signers tr auth) : tr.map Prod.fst = signers := by
  induction h with
  | start => exact unresolved_signers
  | call _ _ _ _ ih => rw [after_signers, ih]

/-- What a call returns is what its moves say. -/
theorem call_auth {ctx : SignerResolveContext} {resources : List Resource} {auth' : AuthContext}
    (hv : ∀ m ∈ ms, m.Valid B ctx resources)
    (h : resolvePending B (pendingOf (ms.map Move.before)) auth ctx resources
      = .ok (pendingOf (ms.map Move.after), auth')) :
    auth' = (auth.fileAll (ms.filterMap Move.gained)).sorted B := by
  rw [resolvePending_moves hv] at h
  exact (Prod.mk.inj (Except.ok.inj h)).2.symm

theorem LazyRun.multisig (hs : signers.Pairwise fun a b => a.1 ≤ b.1)
    (h : LazyRun B Clean signers tr auth) :
    Grouped (contributed Unlocker.multisigKeys tr) auth.multisig := by
  induction h with
  | start =>
    rw [contributed_unresolved]
    exact ⟨List.Pairwise.nil, fun i ks => by simp [AuthContext.default]⟩
  | @call ms auth auth' ctx resources hprev hv hc hcall ih =>
    rw [call_auth hv hcall]
    refine hc.multisig ?_ ih
    rw [← hprev.entries, List.pairwise_map] at hs
    exact hs

/-- The single-key bucket holds what was contributed to it, sorted. -/
theorem LazyRun.schnorr (h : LazyRun B C signers tr auth) :
    (auth.schnorr.Pairwise fun a b => a.1 ≤ b.1) ∧
      auth.schnorr.Perm (contributed Unlocker.schnorrKey tr) := by
  induction h with
  | start =>
    rw [contributed_unresolved]
    exact ⟨List.Pairwise.nil, List.Perm.refl _⟩
  | @call ms auth auth' ctx resources hprev hv hc hcall ih =>
    rw [call_auth hv hcall]
    have hsort := (B.sortUnstable (auth.fileAll (ms.filterMap Move.gained)).schnorr).property
    refine ⟨hsort.2, hsort.1.trans ?_⟩
    rw [fileAll_schnorr, ← rights_sides, ← merged_sides]
    refine (ih.2.append_right _).trans ?_
    rw [← lefts_sides]
    exact lefts_append_rights _

theorem LazyRun.schnorr_stable (hB : B.Stable) (h : LazyRun B Clean signers tr auth) (i : UInt8) :
    under i auth.schnorr = under i (contributed Unlocker.schnorrKey tr) := by
  induction h with
  | start =>
    rw [contributed_unresolved]
    rfl
  | @call ms auth auth' ctx resources hprev hv hc hcall ih =>
    rw [call_auth hv hcall]
    show under i (B.sortUnstable (auth.fileAll (ms.filterMap Move.gained)).schnorr).val = _
    rw [hB, fileAll_schnorr, under_append, ih, ← rights_sides]
    refine (hc.under (fun u u' a a' hu hu' => ?_) i).symm
    rw [schnorrKey_some hu, schnorrKey_some hu']
    rfl

theorem SignerEnum.resolve_kind {s : SignerEnum} {i : UInt8} {ctx : SignerResolveContext}
    {u : Unlocker} (h : s.resolve B i ctx = .ok u) : u.isMultisig = s.multi := by
  have hmap : ∀ {α : Type} {x : Except Fault α} {f : α → Unlocker}, x.map f = .ok u →
      ∃ a, f a = u := by
    intro α x f hx
    cases x with
    | error e => cases hx
    | ok a => exact ⟨a, Except.ok.inj hx⟩
  cases s with
  | schnorrSigPtr off | genesisSchnorrSigPtr off | prevTxV1Witness w
  | multisigSchnorrSigPtr j off | multisigPrevTxV1Witness w =>
    obtain ⟨a, rfl⟩ := hmap h
    rfl

theorem LazyRun.kinds (h : LazyRun B C signers tr auth) :
    ∀ e u, (e, some u) ∈ tr → u.isMultisig = e.2.multi := by
  induction h with
  | start =>
    intro e u hm
    obtain ⟨_, _, he⟩ := List.mem_map.mp hm
    cases he
  | @call ms auth auth' ctx resources hprev hv hc hcall ih =>
    intro e u hm
    obtain ⟨m, hm, he⟩ := List.mem_map.mp hm
    cases m with
    | waiting e' => cases he
    | had e' u' =>
      cases he
      exact ih e u (List.mem_map.mpr ⟨_, hm, rfl⟩)
    | resolved e' u' =>
      cases he
      exact SignerEnum.resolve_kind (hv _ hm).2

/-- The indexes of the single-key bucket are those of single-key signers. -/
theorem contributed_sublist (hk : ∀ e u, (e, some u) ∈ tr → u.isMultisig = e.2.multi) :
    ((contributed Unlocker.schnorrKey tr).map Prod.fst).Sublist
      (((tr.map Prod.fst).filter fun e => !e.2.multi).map Prod.fst) := by
  induction tr with
  | nil => exact List.Sublist.slnil
  | cons t tr ih =>
    have ih := ih fun e u hm => hk e u (List.mem_cons_of_mem t hm)
    obtain ⟨e, o⟩ := t
    have hskip : ((contributed Unlocker.schnorrKey tr).map Prod.fst).Sublist
        ((((e :: tr.map Prod.fst)).filter fun e => !e.2.multi).map Prod.fst) :=
      ih.trans (((List.sublist_cons_self e _).filter _).map _)
    cases o with
    | none => exact hskip
    | some u =>
      have hkind := hk e u List.mem_cons_self
      cases u with
      | multisig ks => exact hskip
      | schnorr pk =>
        have hsingle : (!e.2.multi) = true := by
          rw [← hkind]
          rfl
        rw [List.map_cons, List.filter_cons_of_pos (by exact hsingle)]
        exact ih.cons_cons e.1

theorem LazyRun.schnorr_under (h : LazyRun B Clean signers tr auth)
    (hties : B.Stable ∨ NoTies signers) (i : UInt8) :
    under i auth.schnorr = under i (contributed Unlocker.schnorrKey tr) := by
  rcases hties with hstable | hnone
  · exact h.schnorr_stable hstable i
  · refine under_of_perm h.schnorr.2 ?_ i
    rw [NoTies, ← h.entries] at hnone
    exact (contributed_sublist h.kinds).nodup hnone

/-! ## Eager resolution -/

/-- All signers at once. -/
def eagerMoves (tr : List Tracked) : List Move :=
  tr.map fun t =>
    match t.2 with
    | some u => .resolved t.1 u
    | none => .waiting t.1

theorem eagerMoves_before (tr : List Tracked) :
    (eagerMoves tr).map Move.before = unresolved (tr.map Prod.fst) := by
  unfold eagerMoves unresolved
  rw [List.map_map, List.map_map]
  refine List.map_congr_left fun t _ => ?_
  obtain ⟨e, o⟩ := t
  cases o <;> rfl

theorem eagerMoves_after (tr : List Tracked) : (eagerMoves tr).map Move.after = tr := by
  unfold eagerMoves
  rw [List.map_map]
  refine (List.map_congr_left fun t _ => ?_).trans (List.map_id tr)
  obtain ⟨e, o⟩ := t
  cases o <;> rfl

/-- The first call of a run is clean. -/
theorem clean_of_unresolved (h : ms.map Move.before = unresolved signers) : Clean ms := by
  have hnone : ∀ e u, Move.had e u ∉ ms := by
    intro e u hm
    have hin : (e, some u) ∈ ms.map Move.before := List.mem_map.mpr ⟨_, hm, rfl⟩
    rw [h] at hin
    obtain ⟨_, _, he⟩ := List.mem_map.mp hin
    cases he
  refine ⟨List.pairwise_of_forall_mem_list fun m _ m' hm' e u e' u' _ he => ?_,
    fun e ks e' ks' _ hm' => absurd hm' (hnone e' _)⟩
  rw [he] at hm'
  exact absurd hm' (hnone e' u')

/-- **The buckets.** Over a decoded signer list, a run of clean calls keeps
the contract: after each call the multisig bucket is ascending with one entry
per index that anything was contributed for, and the entry is all that was
contributed, in wire order. Once every signer is resolved, both buckets are
what one eager call over the same locks gives, if the sort is stable or no
two single-key signers are of one resource. -/
theorem lazy_buckets {A : Type} {data : List UInt8} {n : Nat} {dec : Nat → Reader A}
    {ix : DecodedIx A} (hix : decodeIx data n dec = .ok ix)
    (hrun : LazyRun B Clean ix.signers tr auth) :
    Grouped (contributed Unlocker.multisigKeys tr) auth.multisig ∧
      ((B.Stable ∨ NoTies ix.signers) → pendingOf tr = [] →
        ∀ ctx resources, (∀ e u, (e, some u) ∈ tr →
          waits resources e = false ∧ e.2.resolve B e.1 ctx = .ok u) →
        resolvePending B ix.signers .default ctx resources = .ok ([], auth)) := by
  have hasc := decodeIx_ascending hix
  refine ⟨hrun.multisig hasc, fun hties hdone ctx resources hlocks => ?_⟩
  have hbefore := eagerMoves_before tr
  have hafter := eagerMoves_after tr
  rw [hrun.entries] at hbefore
  have hvalid : ∀ m ∈ eagerMoves tr, m.Valid B ctx resources := by
    intro m hm
    obtain ⟨⟨e, o⟩, ht, rfl⟩ := List.mem_map.mp hm
    cases o with
    | some u => exact hlocks e u ht
    | none =>
      have hpend : e ∈ pendingOf tr := List.mem_filterMap.mpr ⟨_, ht, rfl⟩
      rw [hdone] at hpend
      exact absurd hpend List.not_mem_nil
  have hcall := resolvePending_moves hvalid AuthContext.default
  -- the eager call is a clean run of its own, so its buckets are the same
  have hstart : LazyRun B Clean ix.signers ((eagerMoves tr).map Move.before) .default := by
    rw [hbefore]
    exact .start
  have heager := LazyRun.call hstart hvalid (clean_of_unresolved hbefore) hcall
  rw [hafter] at heager
  have hmultisig := (heager.multisig hasc).unique (hrun.multisig hasc)
  have hschnorr := eq_of_under heager.schnorr.1 hrun.schnorr.1 fun i => by
    rw [heager.schnorr_under hties, hrun.schnorr_under hties]
  rw [hbefore, pendingOf_unresolved, hafter, hdone] at hcall
  rw [hcall]
  refine congrArg Except.ok (Prod.ext rfl ?_)
  exact congrArg₂ AuthContext.mk hschnorr hmultisig

end Contract

/-! ## The calls of a transaction -/

section Moments

variable {B : Battery} {P : DepositPolicy} {R : Rollup} {sub : Submission}
  {ix : DecodedIx ActionBody} {presig : List UInt8} {s s' : RunState} {as : List ActionBody}
  {tr : List Tracked}

theorem LazyRun.resolveSigners {signers : List SignerEntry}
    (hrun : LazyRun B (fun _ => True) signers tr s.cx.authCtx) (hp : s.pending = pendingOf tr)
    (h : resolveSigners B presig s = .ok () s') :
    ∃ tr', LazyRun B (fun _ => True) signers tr' s'.cx.authCtx ∧ s'.pending = pendingOf tr' := by
  obtain ⟨hcall, -⟩ := ok_resolveSigners h
  rw [hp] at hcall
  obtain ⟨ms, rfl, hv⟩ := exists_moves hcall
  have hres := resolvePending_moves hv s.cx.authCtx
  rw [hcall] at hres
  have hstill := (Prod.mk.inj (Except.ok.inj hres)).1
  rw [hstill] at hcall
  exact ⟨_, hrun.call hv trivial hcall, hstill⟩

/-- The signers of a transaction resolve in a run of calls. -/
theorem RunsTo.lazyRun (hR : Reachable B P R) (hn : (sub.access.map Prod.fst).Nodup)
    (hix : R.decoded B sub = .ok ix) (hto : RunsTo B P presig (R.startOf sub ix.signers) as s)
    (has : as <+: ix.actions) :
    ∃ tr, LazyRun B (fun _ => True) ix.signers tr s.cx.authCtx ∧ s.pending = pendingOf tr := by
  induction hto with
  | resolved hres =>
    have hstart : LazyRun B (fun _ => True) ix.signers (unresolved ix.signers) .default := .start
    exact hstart.resolveSigners pendingOf_unresolved.symm hres
  | @acted as a s s' hto hact ih =>
    have hprev := (List.prefix_append as [a]).trans has
    obtain ⟨tr, hrun, hpend⟩ := ih hprev
    obtain ⟨s₁, hretry, happly, hsame⟩ := ok_runAction hact
    have hlazy : ∃ tr', LazyRun B (fun _ => True) ix.signers tr' s₁.cx.authCtx ∧
        s₁.pending = pendingOf tr' := by
      rcases ok_retrySigners hretry with ⟨-, rfl⟩ | hres
      · exact ⟨tr, hrun, hpend⟩
      · exact hrun.resolveSigners hpend hres
    obtain ⟨hinv, hin⟩ := hto.runInv hR hn hix hprev
    obtain ⟨authCtx, hcx⟩ := wp_retrySigners.ok hretry
    have hinv₁ := hinv.withAuth authCtx
    rw [← hcx] at hinv₁
    have hb := hin a (has.subset (List.mem_append_right _ (List.mem_singleton_self a)))
    rw [hinv.length, ← hinv₁.length] at hb
    have hacc := (wp_applyAction hinv₁.coherent hinv₁.sound hb).ok happly
    rw [hacc.frame.authCtx, hsame]
    exact hlazy

end Moments

namespace Sample

/-- Multisig bodies are well formed, and every previous output is a multisig
of the one genesis key. -/
def cosigned : Battery :=
  { Battery.plain with
    multisigValid := fun _ _ _ => true
    multisigPrevTxV1Witness := fun _ _ _ => .ok [genesisKey] }

/-- One key, one signature. -/
def soloLock : LockEnum := .multisig 1 aliceKey.val

/-- A multisig previous-output witness for the index, 15 bytes. -/
def witnessEntry (idx : UInt8) : List UInt8 := idx :: 0x04 :: 0 :: (le32 0 ++ (le32 0 ++ le32 0))

/-- Two signers of the user that the second action creates, the first at
once and the second once the user is there, and one of the next index. -/
def splitKeys : Submission :=
  let body := encVec ActionBody.encode
    [.init 0 1000 10 covenant aliceLock, .deposit 1 0 0 soloLock, .deposit 2 0 1 .unlocked]
  let sigs := 47 + body.length
  let ixData := le32 4 ++ (signerEntry 0 0x05 sigs ++ (witnessEntry 1 ++
    (1 :: 0x03 :: 0 :: le32 (UInt32.ofNat (sigs + 64)) ++ (witnessEntry 2 ++ (body ++
      ((padTo 64 genesisKey.val).val ++ (padTo 64 aliceKey.val).val))))))
  { tx := { payload := { accessPrefix := [], ixData },
            restPreimage := fundingOutput ++ fundingOutput },
    context := { daaScore := 100 },
    access := [(configId, .write), (deriveUserResource cosigned (soloLock.idHash cosigned), .write),
      (bobId, .write)],
    exits := [],
    deposit := none }

/-- The same without the last signer: the second key of the user arrives
with no later entry in the way. -/
def joinKeys : Submission :=
  let body := encVec ActionBody.encode
    [.init 0 1000 10 covenant aliceLock, .deposit 1 0 0 soloLock, .deposit 2 0 1 .unlocked]
  let sigs := 32 + body.length
  let ixData := le32 3 ++ (signerEntry 0 0x05 sigs ++ (witnessEntry 1 ++
    (1 :: 0x03 :: 0 :: le32 (UInt32.ofNat (sigs + 64)) ++ (body ++
      ((padTo 64 genesisKey.val).val ++ (padTo 64 aliceKey.val).val)))))
  { splitKeys with tx := { payload := { accessPrefix := [], ixData },
                           restPreimage := fundingOutput ++ fundingOutput } }

@[irreducible] def joined : DecodedIx ActionBody × List UInt8 × RunState :=
  (ended cosigned (covenantDepositPolicy cosigned) .genesis joinKeys).get (by decide +kernel)

/-- The signers as decoded, and what each resolves to. -/
def genesisEntry : SignerEntry := joined.1.signers.getD 0 (0, .genesisSchnorrSigPtr 0)

def witnessed : SignerEntry := joined.1.signers.getD 1 (0, .genesisSchnorrSigPtr 0)

def pointed : SignerEntry := joined.1.signers.getD 2 (0, .genesisSchnorrSigPtr 0)

theorem joined_signers : joined.1.signers = [genesisEntry, witnessed, pointed] := by
  decide +kernel

/-- The calls before and after the user is created. -/
def firstCall : List Move :=
  [.resolved genesisEntry (.schnorr genesisKey), .resolved witnessed (.multisig [genesisKey]),
    .waiting pointed]

def secondCall : List Move :=
  [.had genesisEntry (.schnorr genesisKey), .had witnessed (.multisig [genesisKey]),
    .resolved pointed (.multisig [aliceKey])]

def contextAt (cx : ApplyContext) : SignerResolveContext := signerContext joined.2.1 cx

/-- Resources and resolver inputs at a moment of the run. -/
theorem resolves_of {e : SignerEntry} {u : Unlocker} {cx : ApplyContext}
    (h : (e.2.resolve cosigned e.1 (contextAt cx)).toOption = some u) :
    e.2.resolve cosigned e.1 (contextAt cx) = .ok u := by
  cases hres : e.2.resolve cosigned e.1 (contextAt cx) with
  | error f =>
    rw [hres] at h
    cases h
  | ok u' =>
    rw [hres] at h
    cases h
    rfl

theorem firstCall_valid : ∀ m ∈ firstCall, m.Valid cosigned
    (contextAt (Rollup.genesis.startOf joinKeys []).cx) (Rollup.genesis.attach joinKeys) := by
  have hwaits : waits (Rollup.genesis.attach joinKeys) pointed = true := by decide +kernel
  simp only [firstCall, List.forall_mem_cons, List.not_mem_nil, false_implies, implies_true,
    and_true]
  exact ⟨⟨by decide +kernel, resolves_of (by decide +kernel)⟩,
    ⟨by decide +kernel, resolves_of (by decide +kernel)⟩, hwaits⟩

/-- In the end every signer would resolve to the same. -/
theorem late_valid : ∀ e u, (e, some u) ∈ secondCall.map Move.after →
    waits joined.2.2.cx.resources e = false ∧
      e.2.resolve cosigned e.1 (contextAt joined.2.2.cx) = .ok u := by
  intro e u h
  simp only [secondCall, List.map_cons, List.map_nil, Move.after, List.mem_cons,
    List.not_mem_nil, or_false, Prod.mk.injEq, Option.some.injEq] at h
  obtain ⟨rfl, rfl⟩ | ⟨rfl, rfl⟩ | ⟨rfl, rfl⟩ := h
  · exact ⟨by decide +kernel, resolves_of (by decide +kernel)⟩
  · exact ⟨by decide +kernel, resolves_of (by decide +kernel)⟩
  · exact ⟨by decide +kernel, resolves_of (by decide +kernel)⟩

theorem secondCall_valid : ∀ m ∈ secondCall, m.Valid cosigned (contextAt joined.2.2.cx)
    joined.2.2.cx.resources := by
  have hpointed := late_valid pointed (.multisig [aliceKey]) (by simp [secondCall, Move.after])
  simp only [secondCall, List.forall_mem_cons, List.not_mem_nil, false_implies, implies_true,
    and_true]
  exact ⟨trivial, trivial, hpointed⟩

theorem clean_secondCall : Clean secondCall := by
  constructor
  · simp [secondCall]
  · intro e ks e' ks' hres _ _
    simp only [secondCall, List.mem_cons, List.not_mem_nil, or_false, Move.resolved.injEq,
      reduceCtorEq, false_or] at hres
    obtain ⟨rfl, -⟩ := hres
    constructor
    · intro d kd hd
      simp only [secondCall, List.mem_cons, List.not_mem_nil, or_false, Move.had.injEq,
        reduceCtorEq, Unlocker.multisig.injEq, and_false, false_or] at hd
      obtain ⟨rfl, -⟩ := hd
      decide +kernel
    · intro d kd hd
      simp only [secondCall, List.mem_cons, List.not_mem_nil, or_false, Move.resolved.injEq,
        reduceCtorEq, false_or] at hd
      obtain ⟨rfl, -⟩ := hd
      exact UInt8.le_refl _

/-- The buckets after the two calls. -/
def joinedAuth : AuthContext :=
  (((AuthContext.default.fileAll (firstCall.filterMap Move.gained)).sorted cosigned).fileAll
    (secondCall.filterMap Move.gained)).sorted cosigned

theorem lazyRun_joined :
    LazyRun cosigned Clean joined.1.signers (secondCall.map Move.after) joinedAuth := by
  have hbefore : firstCall.map Move.before = unresolved joined.1.signers := by
    rw [joined_signers]
    rfl
  have hstart : LazyRun cosigned Clean joined.1.signers (firstCall.map Move.before) .default := by
    rw [hbefore]
    exact .start
  have hbetween : LazyRun cosigned Clean joined.1.signers (secondCall.map Move.before) _ :=
    hstart.call firstCall_valid (clean_of_unresolved hbefore)
      (resolvePending_moves firstCall_valid _)
  exact hbetween.call secondCall_valid clean_secondCall (resolvePending_moves secondCall_valid _)

end Sample

/-- Both keys of the user are in one entry, as the run has it and as one call
at the end of it gives it. -/
theorem lazy_buckets_joined :
    Sample.joinedAuth = Sample.joined.2.2.cx.authCtx ∧
      Sample.joinedAuth.multisig = [(1, [Sample.genesisKey, Sample.aliceKey])] ∧
      Grouped (contributed Unlocker.multisigKeys (Sample.secondCall.map Move.after))
        Sample.joinedAuth.multisig ∧
      resolvePending Sample.cosigned Sample.joined.1.signers .default
        (Sample.contextAt Sample.joined.2.2.cx) Sample.joined.2.2.cx.resources
        = .ok ([], Sample.joinedAuth) := by
  have hsome : Sample.ended Sample.cosigned (covenantDepositPolicy Sample.cosigned) .genesis
      Sample.joinKeys = some Sample.joined := by
    unfold Sample.joined
    exact (Option.some_get _).symm
  obtain ⟨hix, -, -⟩ := Sample.ended_spec hsome
  obtain ⟨hgrouped, heager⟩ := lazy_buckets hix Sample.lazyRun_joined
  have hties : NoTies Sample.joined.1.signers := by
    unfold NoTies
    decide +kernel
  have hschnorr : Sample.joinedAuth.schnorr = Sample.joined.2.2.cx.authCtx.schnorr := by
    decide +kernel
  have hfinal : Sample.joinedAuth.multisig = Sample.joined.2.2.cx.authCtx.multisig := by
    decide +kernel
  have hmultisig : Sample.joinedAuth.multisig = [(1, [Sample.genesisKey, Sample.aliceKey])] := by
    decide +kernel
  exact ⟨congrArg₂ AuthContext.mk hschnorr hfinal, hmultisig, hgrouped,
    heager (.inr hties) rfl _ _ Sample.late_valid⟩

/-- The keys of one resource end up in two entries. -/
theorem splitKeys_twice :
    ∃ (ix : DecodedIx ActionBody) (presig : List UInt8) (s : RunState),
      Rollup.genesis.decoded Sample.cosigned Sample.splitKeys = .ok ix ∧
      payloadPresig Sample.splitKeys.tx.payload ix.endOfActionsInIx = .ok presig ∧
      RunsTo Sample.cosigned (covenantDepositPolicy Sample.cosigned) presig
        (Rollup.genesis.startOf Sample.splitKeys ix.signers) ix.actions s ∧
      s.cx.authCtx.multisig.map Prod.fst = [1, 1, 2] ∧ s.pending = [] := by
  have hcheck : (Sample.ended Sample.cosigned (covenantDepositPolicy Sample.cosigned) .genesis
      Sample.splitKeys).any (fun m => m.2.2.cx.authCtx.multisig.map Prod.fst = [1, 1, 2] ∧
        m.2.2.pending = []) = true := by
    decide +kernel
  obtain ⟨m, hm, hmoment⟩ := (Option.any_eq_true _ _).mp hcheck
  obtain ⟨hix, hpre, hto⟩ := Sample.ended_spec hm
  exact ⟨m.1, m.2.1, m.2.2, hix, hpre, hto, of_decide_eq_true hmoment⟩

end TicTacToe
