/-
TicTacToe.Run — one transaction (`program/run.rs`): decode, resolve the
signers, apply the actions one by one, with signers that could not be
resolved yet retried before each action.

`RunsTo` names the states a run passes through between two actions, and
`Applies` the contexts its actions are applied in, so that what is proved
of a run can speak of any moment of it. `Sourced` is where the keys of an
auth context come from: every one was produced by a signer of the
transaction that resolved, for that index, at some moment of the run.

No `sorry`, no `axiom`, no `native_decide`.
-/
import TicTacToe.Action.Apply
import TicTacToe.Runtime.Ix

namespace TicTacToe

open Lib

abbrev SignerEntry := UInt8 × SignerEnum

/-! ## Resolving signers -/

/-- The sig-pointer kinds, which read the resource's lock. -/
def SignerEnum.gated : SignerEnum → Bool
  | schnorrSigPtr _ | multisigSchnorrSigPtr _ _ => true
  | prevTxV1Witness _ | multisigPrevTxV1Witness _ | genesisSchnorrSigPtr _ => false

/-- Whether the index holds user or config data. -/
def lockBearing (resources : List Resource) (resourceIdx : UInt8) : Bool :=
  match resources[resourceIdx.toNat]? with
  | none => false
  | some r =>
    match r.data.head?.bind Kind.tryFrom with
    | some .user | some .config => true
    | _ => false

/-- Extends the last bucket entry when it is for this index. -/
def appendMultisigContrib (bucket : List (UInt8 × List Bytes32)) (resourceIdx : UInt8)
    (contrib : List Bytes32) : List (UInt8 × List Bytes32) :=
  match bucket.getLast? with
  | some (lastIdx, last) =>
    if lastIdx = resourceIdx then bucket.dropLast ++ [(lastIdx, last ++ contrib)]
    else bucket ++ [(resourceIdx, contrib)]
  | none => bucket ++ [(resourceIdx, contrib)]

/-- Resolves one signer into the bucket of its kind. -/
def resolveOne (B : Battery) (entry : SignerEntry) (auth : AuthContext)
    (ctx : SignerResolveContext) : Except Fault AuthContext :=
  match entry.2.resolve B entry.1 ctx with
  | .error e => .error e
  | .ok (.schnorr pubkey) => .ok { auth with schnorr := auth.schnorr ++ [(entry.1, pubkey)] }
  | .ok (.multisig pubkeys) =>
    .ok { auth with multisig := appendMultisigContrib auth.multisig entry.1 pubkeys }

/-- The loop of `resolve_pending`: what is still pending, and the new keys. -/
def resolveEach (B : Battery) (ctx : SignerResolveContext) (resources : List Resource) :
    List SignerEntry → AuthContext → Except Fault (List SignerEntry × AuthContext)
  | [], auth => .ok ([], auth)
  | entry :: rest, auth =>
    if entry.2.gated && !lockBearing resources entry.1 then
      match resolveEach B ctx resources rest auth with
      | .error e => .error e
      | .ok (still, auth') => .ok (entry :: still, auth')
    else
      match resolveOne B entry auth ctx with
      | .error e => .error e
      | .ok auth' => resolveEach B ctx resources rest auth'

/-- `resolve_pending`, ending with both buckets sorted by index. -/
def resolvePending (B : Battery) (pending : List SignerEntry) (auth : AuthContext)
    (ctx : SignerResolveContext) (resources : List Resource) :
    Except Fault (List SignerEntry × AuthContext) :=
  match resolveEach B ctx resources pending auth with
  | .error e => .error e
  | .ok (still, auth') =>
    .ok (still, { schnorr := (B.sortUnstable auth'.schnorr).val,
                  multisig := (B.sortUnstable auth'.multisig).val })

/-! ## The loop over the actions -/

structure RunState where
  cx : ApplyContext
  pending : List SignerEntry

abbrev RunM (α : Type) := EStateM Fault RunState α

/-- `SignerResolveContext::new`. -/
def signerContext (payloadPresig : List UInt8) (cx : ApplyContext) : SignerResolveContext where
  payloadBytes := cx.tx.payload.bytes
  restPreimage := cx.tx.restPreimage
  payloadPresig := payloadPresig
  resources := cx.resources

def resolveSigners (B : Battery) (payloadPresig : List UInt8) : RunM Unit := do
  let s ← get
  let (pending, authCtx) ← liftE
    (resolvePending B s.pending s.cx.authCtx (signerContext payloadPresig s.cx) s.cx.resources)
  set { cx := { s.cx with authCtx }, pending : RunState }

/-- What runs before each action. -/
def retrySigners (B : Battery) (payloadPresig : List UInt8) : RunM Unit := do
  let s ← get
  if s.pending = [] then
    return ()
  else
    resolveSigners B payloadPresig

def runAction (B : Battery) (P : DepositPolicy) (payloadPresig : List UInt8) (a : ActionBody) :
    RunM Unit := do
  retrySigners B payloadPresig
  zoom (fun s => some s.cx) (fun cx s => { s with cx }) .panic (applyAction B P a)

def runActions (B : Battery) (P : DepositPolicy) (payloadPresig : List UInt8) :
    List ActionBody → RunM Unit
  | [] => return ()
  | a :: rest => do
    runAction B P payloadPresig a
    runActions B P payloadPresig rest

def runSignersAndActions (B : Battery) (P : DepositPolicy) (payloadPresig : List UInt8)
    (actions : List ActionBody) : RunM Unit := do
  resolveSigners B payloadPresig
  runActions B P payloadPresig actions
  let s ← get
  if s.pending ≠ [] then
    throw (.decode "signer: unknown or absent resource kind")
  else
    return ()

/-- `&bytes[..n]`. -/
def sliceTo (bytes : List UInt8) (n : Nat) : Except Fault (List UInt8) :=
  if n ≤ bytes.length then .ok (bytes.take n) else .error .panic

/-- The state before any signer is resolved. -/
def startState (tx : Transaction) (context : MergesetContext) (resources : List Resource)
    (exits : ExitSink) (deposit : DepositSink) (signers : List SignerEntry) : RunState where
  cx := { tx, context, resources, authCtx := .default, exits, deposit,
          lifecycle := resources.map Lifecycle.fromResource, consumedOutputs := [] }
  pending := signers

/-- `payload_presig`: the access prefix and the instruction up to the tail. -/
def payloadPresig (payload : Payload) (endOfActionsInIx : Nat) : Except Fault (List UInt8) := do
  let accessPrefixLen ← subLen payload.bytes.length payload.ixData.length
  sliceTo payload.bytes (accessPrefixLen + endOfActionsInIx)

/-- `run`, returning the context it leaves the resources and sinks in. -/
def run (B : Battery) (P : DepositPolicy) (tx : Transaction) (context : MergesetContext)
    (resources : List Resource) (exits : ExitSink) (deposit : DepositSink) :
    Except Fault ApplyContext := do
  let ix ← decodeIx tx.payload.ixData resources.length (decodeAction B)
  let presig ← payloadPresig tx.payload ix.endOfActionsInIx
  match runSignersAndActions B P presig ix.actions
      (startState tx context resources exits deposit ix.signers) with
  | .ok _ s => .ok s.cx
  | .error e _ => .error e

section Decoded

variable {B : Battery} {P : DepositPolicy} {tx : Transaction} {context : MergesetContext}
  {resources : List Resource} {exits : ExitSink} {deposit : DepositSink}

theorem run_of_decoded {ix : DecodedIx ActionBody} {presig : List UInt8}
    (hix : decodeIx tx.payload.ixData resources.length (decodeAction B) = .ok ix)
    (hpre : payloadPresig tx.payload ix.endOfActionsInIx = .ok presig) :
    run B P tx context resources exits deposit
      = match runSignersAndActions B P presig ix.actions
          (startState tx context resources exits deposit ix.signers) with
        | .ok _ s => .ok s.cx
        | .error e _ => .error e := by
  unfold run
  rw [hix]
  show (payloadPresig tx.payload ix.endOfActionsInIx >>= _) = _
  rw [hpre]
  rfl

theorem run_of_undecoded {e : Fault}
    (hix : decodeIx tx.payload.ixData resources.length (decodeAction B) = .error e) :
    run B P tx context resources exits deposit = .error e := by
  unfold run
  rw [hix]
  rfl

/-- The actions section ends inside the payload, so the prefix can be cut. -/
theorem payloadPresig_ok {p : Payload} {n : Nat} (h : n ≤ p.ixData.length) :
    ∃ presig, payloadPresig p n = .ok presig := by
  have hlen : p.bytes.length = p.accessPrefix.length + p.ixData.length := List.length_append
  have hsub : subLen p.bytes.length p.ixData.length
      = .ok (p.bytes.length - p.ixData.length) := if_pos (by omega)
  refine ⟨p.bytes.take (p.bytes.length - p.ixData.length + n), ?_⟩
  unfold payloadPresig
  rw [hsub]
  exact if_pos (by omega)

end Decoded

/-! ## Moments of a run -/

/-- The states between two actions, with the actions applied so far. -/
inductive RunsTo (B : Battery) (P : DepositPolicy) (presig : List UInt8) (s₀ : RunState) :
    List ActionBody → RunState → Prop
  | resolved {s : RunState} : resolveSigners B presig s₀ = .ok () s → RunsTo B P presig s₀ [] s
  | acted {as : List ActionBody} {a : ActionBody} {s s' : RunState} : RunsTo B P presig s₀ as s →
      runAction B P presig a s = .ok () s' → RunsTo B P presig s₀ (as ++ [a]) s'

/-- After `as`, the next action is applied in the context `cx`. -/
def Applies (B : Battery) (P : DepositPolicy) (presig : List UInt8) (s₀ : RunState)
    (as : List ActionBody) (cx : ApplyContext) : Prop :=
  ∃ s s' : RunState, RunsTo B P presig s₀ as s ∧ retrySigners B presig s = .ok () s' ∧ s'.cx = cx

/-- Runs to the moment the next action is applied. -/
def runUpTo (B : Battery) (P : DepositPolicy) (presig : List UInt8) (as : List ActionBody) :
    RunM Unit := do
  resolveSigners B presig
  runActions B P presig as
  retrySigners B presig

section Moments

variable {B : Battery} {P : DepositPolicy} {presig : List UInt8} {s₀ s s' : RunState}

theorem RunsTo.runActions {as bs : List ActionBody} (h : RunsTo B P presig s₀ as s)
    (hrun : runActions B P presig bs s = .ok () s') : RunsTo B P presig s₀ (as ++ bs) s' := by
  induction bs generalizing as s with
  | nil =>
    obtain ⟨-, rfl⟩ := ok_pure.mp hrun
    rwa [List.append_nil]
  | cons b bs ih =>
    obtain ⟨_, s₁, hb, hrest⟩ := ok_bind.mp hrun
    rw [List.append_cons]
    exact ih (h.acted hb) hrest

theorem applies_of_runUpTo {as : List ActionBody} (h : runUpTo B P presig as s₀ = .ok () s) :
    Applies B P presig s₀ as s.cx := by
  obtain ⟨_, s₁, hres, h⟩ := ok_bind.mp h
  obtain ⟨_, s₂, hacts, hretry⟩ := ok_bind.mp h
  exact ⟨s₂, s, (RunsTo.resolved hres).runActions hacts, hretry, rfl⟩

end Moments

section Signers

variable {B : Battery} {presig : List UInt8}

theorem rejects_resolveOne (entry : SignerEntry) (auth : AuthContext)
    (ctx : SignerResolveContext) : Rejects (resolveOne B entry auth ctx) := by
  have hrej := SignerEnum.resolve_rejects B entry.2 entry.1 ctx
  unfold resolveOne
  cases h : entry.2.resolve B entry.1 ctx with
  | error e =>
    rintro e' ⟨⟩
    exact hrej e h
  | ok u =>
    cases u with
    | schnorr pk => exact rejects_ok _
    | multisig pks => exact rejects_ok _

theorem rejects_resolveEach (ctx : SignerResolveContext) (resources : List Resource)
    (pending : List SignerEntry) (auth : AuthContext) :
    Rejects (resolveEach B ctx resources pending auth) := by
  induction pending generalizing auth with
  | nil => exact rejects_ok _
  | cons entry rest ih =>
    unfold resolveEach
    split
    · cases h : resolveEach B ctx resources rest auth with
      | error e =>
        rintro e' ⟨⟩
        exact ih auth e h
      | ok p => exact rejects_ok _
    · cases h : resolveOne B entry auth ctx with
      | error e =>
        rintro e' ⟨⟩
        exact rejects_resolveOne entry auth ctx e h
      | ok auth' => exact ih auth'

theorem rejects_resolvePending (pending : List SignerEntry) (auth : AuthContext)
    (ctx : SignerResolveContext) (resources : List Resource) :
    Rejects (resolvePending B pending auth ctx resources) := by
  unfold resolvePending
  cases h : resolveEach B ctx resources pending auth with
  | error e =>
    rintro e' ⟨⟩
    exact rejects_resolveEach ctx resources pending auth e h
  | ok p => exact rejects_ok _

/-- Every key of `auth` came from a signer that resolved, for the index the
key is filed under, in a context of `R`. -/
structure Sourced (B : Battery) (signers : List SignerEntry) (R : SignerResolveContext → Prop)
    (auth : AuthContext) : Prop where
  schnorr : ∀ i pk, (i, pk) ∈ auth.schnorr →
    ∃ s ctx, (i, s) ∈ signers ∧ R ctx ∧ s.resolve B i ctx = .ok (.schnorr pk)
  multisig : ∀ i pks pk, (i, pks) ∈ auth.multisig → pk ∈ pks →
    ∃ s ctx ks, (i, s) ∈ signers ∧ R ctx ∧ s.resolve B i ctx = .ok (.multisig ks) ∧ pk ∈ ks

variable {signers : List SignerEntry} {R R' : SignerResolveContext → Prop} {auth auth' : AuthContext}

theorem sourced_default : Sourced B signers R .default where
  schnorr _ _ h := absurd h List.not_mem_nil
  multisig _ _ _ h := absurd h List.not_mem_nil

theorem Sourced.mono (h : Sourced B signers R auth) (hle : ∀ ctx, R ctx → R' ctx) :
    Sourced B signers R' auth where
  schnorr i pk hm := by
    obtain ⟨s, ctx, hs, hR, hres⟩ := h.schnorr i pk hm
    exact ⟨s, ctx, hs, hle ctx hR, hres⟩
  multisig i pks pk hm hpk := by
    obtain ⟨s, ctx, ks, hs, hR, hres⟩ := h.multisig i pks pk hm hpk
    exact ⟨s, ctx, ks, hs, hle ctx hR, hres⟩

/-- A contribution adds its own keys under its own index, and nothing else. -/
theorem mem_appendMultisigContrib {bucket : List (UInt8 × List Bytes32)} {idx i : UInt8}
    {contrib pks : List Bytes32} {pk : Bytes32}
    (h : (i, pks) ∈ appendMultisigContrib bucket idx contrib) (hpk : pk ∈ pks) :
    (∃ pks', (i, pks') ∈ bucket ∧ pk ∈ pks') ∨ (i = idx ∧ pk ∈ contrib) := by
  unfold appendMultisigContrib at h
  have hnew : (i, pks) ∈ bucket ++ [(idx, contrib)] →
      (∃ pks', (i, pks') ∈ bucket ∧ pk ∈ pks') ∨ (i = idx ∧ pk ∈ contrib) := fun hm => by
    rcases List.mem_append.mp hm with hold | hsingle
    · exact .inl ⟨pks, hold, hpk⟩
    · obtain ⟨rfl, rfl⟩ := Prod.mk.inj (List.mem_singleton.mp hsingle)
      exact .inr ⟨rfl, hpk⟩
  cases hlast : bucket.getLast? with
  | none =>
    rw [hlast] at h
    exact hnew h
  | some e =>
    obtain ⟨lastIdx, last⟩ := e
    rw [hlast] at h
    dsimp only at h
    by_cases hidx : lastIdx = idx
    · rw [if_pos hidx] at h
      rcases List.mem_append.mp h with hold | hsingle
      · exact .inl ⟨pks, List.dropLast_subset _ hold, hpk⟩
      · obtain ⟨rfl, rfl⟩ := Prod.mk.inj (List.mem_singleton.mp hsingle)
        rcases List.mem_append.mp hpk with hl | hc
        · exact .inl ⟨last, List.mem_of_getLast? hlast, hl⟩
        · exact .inr ⟨hidx, hc⟩
    · rw [if_neg hidx] at h
      exact hnew h

theorem Sourced.resolveOne {entry : SignerEntry} {ctx : SignerResolveContext}
    (h : Sourced B signers R auth) (hmem : entry ∈ signers) (hctx : R ctx)
    (hrun : resolveOne B entry auth ctx = .ok auth') : Sourced B signers R auth' := by
  obtain ⟨idx, s⟩ := entry
  unfold TicTacToe.resolveOne at hrun
  cases hres : s.resolve B idx ctx with
  | error e =>
    rw [hres] at hrun
    cases hrun
  | ok u =>
    rw [hres] at hrun
    cases u with
    | schnorr pk =>
      cases hrun
      refine ⟨fun i k hm => ?_, h.multisig⟩
      rcases List.mem_append.mp hm with hold | hnew
      · exact h.schnorr i k hold
      · obtain ⟨rfl, rfl⟩ := Prod.mk.inj (List.mem_singleton.mp hnew)
        exact ⟨s, ctx, hmem, hctx, hres⟩
    | multisig pks =>
      cases hrun
      refine ⟨h.schnorr, fun i ks pk hm hpk => ?_⟩
      rcases mem_appendMultisigContrib hm hpk with ⟨ks', hold, hpk'⟩ | ⟨rfl, hnew⟩
      · exact h.multisig i ks' pk hold hpk'
      · exact ⟨s, ctx, pks, hmem, hctx, hres, hnew⟩

theorem Sourced.resolveEach {pending still : List SignerEntry} {ctx : SignerResolveContext}
    {resources : List Resource} (h : Sourced B signers R auth)
    (hsub : ∀ e ∈ pending, e ∈ signers) (hctx : R ctx)
    (hrun : resolveEach B ctx resources pending auth = .ok (still, auth')) :
    Sourced B signers R auth' ∧ ∀ e ∈ still, e ∈ pending := by
  induction pending generalizing auth still with
  | nil =>
    cases hrun
    exact ⟨h, fun _ he => he⟩
  | cons entry rest ih =>
    have hrest : ∀ e ∈ rest, e ∈ signers := fun e he => hsub e (List.mem_cons_of_mem _ he)
    unfold TicTacToe.resolveEach at hrun
    split at hrun
    · cases hrec : TicTacToe.resolveEach B ctx resources rest auth with
      | error e =>
        rw [hrec] at hrun
        cases hrun
      | ok p =>
        rw [hrec] at hrun
        cases hrun
        obtain ⟨hs, hstill⟩ := ih h hrest hrec
        refine ⟨hs, fun e he => ?_⟩
        rcases List.mem_cons.mp he with rfl | hin
        · exact List.mem_cons_self
        · exact List.mem_cons_of_mem _ (hstill e hin)
    · cases hone : TicTacToe.resolveOne B entry auth ctx with
      | error e =>
        rw [hone] at hrun
        cases hrun
      | ok auth₁ =>
        rw [hone] at hrun
        obtain ⟨hs, hstill⟩ := ih (h.resolveOne (hsub _ List.mem_cons_self) hctx hone) hrest hrun
        exact ⟨hs, fun e he => List.mem_cons_of_mem _ (hstill e he)⟩

/-- Sorting the buckets keeps every key where it came from. -/
theorem Sourced.resolvePending {pending still : List SignerEntry} {ctx : SignerResolveContext}
    {resources : List Resource} (h : Sourced B signers R auth)
    (hsub : ∀ e ∈ pending, e ∈ signers) (hctx : R ctx)
    (hrun : resolvePending B pending auth ctx resources = .ok (still, auth')) :
    Sourced B signers R auth' ∧ ∀ e ∈ still, e ∈ signers := by
  unfold TicTacToe.resolvePending at hrun
  cases hrec : TicTacToe.resolveEach B ctx resources pending auth with
  | error e =>
    rw [hrec] at hrun
    cases hrun
  | ok p =>
    rw [hrec] at hrun
    cases hrun
    obtain ⟨hs, hstill⟩ := h.resolveEach hsub hctx hrec
    refine ⟨⟨fun i pk hm => ?_, fun i pks pk hm => ?_⟩, fun e he => hsub e (hstill e he)⟩
    · exact hs.schnorr i pk ((B.sortUnstable p.2.schnorr).property.1.mem_iff.mp hm)
    · exact hs.multisig i pks pk ((B.sortUnstable p.2.multisig).property.1.mem_iff.mp hm)

end Signers

end TicTacToe
