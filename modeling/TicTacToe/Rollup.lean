/-
TicTacToe.Rollup — the store over a sequence of transactions, and the
ledger machine it implements.

A `Submission` is a transaction with the ids and access modes it attaches
and the sinks it is given. An accepted one writes its resources back and
leaves a receipt; a refused one leaves the rollup as it was.
`Reachable.refines` is the theorem the invariants rest on: the store of
any reachable rollup stands for a ledger that its receipts lead to.

No `sorry`, no `axiom`, no `native_decide`.
-/
import TicTacToe.Action.Encode
import TicTacToe.Ledger.Transaction

namespace TicTacToe

open Lib

structure Submission where
  tx : Transaction
  context : MergesetContext
  access : List (ResourceId × AccessType)
  exits : ExitSink
  deposit : DepositSink

/-- An accepted transaction, its actions and the exits it emitted. -/
structure Receipt where
  tx : Transaction
  actions : List ActionBody
  exits : List Exit

structure Rollup where
  store : Store
  accepted : List Receipt

namespace Rollup

def genesis : Rollup := { store := fun _ => [], accepted := [] }

/-- The resources a submission gets to see. -/
def attach (R : Rollup) (sub : Submission) : List Resource :=
  sub.access.map fun p => { id := p.1, accessType := p.2, data := R.store p.1 }

/-- `run` on a submission. -/
def runOn (B : Battery) (P : DepositPolicy) (R : Rollup) (sub : Submission) :
    Except Fault ApplyContext :=
  run B P sub.tx sub.context (R.attach sub) sub.exits sub.deposit

/-- The instruction a submission carries. -/
def decoded (B : Battery) (R : Rollup) (sub : Submission) : Except Fault (DecodedIx ActionBody) :=
  decodeIx sub.tx.payload.ixData (R.attach sub).length (decodeAction B)

def submit (B : Battery) (P : DepositPolicy) (R : Rollup) (sub : Submission) : Rollup :=
  match R.decoded B sub, R.runOn B P sub with
  | .ok ix, .ok cx =>
    { store := R.store.commit cx.resources,
      accepted := R.accepted ++
        [{ tx := sub.tx, actions := ix.actions, exits := cx.exits.drop sub.exits.length }] }
  | _, _ => R

/-- Every action accepted so far, in order. -/
def events (R : Rollup) : List Event :=
  R.accepted.flatMap fun rc => rc.actions.map (⟨rc.tx, ·⟩)

/-- The context a submission starts in, before any signer. -/
def startOf (R : Rollup) (sub : Submission) (signers : List SignerEntry) : RunState :=
  startState sub.tx sub.context (R.attach sub) sub.exits sub.deposit signers

/-- Running `sub` over `R` applies, after the actions `as`, the action `a` in
the context `cx`. -/
structure Applying (B : Battery) (P : DepositPolicy) (R : Rollup) (sub : Submission)
    (as : List ActionBody) (a : ActionBody) (cx : ApplyContext) : Prop where
  exists_run : ∃ ix presig, R.decoded B sub = .ok ix ∧
    payloadPresig sub.tx.payload ix.endOfActionsInIx = .ok presig ∧ (as ++ [a]) <+: ix.actions ∧
    Applies B P presig (R.startOf sub ix.signers) as cx

end Rollup

/-- The stores there are to look at: the rollup's own, and what a running
transaction would write back just before and just after one of its actions. -/
inductive Rollup.Observed (B : Battery) (P : DepositPolicy) (R : Rollup) : Store → Prop
  | between : R.Observed B P R.store
  | before {sub : Submission} {as : List ActionBody} {a : ActionBody} {cx : ApplyContext} :
      (sub.access.map Prod.fst).Nodup → R.Applying B P sub as a cx →
      R.Observed B P (R.store.commit cx.resources)
  | after {sub : Submission} {as : List ActionBody} {a : ActionBody} {cx cx' : ApplyContext} :
      (sub.access.map Prod.fst).Nodup → R.Applying B P sub as a cx →
      applyAction B P a cx = .ok () cx' → R.Observed B P (R.store.commit cx'.resources)

/-- Any sequence of submissions, each over distinct resources. -/
inductive Reachable (B : Battery) (P : DepositPolicy) : Rollup → Prop
  | genesis : Reachable B P Rollup.genesis
  | submit {R : Rollup} {sub : Submission} : Reachable B P R →
      (sub.access.map Prod.fst).Nodup → Reachable B P (R.submit B P sub)

section Refinement

variable {B : Battery} {P : DepositPolicy} {R : Rollup} {sub : Submission}

theorem Rollup.coherent_start (hn : (sub.access.map Prod.fst).Nodup) (signers : List SignerEntry) :
    (R.startOf sub signers).cx.Coherent where
  nodup := by
    show ((sub.access.map _).map Resource.id).Nodup
    rw [List.map_map]
    exact hn
  lifecycle := rfl

/-- Attaching resources writes nothing. -/
theorem Rollup.commit_attach (R : Rollup) (sub : Submission) :
    R.store.commit (R.attach sub) = R.store := by
  funext id
  unfold Store.commit
  cases hf : (R.attach sub).find? fun r => r.id = id with
  | none => rfl
  | some r =>
    have hid : r.id = id := by simpa using List.find?_some hf
    obtain ⟨p, -, rfl⟩ := List.mem_map.mp (List.mem_of_find?_eq_some hf)
    subst hid
    rfl

variable (sub) in
theorem Rollup.runInv_start {h : List Event} (hn : (sub.access.map Prod.fst).Nodup)
    (hL : LedgerRun B P h (R.store.ledger B)) (signers : List SignerEntry) :
    RunInv B P R.store h (R.startOf sub signers).cx [] (R.startOf sub signers).cx where
  coherent := Rollup.coherent_start hn signers
  ledger := by
    rw [List.map_nil, List.append_nil]
    show LedgerRun B P h ((R.store.commit (R.attach sub)).ledger B)
    rw [Rollup.commit_attach]
    exact hL
  keys := rfl
  tx := rfl
  context := rfl
  exits := (List.append_nil _).symm
  outputs := rfl
  outputs_nodup := List.nodup_nil
  users {id u} hu := by
    refine ⟨u, ?_, rfl⟩
    show (R.store.commit (R.attach sub)).ledger B id = .user u
    rw [Rollup.commit_attach]
    exact hu

variable (sub) in
/-- What `run` does over a store with a history: it leaves the context of
its decoded actions, or rejects. -/
theorem Rollup.runOn_spec {h : List Event} (hn : (sub.access.map Prod.fst).Nodup)
    (hL : LedgerRun B P h (R.store.ledger B)) :
    match R.runOn B P sub with
    | .ok cx => ∃ ix, R.decoded B sub = .ok ix ∧
        RunInv B P R.store h (R.startOf sub ix.signers).cx ix.actions cx
    | .error e => e.IsReject := by
  have hdec := decodeIx_spec sub.tx.payload.ixData
    (decodes_decodeAction B (R.attach sub).length)
  unfold Rollup.runOn Rollup.decoded
  cases hix : decodeIx sub.tx.payload.ixData (R.attach sub).length (decodeAction B) with
  | error e =>
    rw [hix] at hdec
    rw [run_of_undecoded hix]
    exact hdec
  | ok ix =>
    rw [hix] at hdec
    obtain ⟨-, hin, hend⟩ := hdec
    obtain ⟨presig, hpre⟩ := payloadPresig_ok hend
    have hwp := wp_runSignersAndActions presig
      (Rollup.runInv_start sub hn hL ix.signers) hin
    rw [run_of_decoded hix hpre]
    cases hrun : runSignersAndActions B P presig ix.actions (R.startOf sub ix.signers) with
    | ok a s =>
      simp only [Rollup.startOf] at hrun
      simp only [hrun]
      exact ⟨ix, rfl, hwp.ok hrun⟩
    | error e s =>
      simp only [Rollup.startOf] at hrun
      simp only [hrun]
      exact hwp.error hrun

/-- What a reachable rollup owes its receipts. -/
structure Receipt.Faithful (rc : Receipt) : Prop where
  exits : rc.exits = rc.actions.flatMap ActionBody.exits
  outputs_nodup : (rc.actions.flatMap ActionBody.outputs).Nodup

/-- **Refinement.** The store of a reachable rollup stands for a ledger that
the accepted actions lead to. -/
theorem Reachable.refines (h : Reachable B P R) :
    LedgerRun B P R.events (R.store.ledger B) ∧ ∀ rc ∈ R.accepted, rc.Faithful := by
  induction h with
  | genesis => exact ⟨.genesis, fun _ hm => absurd hm List.not_mem_nil⟩
  | @submit R sub _ hn ih =>
    obtain ⟨hL, hrc⟩ := ih
    have hspec := Rollup.runOn_spec sub hn hL
    unfold Rollup.submit
    cases hrun : R.runOn B P sub with
    | error e =>
      cases R.decoded B sub <;> exact ⟨hL, hrc⟩
    | ok cx =>
      rw [hrun] at hspec
      obtain ⟨ix, hix, hinv⟩ := hspec
      simp only [hix]
      have hexits : cx.exits.drop sub.exits.length = ix.actions.flatMap ActionBody.exits := by
        rw [hinv.exits]
        exact List.drop_left
      constructor
      · have hledger := hinv.ledger
        rw [hinv.tx] at hledger
        rw [Rollup.events, List.flatMap_append, List.flatMap_singleton]
        exact hledger
      · intro rc hm
        rcases List.mem_append.mp hm with hold | hnew
        · exact hrc rc hold
        · rw [List.mem_singleton.mp hnew]
          exact ⟨hexits, hinv.outputs ▸ hinv.outputs_nodup⟩

/-- A resource that is not attached stays as it is. -/
theorem Rollup.submit_frame (hR : Reachable B P R) (hn : (sub.access.map Prod.fst).Nodup)
    {id : ResourceId} (hid : id ∉ sub.access.map Prod.fst) :
    (R.submit B P sub).store id = R.store id := by
  have hspec := Rollup.runOn_spec sub hn hR.refines.1
  unfold Rollup.submit
  cases hrun : R.runOn B P sub with
  | error e => cases R.decoded B sub <;> rfl
  | ok cx =>
    rw [hrun] at hspec
    obtain ⟨ix, hix, hinv⟩ := hspec
    simp only [hix]
    have hids : cx.resources.map Resource.id = sub.access.map Prod.fst := by
      have hkeys := congrArg (List.map Prod.fst) hinv.keys
      simpa [Rollup.startOf, startState, Rollup.attach, Function.comp_def] using hkeys
    have hnone : cx.resources.find? (fun r => r.id = id) = none := by
      rw [List.find?_eq_none]
      intro r hr heq
      exact hid (hids ▸ List.mem_map.mpr ⟨r, hr, of_decide_eq_true heq⟩)
    simp only [Store.commit, hnone]

/-- Every moment of every run over a reachable rollup. -/
theorem Rollup.Applying.inv (hR : Reachable B P R) (hn : (sub.access.map Prod.fst).Nodup)
    {as : List ActionBody} {a : ActionBody} {cx : ApplyContext}
    (h : R.Applying B P sub as a cx) :
    RunInv B P R.store R.events (R.startOf sub []).cx as cx ∧
      a.InBounds B cx.resources.length := by
  obtain ⟨ix, presig, hix, hpre, hinit, happ⟩ := h.exists_run
  have hdec := decodeIx_spec sub.tx.payload.ixData
    (decodes_decodeAction B (R.attach sub).length)
  unfold Rollup.decoded at hix
  rw [hix] at hdec
  obtain ⟨-, hin, -⟩ := hdec
  have hstart := Rollup.runInv_start sub hn hR.refines.1 ix.signers
  have hinv := happ.inv hstart fun b hb =>
    hin b (hinit.subset (List.mem_append_left _ hb))
  refine ⟨hinv, ?_⟩
  rw [hinv.length]
  exact hin a (hinit.subset (List.mem_append_right _ (List.mem_singleton_self a)))

/-- Every store there is to look at stands for a ledger with a history. -/
theorem Rollup.Observed.run (hR : Reachable B P R) {st : Store} (h : R.Observed B P st) :
    ∃ hist, LedgerRun B P hist (st.ledger B) := by
  cases h with
  | between => exact ⟨_, hR.refines.1⟩
  | before hn happ => exact ⟨_, (Rollup.Applying.inv hR hn happ).1.ledger⟩
  | after hn happ hact =>
    obtain ⟨hinv, hin⟩ := Rollup.Applying.inv hR hn happ
    have hacc := (wp_applyAction hinv.coherent hinv.sound hin).ok hact
    exact ⟨_, (hinv.accepted hacc).ledger⟩

end Refinement

/-! ## A rollup that has seen a game opened -/

/-- The actions before the `k`-th, that action and the context it is applied in. -/
def Rollup.moment (B : Battery) (P : DepositPolicy) (R : Rollup) (sub : Submission) (k : Nat) :
    Option (List ActionBody × ActionBody × ApplyContext) :=
  match R.decoded B sub with
  | .error _ => none
  | .ok ix =>
    match payloadPresig sub.tx.payload ix.endOfActionsInIx, ix.actions[k]? with
    | .ok presig, some a =>
      match runUpTo B P presig (ix.actions.take k) (R.startOf sub ix.signers) with
      | .ok _ s => some (ix.actions.take k, a, s.cx)
      | .error _ _ => none
    | _, _ => none

theorem Rollup.applying_of_moment {B : Battery} {P : DepositPolicy} {R : Rollup}
    {sub : Submission} {k : Nat} {m : List ActionBody × ActionBody × ApplyContext}
    (h : R.moment B P sub k = some m) : R.Applying B P sub m.1 m.2.1 m.2.2 := by
  unfold Rollup.moment at h
  cases hix : R.decoded B sub with
  | error e =>
    rw [hix] at h
    cases h
  | ok ix =>
    cases hpre : payloadPresig sub.tx.payload ix.endOfActionsInIx with
    | error e =>
      simp only [hix, hpre] at h
      cases h
    | ok presig =>
      cases ha : ix.actions[k]? with
      | none =>
        simp only [hix, hpre, ha] at h
        cases h
      | some a' =>
        cases hrun : runUpTo B P presig (ix.actions.take k) (R.startOf sub ix.signers) with
        | error e s =>
          simp only [hix, hpre, ha, hrun] at h
          cases h
        | ok u s =>
          simp only [hix, hpre, ha, hrun] at h
          cases h
          refine ⟨⟨ix, presig, hix, hpre, ?_, applies_of_runUpTo hrun⟩⟩
          have hk : k < ix.actions.length := (List.getElem?_eq_some_iff.mp ha).1
          have htake : ix.actions.take (k + 1) = ix.actions.take k ++ [a'] := by
            rw [List.take_add_one, ha]
            rfl
          exact htake ▸ List.take_prefix (k + 1) ix.actions

theorem Rollup.applying_get {B : Battery} {P : DepositPolicy} {R : Rollup} {sub : Submission}
    {k : Nat} (h : (R.moment B P sub k).isSome = true) :
    R.Applying B P sub ((R.moment B P sub k).get h).1 ((R.moment B P sub k).get h).2.1
      ((R.moment B P sub k).get h).2.2 :=
  Rollup.applying_of_moment (Option.some_get h).symm

namespace Sample

/-- The key of the genesis signer, and the one of the first player. -/
def genesisKey : Bytes32 := Battery.plain.genesisPubkey

def aliceKey : Bytes32 := padTo 32 [0xa1]

def covenant : Bytes32 := padTo 32 [0xcc]

def aliceLock : LockEnum := .schnorr aliceKey

def configId : ResourceId := configResourceId .plain

def aliceId : ResourceId := deriveUserResource .plain (aliceLock.idHash .plain)

/-- The second player's resource opens for anyone. -/
def bobId : ResourceId := deriveUserResource .plain (LockEnum.unlocked.idHash .plain)

def gameId : ResourceId := deriveGameResource .plain (aliceLock.idHash .plain) 0

def policy : DepositPolicy := covenantDepositPolicy .plain

/-- A schnorr signer entry of kind `kind` whose signature is at `off`. -/
def signerEntry (idx kind : UInt8) (off : Nat) : List UInt8 :=
  idx :: kind :: le32 (UInt32.ofNat off)

/-- Signer entries of six bytes each and the actions, then the signatures of
64 bytes each that the entries point at. -/
def instruction (signers : List (UInt8 × UInt8 × Bytes32)) (actions : List ActionBody) :
    List UInt8 :=
  let body := encVec ActionBody.encode actions
  let sigs := 4 + 6 * signers.length + body.length
  le32 (UInt32.ofNat signers.length) ++
    (signers.zipIdx.flatMap (fun p => signerEntry p.1.1 p.1.2.1 (sigs + 64 * p.2)) ++
    (body ++ signers.flatMap fun p => (padTo 64 p.2.2.val).val))

/-- An output of 20000 that pays the covenant. -/
def fundingOutput : List UInt8 := le64 20000 ++ p2shScript covenant

def submission (signers : List (UInt8 × UInt8 × Bytes32)) (actions : List ActionBody) :
    Submission where
  tx := { payload := { accessPrefix := [], ixData := instruction signers actions },
          restPreimage := fundingOutput ++ fundingOutput }
  context := { daaScore := 100 }
  access := [(configId, .write), (aliceId, .write), (bobId, .write), (gameId, .write)]
  exits := []
  deposit := none

/-- Init, one deposit for each player, a game of one round opened and joined. -/
def opening : Submission :=
  submission [(0, 0x05, genesisKey), (1, 0x01, aliceKey)]
    [.init 0 1000 10 covenant aliceLock, .deposit 1 0 0 aliceLock, .deposit 2 0 1 .unlocked,
      .createGame 1 3 500 1 .x, .joinGame 3 2]

def opened : Rollup := Rollup.genesis.submit .plain policy opening

/-- The first player wins on the top row and withdraws. -/
def playing : Submission :=
  submission [(1, 0x01, aliceKey)]
    [.turn 3 1 0, .turn 3 2 3, .turn 3 1 1, .turn 3 2 4, .turn 3 1 2,
      .withdraw 1 0 5000 (.pubKey aliceKey)]

def played : Rollup := opened.submit .plain policy playing

/-- In a game of five rounds instead, the first player has two cells queued
behind the marks on the board. -/
def queueing : Submission :=
  submission [(0, 0x05, genesisKey), (1, 0x01, aliceKey)]
    [.init 0 1000 10 covenant aliceLock, .deposit 1 0 0 aliceLock, .deposit 2 0 1 .unlocked,
      .createGame 1 3 500 5 .x, .joinGame 3 2, .turn 3 1 0, .turn 3 2 3, .turn 3 1 1,
      .turn 3 1 4, .turn 3 1 8]

def queued : Rollup := Rollup.genesis.submit .plain policy queueing

theorem access_nodup (signers : List (UInt8 × UInt8 × Bytes32)) (actions : List ActionBody) :
    ((submission signers actions).access.map Prod.fst).Nodup := by
  show [configId, aliceId, bobId, gameId].Nodup
  decide

theorem reachable_opened : Reachable .plain policy opened := .submit .genesis (access_nodup _ _)

theorem reachable_played : Reachable .plain policy played :=
  .submit reachable_opened (access_nodup _ _)

theorem reachable_queued : Reachable .plain policy queued := .submit .genesis (access_nodup _ _)

theorem opened_game :
    ∃ g, GameBody.fromBytes (opened.store gameId) = .ok g ∧ g.state = .playing := by
  obtain ⟨g, hg, hplaying⟩ := ok_of_any (x := GameBody.fromBytes (opened.store gameId))
    (p := fun g => g.state = .playing) (by decide +kernel)
  exact ⟨g, hg, of_decide_eq_true hplaying⟩

/-- Three marks lie on the board, and the player not to move has two cells
queued. -/
theorem queued_game :
    ∃ g, GameBody.fromBytes (queued.store gameId) = .ok g ∧ g.state = .playing ∧
      g.board 0 = .x ∧ g.board 3 = .o ∧ g.board 1 = .x ∧ (g.pending 0).toList = [4, 8] := by
  obtain ⟨g, hg, hcheck⟩ := ok_of_any (x := GameBody.fromBytes (queued.store gameId))
    (p := fun g => g.state = .playing ∧ g.board 0 = .x ∧ g.board 3 = .o ∧ g.board 1 = .x ∧
      (g.pending 0).toList = [4, 8]) (by decide +kernel)
  exact ⟨g, hg, of_decide_eq_true hcheck⟩

/-- The turn that wins the game, where it is applied. -/
@[irreducible] def winningTurn : List ActionBody × ActionBody × ApplyContext :=
  (opened.moment .plain policy playing 4).get (by decide +kernel)

/-- The withdrawal after it. -/
@[irreducible] def withdrawal : List ActionBody × ActionBody × ApplyContext :=
  (opened.moment .plain policy playing 5).get (by decide +kernel)

theorem applying_winningTurn :
    opened.Applying .plain policy playing winningTurn.1 winningTurn.2.1 winningTurn.2.2 := by
  unfold winningTurn
  exact Rollup.applying_get _

theorem applying_withdrawal :
    opened.Applying .plain policy playing withdrawal.1 withdrawal.2.1 withdrawal.2.2 := by
  unfold withdrawal
  exact Rollup.applying_get _

theorem withdrawal_accepted :
    ∃ cx', applyAction .plain policy withdrawal.2.1 withdrawal.2.2 = .ok () cx' := by
  have hok : (match applyAction .plain policy withdrawal.2.1 withdrawal.2.2 with
      | .ok _ _ => true
      | .error _ _ => false) = true := by
    decide +kernel
  cases h : applyAction .plain policy withdrawal.2.1 withdrawal.2.2 with
  | ok _ cx' => exact ⟨cx', rfl⟩
  | error e cx' =>
    rw [h] at hok
    cases hok

theorem opened_alice : ∃ u, UserBody.fromBytes .plain (opened.store aliceId) = .ok u := by
  obtain ⟨u, hu, -⟩ := ok_of_any (x := UserBody.fromBytes .plain (opened.store aliceId))
    (p := fun _ => true) (by decide +kernel)
  exact ⟨u, hu⟩

/-- What a turn at index 1 is checked against, in the context of the winning turn. -/
theorem winningTurn_alice :
    ∃ r u l, winningTurn.2.2.resources[1]? = some r ∧ r.id = aliceId ∧ r.isWritable = true ∧
      UserBody.fromBytes .plain r.data = .ok u ∧ u.lock = .ok l ∧
      l.unlock .plain 1 winningTurn.2.2.authCtx = true := by
  obtain ⟨u, hu, hlock⟩ := ok_of_any
    (x := UserBody.fromBytes .plain
      (winningTurn.2.2.resources.get ⟨1, by decide +kernel⟩).data)
    (p := fun u => u.lock.toOption.any fun l => l.unlock .plain 1 winningTurn.2.2.authCtx)
    (by decide +kernel)
  obtain ⟨l, hl, hopens⟩ := ok_of_any hlock
  exact ⟨_, u, l, List.getElem?_eq_getElem (by decide +kernel), by decide +kernel,
    by decide +kernel, hu, hl, hopens⟩

/-- The game before its winning turn. -/
theorem winningTurn_game :
    ∃ q g, winningTurn.2.2.resources[3]? = some q ∧ q.isWritable = true ∧
      GameBody.fromBytes q.data = .ok g ∧ g.state = .playing ∧ toMove g = .ok 0 ∧
      g.board 2 = .empty ∧ g.players 0 = aliceId ∧ g.players 1 = bobId := by
  obtain ⟨g, hg, hcheck⟩ := ok_of_any
    (x := GameBody.fromBytes (winningTurn.2.2.resources.get ⟨3, by decide +kernel⟩).data)
    (p := fun g => g.state = .playing ∧ toMove g = .ok 0 ∧ g.board 2 = .empty ∧
      g.players 0 = aliceId ∧ g.players 1 = bobId)
    (by decide +kernel)
  exact ⟨_, g, List.getElem?_eq_getElem (by decide +kernel), by decide +kernel, hg,
    of_decide_eq_true hcheck⟩

end Sample

/-! ## No panic -/

section Panics

variable {B : Battery} {P : DepositPolicy} {R : Rollup} {sub : Submission}

/-- **No panic.** Over any reachable store, with any distinct resources, access
modes and payload, `run` succeeds or returns a decode error. -/
theorem run_never_panics (hR : Reachable B P R) (hn : (sub.access.map Prod.fst).Nodup) :
    (∃ cx, R.runOn B P sub = .ok cx) ∨ ∃ msg, R.runOn B P sub = .error (.decode msg) := by
  have hspec := Rollup.runOn_spec sub hn hR.refines.1
  cases hrun : R.runOn B P sub with
  | ok cx => exact .inl ⟨cx, rfl⟩
  | error e =>
    rw [hrun] at hspec
    cases e with
    | decode msg => exact .inr ⟨msg, rfl⟩
    | panic | diverged => exact hspec.elim

theorem run_never_panics_opened :
    (∃ cx, Sample.opened.runOn .plain Sample.policy Sample.playing = .ok cx) ∨
      ∃ msg, Sample.opened.runOn .plain Sample.policy Sample.playing = .error (.decode msg) :=
  run_never_panics Sample.reachable_opened (Sample.access_nodup _ _)

end Panics

end TicTacToe
