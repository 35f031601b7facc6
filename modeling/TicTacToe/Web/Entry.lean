/-
TicTacToe.Web.Entry — how the browser enters a game (`entryDeposit`,
`pickUtxo` and `submitEntry` of `web/src/composition.ts`).

The browser sizes the deposit by the account the server shows it, picks
one UTXO and sends one carrier, which deposits and plays the stake.
`entry_lands` is that the rollup accepts it, for an account that is there
and for one that is not; `entry_deposit_least` that it accepts no carrier
with a smaller deposit.

The signed carrier is the app kit's; `Sent` says what of it the guest gets
to see. A `bigint` is a natural number, cut to 64 bits where it enters the
encoder. What the server sends is a JSON number before it is a `bigint`,
so it is rounded to a double (`toBinary64`): both results are about
balances, counters and stakes up to 2^53.

No `sorry`, no `axiom`, no `native_decide`.
-/
import TicTacToe.Action.Carrier
import TicTacToe.Invariants.Entry
import TicTacToe.Lib.Binary64
import TicTacToe.Web.Da

namespace TicTacToe.Web

open Lib

/-! ## Sizing the entry -/

/-- `MIN_CREATE_BALANCE`, as the client has it. -/
def minCreateBalance : Nat := 1000

/-- `FEE_ESTIMATE`. -/
def feeEstimate : Nat := 10000

def entryDeposit («exists» : Bool) (balance stake minCreateBalance : Nat) : Nat :=
  let shortfall := if balance ≥ stake then 0 else stake - balance
  let floor := if «exists» then 0 else minCreateBalance
  if shortfall > floor then shortfall else floor

/-- The largest of the amounts above `needed`, the first of equals. -/
def pickUtxo (utxos : List Nat) (needed : Nat) : Option Nat :=
  utxos.foldl (fun best u =>
    if u > needed ∧ best.all (fun b => u > b) then some u else best) none

inductive EntryFlow where
  | create (stake : Nat) (rounds mark : Option UInt8)
  | join (stake : Nat) (gameId : ResourceId)

def EntryFlow.stake : EntryFlow → Nat
  | create stake _ _ => stake
  | join stake _ => stake

/-- The flow of the Join button: the stake is a JSON number of the listed game. -/
def joinFlow (gameId : ResourceId) (g : GameBody) : EntryFlow :=
  .join (toBinary64 g.stake.toNat) gameId

theorem joinFlow_eq {g : GameBody} (h : g.stake.toNat ≤ 2 ^ 53) (gameId : ResourceId) :
    joinFlow gameId g = .join g.stake.toNat gameId := by
  rw [joinFlow, toBinary64_of_le h]

/-- What `resp.json()` makes of an account, whose numbers become doubles. -/
def DaAccount.parsed (account : DaAccount) : DaAccount where
  «exists» := account.«exists»
  balance := account.balance.map toBinary64
  gamesStarted := account.gamesStarted.map toBinary64
  gamesWon := account.gamesWon.map toBinary64
  gamesFinished := account.gamesFinished.map toBinary64
  lockHash := account.lockHash

def fetchAccount (hexDecode : String → Option ResourceId) (da : DaState) (B : Battery)
    (userIdHex : String) : Except Fault DaAccount := do
  let account ← get ("/api/accounts/" ++ userIdHex) (da.getAccount hexDecode B userIdHex)
  return account.parsed

/-- The deposit `submitEntry` sizes by the account it fetched. -/
def depositFor (account : DaAccount) (stake : Nat) : Nat :=
  let balance := if account.exists then account.balance.getD 0 else 0
  entryDeposit account.exists balance stake minCreateBalance

/-- The payload of an entry with a given deposit. -/
def entryPayload (B : Battery) (identity : Identity) (utxoAmount : UInt64)
    (configId : ResourceId) (account : DaAccount) (entry : EntryFlow) (deposit : UInt64) :
    Except Fault LanePayload :=
  match entry with
  | .create stake rounds mark =>
    createGamePayload B identity utxoAmount configId
      (UInt64.ofNat (account.gamesStarted.getD 0)) (UInt64.ofNat stake) (rounds.getD 3)
      (mark.getD 1) deposit
  | .join _ gameId => joinGamePayload B identity utxoAmount configId gameId deposit

/-- `submitEntry` from the fetched account up to the signed carrier: its payload
and the deposit. -/
def submitEntry (B : Battery) (identity : Identity) (configId : ResourceId)
    (address : String) (account : DaAccount) (utxos : List Nat) (entry : EntryFlow) :
    Except Fault (LanePayload × Nat) := do
  let deposit := depositFor account entry.stake
  match pickUtxo utxos (deposit + feeEstimate) with
  | none => jsError ("insufficient L1 funds — fund " ++ address)
  | some picked =>
    let payload ← entryPayload B identity (UInt64.ofNat picked) configId account entry
      (UInt64.ofNat deposit)
    return (payload, deposit)

namespace EntryFlow

/-- The game an entry is about. -/
def gameId (B : Battery) (identity : Identity) (account : DaAccount) : EntryFlow → ResourceId
  | create _ _ _ => deriveGameResource B (identity.lock.idHash B)
      (UInt64.ofNat (account.gamesStarted.getD 0))
  | join _ gameId => gameId

/-- The action that spends the stake. -/
def action (i gi : UInt8) (mark : Cell) : EntryFlow → ActionBody
  | create stake rounds _ => .createGame i gi (UInt64.ofNat stake) (rounds.getD 3) mark
  | join _ _ => .joinGame gi i

/-- The mark an entry asks for; a joiner asks for none. -/
def Marks (mark : Cell) : EntryFlow → Prop
  | create _ _ byte => byte.getD 1 = mark.toByte ∧ mark ≠ .empty
  | join _ _ => True

/-- Games an entry adds to the player's count. -/
def created : EntryFlow → Nat
  | create _ _ _ => 1
  | join _ _ => 0

end EntryFlow

/-! ## The carrier -/

/-- The payload `p` as a carrier of `identity`: signed, and with a first output
that pays `deposit` to the covenant. -/
structure Sent (B : Battery) (identity : Identity) (covenantId : Bytes32) (p : LanePayload)
    (deposit : UInt64) (sub : Submission) : Prop where
  access : sub.access = p.access.map fun m => (m.resourceId, m.accessType)
  signed : ∃ sigOffset, p.Assembled sigOffset sub.tx.payload.ixData ∧
    ∀ ix presig, decodeIx sub.tx.payload.ixData p.access.length (decodeAction B) = .ok ix →
      payloadPresig sub.tx.payload ix.endOfActionsInIx = .ok presig →
      ∀ resources, verifiedKey B identity.pubkey (sigOffset 0)
        ⟨sub.tx.payload.bytes, sub.tx.restPreimage, presig, resources⟩
        "signer.schnorr: invalid signature" = .ok identity.pubkey
  output : 0 < deposit → ∃ out, B.parseOutputAtIndexV1 sub.tx.restPreimage 0 = some out ∧
    out.value = deposit ∧ out.spkVersion = 0 ∧
    out.spk = p2shScript (B.delegateEntrySpkHash covenantId)
  sink : ∃ sink, B.depositSet sub.deposit (B.delegateEntrySpkHash covenantId) = .ok sink

section Sizing

variable {B : Battery} {R : Rollup} {identity : Identity} {configId gid : ResourceId}
  {account : DaAccount} {entry : EntryFlow} {p : LanePayload} {value : UInt64} {sub : Submission}
  {index : IndexStore} {isCanonical : UInt64 → Bool} {hexDecode : String → Option ResourceId}

theorem entryDeposit_live (balance stake min : Nat) :
    entryDeposit true balance stake min = stake - balance := by
  unfold entryDeposit
  simp only [if_true]
  split_ifs <;> omega

theorem entryDeposit_newborn (stake min : Nat) :
    entryDeposit false 0 stake min = max stake min := by
  unfold entryDeposit
  simp only [Bool.false_eq_true, if_false]
  split_ifs <;> omega

/-- The numbers of an account the browser can read exactly. -/
def Readable (u : UserBody) : Prop := u.balance.toNat ≤ 2 ^ 53 ∧ u.gamesStarted.toNat ≤ 2 ^ 53

/-- What the browser gets to see of an account. -/
theorem fetchAccount_ok (hhex : ∀ id : ResourceId, hexDecode (hexString id.val) = some id)
    {id : ResourceId} (h : fetchAccount hexDecode ⟨R.store, index, isCanonical⟩ B
      (hexString id.val) = .ok account)
    (hread : ∀ u, UserBody.fromBytes B (R.store id) = .ok u → Readable u) :
    (R.store.ledger B id = .empty ∧ account = ⟨false, none, none, none, none, none⟩) ∨
      ∃ u, R.store.ledger B id = .user u ∧ account.exists = true ∧
        account.balance = some u.balance.toNat ∧
        account.gamesStarted = some u.gamesStarted.toNat := by
  unfold fetchAccount DaState.getAccount DaState.latestBody at h
  simp only [hhex] at h
  cases hdata : R.store id with
  | nil =>
    rw [hdata] at h
    cases h
    exact .inl ⟨Slot.parse_eq_empty.mpr hdata, rfl⟩
  | cons b bytes =>
    rw [hdata] at h
    simp only [List.isEmpty_cons, Bool.false_eq_true, if_false] at h
    cases hu : UserBody.fromBytes B (b :: bytes) with
    | error e =>
      rw [hu] at h
      cases h
    | ok u =>
      rw [hu] at h
      cases h
      obtain ⟨hbalance, hstarted⟩ := hread u (by rw [hdata]; exact hu)
      exact .inr ⟨u, Slot.parse_eq_user.mpr (by rw [hdata]; exact hu), rfl,
        congrArg some (toBinary64_of_le hbalance), congrArg some (toBinary64_of_le hstarted)⟩

/-- The deposit makes the account one that can pay the stake. -/
theorem credited_of_fetched (hhex : ∀ id : ResourceId, hexDecode (hexString id.val) = some id)
    (hfetched : fetchAccount hexDecode ⟨R.store, index, isCanonical⟩ B
      (hexString (identity.userId B).val) = .ok account)
    (hread : ∀ u, UserBody.fromBytes B (R.store (identity.userId B)) = .ok u → Readable u)
    (hown : ∀ u, UserBody.fromBytes B (R.store (identity.userId B)) = .ok u →
      u.lock = .ok identity.lock ∧ u.initialLockHash = identity.lock.idHash B)
    {stake : Nat} (hstake : stake < 2 ^ 64) :
    (UInt64.ofNat (depositFor account stake)).toNat = depositFor account stake ∧
      ∃ u, Credited B (R.store.ledger B) (identity.userId B) identity.pubkey
          (UInt64.ofNat (depositFor account stake)) u ∧
        u.balance.toNat = account.balance.getD 0 + depositFor account stake ∧
        u.gamesStarted.toNat = account.gamesStarted.getD 0 ∧ stake ≤ u.balance.toNat := by
  obtain ⟨hempty, rfl⟩ | ⟨u, hu, hexists, hbalance, hstarted⟩ := fetchAccount_ok hhex hfetched hread
  · have hdep : depositFor ⟨false, none, none, none, none, none⟩ stake = max stake 1000 := by
      simp only [depositFor, Bool.false_eq_true, if_false, entryDeposit_newborn, minCreateBalance]
    have hnat : (UInt64.ofNat (max stake 1000)).toNat = max stake 1000 := by
      rw [UInt64.toNat_ofNat', Nat.mod_eq_of_lt (by omega)]
    rw [hdep]
    refine ⟨hnat, _, .newborn hempty rfl ?_, ?_, rfl, ?_⟩
    · rw [UInt64.lt_iff_toNat_lt, hnat]
      exact Nat.not_lt.mpr (Nat.le_max_right _ _)
    · rw [UserBody.withLock_balance, hnat]
      simp
    · rw [UserBody.withLock_balance, hnat]
      exact Nat.le_max_left _ _
  · obtain ⟨hlock, hilh⟩ := hown u (Slot.parse_eq_user.mp hu)
    have hdep : depositFor account stake = stake - u.balance.toNat := by
      simp only [depositFor, hexists, hbalance, if_true, Option.getD_some, entryDeposit_live]
    have hlt := u.balance.toNat_lt
    have hnat : (UInt64.ofNat (stake - u.balance.toNat)).toNat = stake - u.balance.toNat := by
      rw [UInt64.toNat_ofNat', Nat.mod_eq_of_lt (by omega)]
    obtain ⟨b, hsum⟩ : ∃ b : UInt64, b.toNat = u.balance.toNat + (stake - u.balance.toNat) :=
      ⟨UInt64.ofNat (u.balance.toNat + (stake - u.balance.toNat)), by
        rw [UInt64.toNat_ofNat', Nat.mod_eq_of_lt (by omega)]⟩
    rw [hdep, hbalance, hstarted, Option.getD_some, Option.getD_some]
    refine ⟨hnat, { u with balance := b }, .live hu hlock hilh (by rw [hsum, hnat]), hsum, rfl, ?_⟩
    show stake ≤ b.toNat
    omega

theorem cellFromU8_ok {markU8 : UInt8} {m : Cell} (h : cellFromU8 markU8 = .ok m) :
    markU8 = 1 ∨ markU8 = 2 := by
  unfold cellFromU8 at h
  split_ifs at h with h₁ h₂
  · exact .inl h₁
  · exact .inr h₂
  · cases h

/-- The guest finds the entry in the payload, with the deposit before it. -/
theorem entryPayload_carries {utxoAmount : UInt64}
    (h : entryPayload B identity utxoAmount configId account entry value = .ok p)
    (huc : identity.userId B ≠ configId)
    (hgu : entry.gameId B identity account ≠ identity.userId B)
    (hgc : entry.gameId B identity account ≠ configId) :
    ∃ i ci gi mark named, entry.Marks mark ∧
      PayloadCarries B p (withDeposit i ci value identity.lock (entry.action i gi mark)) i named ∧
      (.write (identity.userId B), i) ∈ named ∧
      (.write (entry.gameId B identity account), gi) ∈ named ∧
      (0 < value → (.read configId, ci) ∈ named) := by
  cases entry with
  | create stake rounds byte =>
    have hbuilds := builds_createGame (B := B) utxoAmount
      (UInt64.ofNat (account.gamesStarted.getD 0)) (UInt64.ofNat stake) (rounds.getD 3)
      (byte.getD 1) value huc hgu hgc
    have hmark : byte.getD 1 = 1 ∨ byte.getD 1 = 2 := by
      obtain ⟨m, hm, -⟩ := except_bind_ok.mp h
      exact cellFromU8_ok hm
    unfold Builds at hbuilds
    rw [show createGamePayload B identity utxoAmount configId
      (UInt64.ofNat (account.gamesStarted.getD 0)) (UInt64.ofNat stake) (rounds.getD 3)
      (byte.getD 1) value = .ok p from h] at hbuilds
    obtain ⟨mark, i, gi, hbyte, hcarries⟩ := hbuilds
    have hne : mark ≠ .empty := by
      rintro rfl
      rw [hbyte] at hmark
      revert hmark
      decide
    by_cases hpos : 0 < value
    · rw [if_pos hpos] at hcarries
      obtain ⟨ci, hcarries⟩ := hcarries
      have hacts : withDeposit i ci value identity.lock
          (EntryFlow.action i gi mark (.create stake rounds byte))
          = [.deposit i ci 0 identity.lock,
            .createGame i gi (UInt64.ofNat stake) (rounds.getD 3) mark] := if_pos hpos
      rw [← hacts] at hcarries
      exact ⟨i, ci, gi, mark, _, ⟨hbyte, hne⟩, hcarries, by simp [EntryFlow.gameId]⟩
    · rw [if_neg hpos] at hcarries
      have hacts : withDeposit i 0 value identity.lock
          (EntryFlow.action i gi mark (.create stake rounds byte))
          = [.createGame i gi (UInt64.ofNat stake) (rounds.getD 3) mark] := if_neg hpos
      rw [← hacts] at hcarries
      exact ⟨i, 0, gi, mark, _, ⟨hbyte, hne⟩, hcarries, by simp [EntryFlow.gameId, hpos]⟩
  | join stake gameId =>
    have hbuilds : Builds (joinGamePayload B identity utxoAmount configId gameId value) _ :=
      builds_joinGame utxoAmount value huc hgu hgc
    unfold Builds at hbuilds
    rw [show joinGamePayload B identity utxoAmount configId gameId value = .ok p from h]
      at hbuilds
    obtain ⟨i, gi, hcarries⟩ := hbuilds
    by_cases hpos : 0 < value
    · rw [if_pos hpos] at hcarries
      obtain ⟨ci, hcarries⟩ := hcarries
      have hacts : withDeposit i ci value identity.lock
          (EntryFlow.action i gi .x (.join stake gameId))
          = [.deposit i ci 0 identity.lock, .joinGame gi i] := if_pos hpos
      rw [← hacts] at hcarries
      exact ⟨i, ci, gi, .x, _, trivial, hcarries, by simp [EntryFlow.gameId]⟩
    · rw [if_neg hpos] at hcarries
      have hacts : withDeposit i 0 value identity.lock
          (EntryFlow.action i gi .x (.join stake gameId)) = [.joinGame gi i] := if_neg hpos
      rw [← hacts] at hcarries
      exact ⟨i, 0, gi, .x, _, trivial, hcarries, by simp [EntryFlow.gameId, hpos]⟩

end Sizing

/-! ## The entry lands -/

/-- What an entry asks of the rollup, and the game it leaves. -/
inductive EntryFlow.Makes (B : Battery) (R : Rollup) (identity : Identity) (account : DaAccount)
    (now : UInt64) : EntryFlow → GameBody → Prop
  | create {stake : Nat} {rounds byte : Option UInt8} {mark : Cell} : stake < 2 ^ 64 →
      rounds.getD 3 ≠ 0 → byte.getD 1 = mark.toByte → account.gamesStarted.getD 0 + 1 < 2 ^ 64 →
      R.store (gameId B identity account (.create stake rounds byte)) = [] →
      gameId B identity account (.create stake rounds byte) ≠ identity.userId B →
      Makes B R identity account now (.create stake rounds byte)
        (.fresh (identity.userId B) mark (UInt64.ofNat stake) (rounds.getD 3))
  | join {gid : ResourceId} {g : GameBody} :
      GameBody.fromBytes (R.store gid) = .ok g → g.state = .open → g.stake.toNat ≤ 2 ^ 53 →
      identity.userId B ≠ g.creator →
      Makes B R identity account now (joinFlow gid g) (g.seatJoiner (identity.userId B) now)

section Entry

variable {B : Battery} {R : Rollup} {identity : Identity} {configId : ResourceId}
  {account : DaAccount} {entry : EntryFlow} {p : LanePayload} {value : UInt64} {sub : Submission}
  {index : IndexStore} {isCanonical : UInt64 → Bool} {hexDecode : String → Option ResourceId}
  {actions : List ActionBody} {i : UInt8} {named : List (AccessMetadata × UInt8)}
  {c : ConfigBody} {g' : GameBody}

theorem toByte_injective {m m' : Cell} (h : m.toByte = m'.toByte) : m = m' := by
  cases m <;> cases m' <;> first | rfl | cases h

/-- The entries of a payload in the access list of its carrier. -/
theorem access_at (hp : PayloadCarries B p actions i named)
    (hsub : sub.access = p.access.map fun m => (m.resourceId, m.accessType))
    {q : AccessMetadata × UInt8} (hq : q ∈ named) :
    sub.access[q.2.toNat]? = some (q.1.resourceId, q.1.accessType) := by
  rw [hsub, List.getElem?_map, hp.addresses.points q hq]
  rfl

theorem access_nodup (hp : PayloadCarries B p actions i named)
    (hsub : sub.access = p.access.map fun m => (m.resourceId, m.accessType)) :
    (sub.access.map Prod.fst).Nodup := by
  rw [hsub, List.map_map]
  refine List.pairwise_map.mpr (hp.addresses.ascending.imp fun hlt heq => ?_)
  have hself : _ < _ := hlt
  rw [show AccessMetadata.resourceId _ = AccessMetadata.resourceId _ from heq] at hself
  exact Std.lt_irrefl hself

/-- The guest decodes what was sent, and the signature is good. -/
theorem Sent.decoded {covenantId : Bytes32} (h : Sent B identity covenantId p value sub)
    (hp : PayloadCarries B p actions i named) :
    ∃ off stop presig,
      R.decoded B sub = .ok ⟨[(i, .schnorrSigPtr off)], actions, stop⟩ ∧
      payloadPresig sub.tx.payload stop = .ok presig ∧
      ∀ resources, verifiedKey B identity.pubkey off
        ⟨sub.tx.payload.bytes, sub.tx.restPreimage, presig, resources⟩
        "signer.schnorr: invalid signature" = .ok identity.pubkey := by
  obtain ⟨sigOffset, hdata, hsig⟩ := h.signed
  obtain ⟨stop, hdec⟩ := hp.decodes sigOffset _ hdata
  have hspec := decodeIx_spec sub.tx.payload.ixData (decodes_decodeAction B p.access.length)
  rw [hdec] at hspec
  obtain ⟨presig, hpre⟩ := payloadPresig_ok hspec.2.2
  refine ⟨sigOffset 0, stop, presig, ?_, hpre, hsig _ presig hdec hpre⟩
  have hlen : (R.attach sub).length = p.access.length := by
    rw [Rollup.attach, List.length_map, h.access, List.length_map]
  rw [Rollup.decoded, hlen]
  exact hdec

/-- What the browser sized and built. -/
theorem submitEntry_ok {address : String} {utxos : List Nat} {deposit : Nat}
    (h : submitEntry B identity configId address account utxos entry = .ok (p, deposit)) :
    deposit = depositFor account entry.stake ∧ ∃ utxoAmount,
      entryPayload B identity utxoAmount configId account entry
        (UInt64.ofNat (depositFor account entry.stake)) = .ok p := by
  unfold submitEntry at h
  dsimp only at h
  split at h
  · cases h
  · obtain ⟨p', hp', heq⟩ := except_bind_ok.mp h
    cases heq
    exact ⟨rfl, _, hp'⟩

namespace EntryFlow.Makes

variable {now : UInt64}

theorem stake_lt (h : entry.Makes B R identity account now g') : entry.stake < 2 ^ 64 := by
  cases h with
  | create hlt => exact hlt
  | @join gid g _ _ hexact =>
    rw [joinFlow_eq hexact]
    exact g.stake.toNat_lt

/-- The account, the config and the game are three resources. -/
theorem distinct (h : entry.Makes B R identity account now g')
    (hconfig : R.store.ledger B configId = .config c)
    (huser : R.store.ledger B (identity.userId B) = .empty ∨
      ∃ u, R.store.ledger B (identity.userId B) = .user u) :
    identity.userId B ≠ configId ∧ entry.gameId B identity account ≠ identity.userId B ∧
      entry.gameId B identity account ≠ configId := by
  have hgame : R.store.ledger B (entry.gameId B identity account) = .empty ∨
      ∃ g, R.store.ledger B (entry.gameId B identity account) = .game g := by
    cases h with
    | create _ _ _ _ hempty => exact .inl (Slot.parse_eq_empty.mpr hempty)
    | join hg => exact .inr ⟨_, Slot.parse_eq_game.mpr hg⟩
  refine ⟨fun e => ?_, ?_, fun e => ?_⟩
  · rw [e, hconfig] at huser
    rcases huser with h | ⟨u, h⟩ <;> cases h
  · cases h with
    | create _ _ _ _ _ hne => exact hne
    | @join gid _ hg =>
      intro e
      have hslot : R.store.ledger B gid = .game _ := Slot.parse_eq_game.mpr hg
      rw [show gid = identity.userId B from e] at hslot
      rw [hslot] at huser
      rcases huser with h | ⟨u, h⟩ <;> cases h
  · rw [e, hconfig] at hgame
    rcases hgame with h | ⟨g, h⟩ <;> cases h

/-- Applied to an account that holds the stake and is signed for, the entry
leaves its game. -/
theorem applied {u : UserBody} {cx : ApplyContext} {gi : UInt8} {mark : Cell}
    (h : entry.Makes B R identity account sub.context.daaScore g')
    (hsigned : Signed B R sub (identity.userId B) i identity.pubkey u cx)
    (hopens : B.schnorrTryUnlock identity.pubkey i [(i, identity.pubkey)] = true)
    (hlock : u.lock = .ok identity.lock) (hilh : u.initialLockHash = identity.lock.idHash B)
    (hstarted : u.gamesStarted.toNat = account.gamesStarted.getD 0)
    (hfunds : entry.stake ≤ u.balance.toNat) (hmarks : entry.Marks mark)
    (hi : sub.access[i.toNat]? = some (identity.userId B, .write))
    (hg : sub.access[gi.toNat]? = some (entry.gameId B identity account, .write))
    (hgu : entry.gameId B identity account ≠ identity.userId B) :
    ∃ cx' u', applyAction B (covenantDepositPolicy B) (entry.action i gi mark) cx = .ok () cx' ∧
      cx'.ledger B R.store (identity.userId B) = .user u' ∧
      u'.balance.toNat + entry.stake = u.balance.toNat ∧
      u'.gamesStarted.toNat = u.gamesStarted.toNat + entry.created ∧
      cx'.ledger B R.store (entry.gameId B identity account) = .game g' := by
  cases h with
  | @create stake rounds byte mark' hlt hrounds hbyte hroom hempty hne =>
    obtain rfl : mark = mark' := toByte_injective (hmarks.1.symm.trans hbyte)
    have hnat : (UInt64.ofNat stake).toNat = stake := by
      rw [UInt64.toNat_ofNat', Nat.mod_eq_of_lt hlt]
    have hcounted : UInt64.ofNat (account.gamesStarted.getD 0) = u.gamesStarted := by
      rw [← hstarted, UInt64.ofNat_toNat]
    obtain ⟨cx', u', happly, huser, hpaid, hcount, hgame⟩ :=
      hsigned.createGame hopens hlock hi hg hne (Slot.parse_eq_empty.mpr hempty)
        (by rw [hilh, ← hcounted]; rfl) (by rw [hstarted]; exact hroom)
        (show (UInt64.ofNat stake).toNat ≤ _ by rw [hnat]; exact hfunds) hrounds hmarks.2
    exact ⟨cx', u', happly, huser, by rw [hnat] at hpaid; exact hpaid, hcount, hgame⟩
  | @join gid g hbody hopen hexact hself =>
    rw [joinFlow_eq hexact] at hfunds hg hgu ⊢
    obtain ⟨cx', u', happly, huser, hpaid, hcount, hgame⟩ :=
      hsigned.joinGame hopens hlock hi hg hgu (Slot.parse_eq_game.mpr hbody) hopen hself hfunds
    exact ⟨cx', u', happly, huser, hpaid, by rw [hcount]; rfl, hgame⟩

end EntryFlow.Makes

/-- **Entry.** The carrier the browser sends to create or join a game, sized by
the account the server shows it, is accepted: whether or not the account is
there yet, the deposit it carries, if any, and the stake go through, the
account is left with the rest and the game is created or joined. -/
theorem entry_lands
    (hopens : ∀ (pk : Bytes32) (i : UInt8), B.schnorrTryUnlock pk i [(i, pk)] = true)
    (hhex : ∀ id : ResourceId, hexDecode (hexString id.val) = some id)
    (hfetched : fetchAccount hexDecode ⟨R.store, index, isCanonical⟩ B
      (hexString (identity.userId B).val) = .ok account)
    (hread : ∀ u, UserBody.fromBytes B (R.store (identity.userId B)) = .ok u → Readable u)
    (hown : ∀ u, UserBody.fromBytes B (R.store (identity.userId B)) = .ok u →
      u.lock = .ok identity.lock ∧ u.initialLockHash = identity.lock.idHash B)
    (hconfig : ConfigBody.fromBytes B (R.store configId) = .ok c)
    (hmakes : entry.Makes B R identity account sub.context.daaScore g')
    {address : String} {utxos : List Nat} {deposit : Nat}
    (hentry : submitEntry B identity configId address account utxos entry = .ok (p, deposit))
    (hsent : Sent B identity c.covenantId p (UInt64.ofNat deposit) sub) :
    ∃ u', UserBody.fromBytes B ((R.submit B (covenantDepositPolicy B) sub).store
          (identity.userId B)) = .ok u' ∧
      u'.balance.toNat + entry.stake = account.balance.getD 0 + deposit ∧
      u'.gamesStarted.toNat = account.gamesStarted.getD 0 + entry.created ∧
      GameBody.fromBytes ((R.submit B (covenantDepositPolicy B) sub).store
          (entry.gameId B identity account)) = .ok g' := by
  obtain ⟨rfl, utxoAmount, hpayload⟩ := submitEntry_ok hentry
  obtain ⟨-, u, hcredit, hbalance, hstarted, hfunds⟩ :=
    credited_of_fetched hhex hfetched hread hown hmakes.stake_lt
  have huser : R.store.ledger B (identity.userId B) = .empty ∨
      ∃ u, R.store.ledger B (identity.userId B) = .user u := by
    cases hcredit with
    | newborn hempty => exact .inl hempty
    | live hu => exact .inr ⟨_, hu⟩
  obtain ⟨huc, hgu, hgc⟩ := hmakes.distinct (Slot.parse_eq_config.mpr hconfig) huser
  obtain ⟨i, ci, gi, mark, named, hmarks, hcarries, hui, hgi, hci⟩ :=
    entryPayload_carries hpayload huc hgu hgc
  have hi := access_at hcarries hsent.access hui
  have hg := access_at hcarries hsent.access hgi
  obtain ⟨off, stop, presig, hdec, hpre, hsig⟩ := hsent.decoded (R := R) hcarries
  have hbridge : 0 < UInt64.ofNat (depositFor account entry.stake) →
      Bridged B R sub ci (UInt64.ofNat (depositFor account entry.stake)) := by
    intro hpos
    obtain ⟨out, hout, hvalue, hver, hspk⟩ := hsent.output hpos
    exact ⟨configId, .read, c, out, access_at hcarries hsent.access (hci hpos), hconfig, hout,
      hvalue, hver, hspk, hsent.sink⟩
  obtain ⟨hlock, hilh⟩ := hcredit.parses
  obtain ⟨cx, hsigned, hrun⟩ := hcredit.run (access_nodup hcarries hsent.access) hi hbridge hsig
  obtain ⟨cx', u', happly, hleft, hpaid, hcount, hgame⟩ :=
    hmakes.applied hsigned (hopens _ _) hlock hilh hstarted hfunds hmarks hi hg hgu
  have hledger := Rollup.submit_of hdec hpre (hrun _ cx' happly)
  refine ⟨u', Slot.parse_eq_user.mp ?_, by rw [hpaid, hbalance], by rw [hcount, hstarted],
    (Slot.parse_eq_game (B := B)).mp ?_⟩
  · exact (congrFun hledger _).trans hleft
  · exact (congrFun hledger _).trans hgame

end Entry

namespace Sample

/-- A player nobody has seen yet. -/
def carol : Identity := ⟨padTo 32 [0xca]⟩

/-- A payload with all signatures at `off`. -/
def assembled (p : LanePayload) (off : UInt32) (tail : List UInt8) : List UInt8 :=
  le32 (UInt32.ofNat p.signers.length) ++
    ((p.signers.zipIdx.flatMap fun s => s.1.resourceIdx :: s.1.tag :: le32 off) ++
      (le32 (UInt32.ofNat p.actions.length) ++ (p.actions.flatten ++ tail)))

/-- A payload signed at `off`, with a deposit output of `value`. -/
def carrierOf (identity : Identity) (p : LanePayload) (off : UInt32) (value : UInt64) :
    Submission where
  tx := { payload := { accessPrefix := [],
                       ixData := assembled p off (padTo 64 identity.pubkey.val).val },
          restPreimage := le64 value ++ p2shScript TicTacToe.Sample.covenant }
  context := { daaScore := 100 }
  access := p.access.map fun m => (m.resourceId, m.accessType)
  exits := []
  deposit := none

theorem verifiedKey_plain {key : Bytes32} {off : UInt32} {ctx : SignerResolveContext}
    {invalid : String} (hin : off.toNat + 64 ≤ ctx.payloadBytes.length)
    (hkey : ((ctx.payloadBytes.drop off.toNat).take 64).take 32 = key.val) :
    verifiedKey .plain key off ctx invalid = .ok key := by
  have hverify : Battery.plain.verifyK256SchnorrSig key ((ctx.payloadBytes.drop off.toNat).take 64)
      (Battery.plain.sigMsg ctx) = true := decide_eq_true hkey
  simp only [verifiedKey, readSigAtOffset, hin, if_true, hverify]

/-- The first output of a carrier is the deposit. -/
def Pays (value : UInt64) : Prop :=
  (Battery.plain.parseOutputAtIndexV1 (le64 value ++ p2shScript TicTacToe.Sample.covenant) 0).map
      (fun out => (out.value, out.spkVersion, out.spk))
    = some (value, 0, p2shScript TicTacToe.Sample.covenant)

instance (value : UInt64) : Decidable (Pays value) := inferInstanceAs (Decidable (_ = _))

section Carrier

variable {identity : Identity} {p : LanePayload} {off : UInt32} {value : UInt64}

theorem sent_carrierOf
    (hin : off.toNat + 64 ≤ (carrierOf identity p off value).tx.payload.bytes.length)
    (hkey : (((carrierOf identity p off value).tx.payload.bytes.drop off.toNat).take 64).take 32
      = identity.pubkey.val) (hpays : Pays value) :
    Sent .plain identity TicTacToe.Sample.covenant p value (carrierOf identity p off value) where
  access := rfl
  signed := ⟨fun _ => off, ⟨_, rfl⟩, fun _ _ _ _ _ => verifiedKey_plain hin hkey⟩
  output _ := by
    obtain ⟨out, hout, heq⟩ := Option.map_eq_some_iff.mp hpays
    obtain ⟨hvalue, hrest⟩ := Prod.mk.inj heq
    obtain ⟨hver, hspk⟩ := Prod.mk.inj hrest
    exact ⟨out, hout, hvalue, hver, hspk⟩
  sink := ⟨_, rfl⟩

theorem carrierOf_output (hpays : Pays value) {out : Output}
    (h : Battery.plain.parseOutputAtIndexV1 (carrierOf identity p off value).tx.restPreimage 0
      = some out) : out.value = value := by
  obtain ⟨out', hout', heq⟩ := Option.map_eq_some_iff.mp hpays
  obtain rfl : out' = out := Option.some.inj (hout'.symm.trans h)
  exact (Prod.mk.inj heq).1

end Carrier

def newborn : DaAccount := ⟨false, none, none, none, none, none⟩

def creating : EntryFlow := .create 500 none none

theorem carol_newborn : TicTacToe.Sample.opened.store (carol.userId .plain) = [] := by
  decide +kernel

theorem carol_fetched : fetchAccount hexDecode
    ⟨TicTacToe.Sample.opened.store, ∅, fun _ => true⟩ .plain (hexString (carol.userId .plain).val)
      = .ok newborn := by
  simp only [fetchAccount, DaState.getAccount, hexDecode_hexString, DaState.latestBody,
    carol_newborn, List.isEmpty_nil, if_true, newborn]
  rfl

theorem carol_readable (u : UserBody) (hu : UserBody.fromBytes .plain
    (TicTacToe.Sample.opened.store (carol.userId .plain)) = .ok u) : Readable u := by
  rw [carol_newborn] at hu
  cases hu

theorem carol_own (u : UserBody) (hu : UserBody.fromBytes .plain
    (TicTacToe.Sample.opened.store (carol.userId .plain)) = .ok u) :
    u.lock = .ok carol.lock ∧ u.initialLockHash = carol.lock.idHash .plain := by
  rw [carol_newborn] at hu
  cases hu

/-- What she sends to create a game for 500. -/
@[irreducible] def carolEntry : LanePayload × Nat :=
  match submitEntry .plain carol TicTacToe.Sample.configId "addr" newborn [20000] creating with
  | .ok sent => sent
  | .error _ => (⟨[], [], []⟩, 0)

theorem carolEntry_ok : submitEntry .plain carol TicTacToe.Sample.configId "addr" newborn
    [20000] creating = .ok (carolEntry.1, 1000) := by
  obtain ⟨sent, hsent, hdep⟩ := ok_of_any (x := submitEntry .plain carol
    TicTacToe.Sample.configId "addr" newborn [20000] creating)
    (p := fun sent => sent.2 = 1000) (by decide +kernel)
  have hdeposit : sent.2 = 1000 := of_decide_eq_true hdep
  unfold carolEntry
  rw [hsent, ← hdeposit]

@[irreducible] def carolCarrier : Submission :=
  carrierOf carol carolEntry.1
    (UInt32.ofNat (assembled carolEntry.1 0 []).length) (UInt64.ofNat 1000)

theorem carol_sent : Sent .plain carol TicTacToe.Sample.covenant carolEntry.1 (UInt64.ofNat 1000)
    carolCarrier := by
  unfold carolCarrier
  exact sent_carrierOf (by decide +kernel) (by decide +kernel) (by decide +kernel)

end Sample

/-- A player without an account creates her first game. -/
theorem entry_lands_newborn :
    ∃ u', UserBody.fromBytes .plain ((TicTacToe.Sample.opened.submit .plain
          (covenantDepositPolicy .plain) Sample.carolCarrier).store
          (Sample.carol.userId .plain)) = .ok u' ∧
      u'.balance.toNat + Sample.creating.stake = Sample.newborn.balance.getD 0 + 1000 ∧
      u'.gamesStarted.toNat = Sample.newborn.gamesStarted.getD 0 + Sample.creating.created ∧
      GameBody.fromBytes ((TicTacToe.Sample.opened.submit .plain (covenantDepositPolicy .plain)
          Sample.carolCarrier).store (Sample.creating.gameId .plain Sample.carol Sample.newborn))
        = .ok (.fresh (Sample.carol.userId .plain) .x (UInt64.ofNat 500)
          ((none : Option UInt8).getD 3)) := by
  obtain ⟨c, hconfig, hcov⟩ := ok_of_any (x := ConfigBody.fromBytes .plain
    (TicTacToe.Sample.opened.store TicTacToe.Sample.configId))
    (p := fun c => c.covenantId = TicTacToe.Sample.covenant) (by decide +kernel)
  have hcovenant : c.covenantId = TicTacToe.Sample.covenant := of_decide_eq_true hcov
  have hsent : Sent .plain Sample.carol c.covenantId Sample.carolEntry.1 (UInt64.ofNat 1000)
      Sample.carolCarrier := by
    rw [hcovenant]
    exact Sample.carol_sent
  have hmakes : Sample.creating.Makes .plain TicTacToe.Sample.opened Sample.carol Sample.newborn
      Sample.carolCarrier.context.daaScore
      (.fresh (Sample.carol.userId .plain) .x (UInt64.ofNat 500)
        ((none : Option UInt8).getD 3)) :=
    .create (by decide) (by decide) rfl (by decide) (by decide +kernel) (by decide +kernel)
  exact entry_lands (fun pk i => decide_eq_true (List.mem_singleton_self (i, pk)))
    Sample.hexDecode_hexString Sample.carol_fetched Sample.carol_readable Sample.carol_own hconfig
    hmakes Sample.carolEntry_ok hsent

section Least

variable {B : Battery} {R : Rollup} {identity : Identity} {configId : ResourceId}
  {account : DaAccount} {entry : EntryFlow} {p : LanePayload} {value : UInt64} {sub : Submission}
  {index : IndexStore} {isCanonical : UInt64 → Bool} {hexDecode : String → Option ResourceId}
  {i : UInt8}

/-! ## No smaller deposit does -/

/-- An entry that is applied finds the stake in the account. -/
theorem EntryFlow.action_spends {mark : Cell} {gi : UInt8} {cx cx' : ApplyContext}
    (hc : cx.Coherent) (hkeys : cx.resources.map (fun r => (r.id, r.accessType)) = sub.access)
    (hmarks : entry.Marks mark) (hstake : entry.stake < 2 ^ 64)
    (hi : sub.access[i.toNat]? = some (identity.userId B, .write))
    (hg : sub.access[gi.toNat]? = some (entry.gameId B identity account, .write))
    (hshown : ∀ stake gid g, entry = .join stake gid → cx.ledger B R.store gid = .game g →
      g.stake.toNat = stake)
    (happly : applyAction B (covenantDepositPolicy B) (entry.action i gi mark) cx = .ok () cx') :
    ∃ u, cx.ledger B R.store (identity.userId B) = .user u ∧
      entry.stake ≤ u.balance.toNat := by
  obtain ⟨r, hr, hrid, -⟩ := exists_attached hkeys hi
  obtain ⟨q, hq, hqid, -⟩ := exists_attached hkeys hg
  have hidx : cx.idAt i = some (identity.userId B) := by rw [ApplyContext.idAt_of hr, hrid]
  have hgidx : cx.idAt gi = some (entry.gameId B identity account) := by
    rw [ApplyContext.idAt_of hq, hqid]
  cases entry with
  | create stake rounds byte =>
    have hacc := (wp_applyCreateGame (P := covenantDepositPolicy B) hc
      (List.getElem?_eq_some_iff.mp hr).1 (List.getElem?_eq_some_iff.mp hq).1 hmarks.2).ok happly
    obtain ⟨flow, hstep, -, -⟩ := hacc.step
    have hstep' := hstep R.store
    have hlt : stake < 2 ^ 64 := hstake
    have hnat : (UInt64.ofNat stake).toNat = stake := by
      rw [UInt64.toNat_ofNat', Nat.mod_eq_of_lt hlt]
    generalize cx'.ledger B R.store = L' at hstep'
    cases hstep' with
    | createGame hci hu _ hb =>
      obtain rfl := Option.some.inj (hidx.symm.trans hci)
      exact ⟨_, hu, by rw [← hb, hnat]; exact Nat.le_add_left _ _⟩
    | play hmove => cases hmove
    | finish hmove => cases hmove
  | join stake gid =>
    have hacc := (wp_applyJoinGame (P := covenantDepositPolicy B) hc
      (List.getElem?_eq_some_iff.mp hq).1 (List.getElem?_eq_some_iff.mp hr).1).ok happly
    obtain ⟨flow, hstep, -, -⟩ := hacc.step
    have hstep' := hstep R.store
    generalize cx'.ledger B R.store = L' at hstep'
    cases hstep' with
    | joinGame hji hu _ hgi hgame _ _ hb =>
      obtain rfl := Option.some.inj (hidx.symm.trans hji)
      obtain rfl := Option.some.inj (hgidx.symm.trans hgi)
      refine ⟨_, hu, ?_⟩
      rw [← hb, hshown stake gid _ rfl hgame]
      exact Nat.le_add_left _ _
    | play hmove => cases hmove
    | finish hmove => cases hmove

/-- What an accepted deposit of `value` makes of an account, if it is one. -/
def Brings (L : Ledger) (uid : ResourceId) (value : UInt64) (u' : UserBody) : Prop :=
  (L uid = .empty ∧ u'.balance = value ∧ minCreateBalance ≤ value.toNat) ∨
    ∃ u, L uid = .user u ∧ u'.balance.toNat = u.balance.toNat + value.toNat

/-- A deposit that is applied credits its output, and creates no account below
the minimum. -/
theorem deposit_credits {ci : UInt8} {cx cx' : ApplyContext} (hc : cx.Coherent)
    (hkeys : cx.resources.map (fun r => (r.id, r.accessType)) = sub.access)
    (htx : cx.tx = sub.tx) (hledger : cx.ledger B R.store = R.store.ledger B)
    (hi : sub.access[i.toNat]? = some (identity.userId B, .write))
    (hci : sub.access[ci.toNat]? = some (configId, .read))
    (hout : ∀ out, B.parseOutputAtIndexV1 sub.tx.restPreimage 0 = some out → out.value = value)
    (happly : applyAction B (covenantDepositPolicy B) (.deposit i ci 0 identity.lock) cx
      = .ok () cx') :
    ∃ u', cx'.ledger B R.store
        = Function.update (R.store.ledger B) (identity.userId B) (.user u') ∧
      cx'.Coherent ∧ cx'.resources.map (fun r => (r.id, r.accessType)) = sub.access ∧
      Brings (R.store.ledger B) (identity.userId B) value u' := by
  obtain ⟨r, hr, hrid, -⟩ := exists_attached hkeys hi
  obtain ⟨rc, hrc, -⟩ := exists_attached hkeys hci
  have hidx : cx.idAt i = some (identity.userId B) := by rw [ApplyContext.idAt_of hr, hrid]
  have hacc := (wp_applyDeposit (P := covenantDepositPolicy B) hc
    (List.getElem?_eq_some_iff.mp hrc).1 (wellFormed_lock identity)).ok happly
  obtain ⟨flow, hstep, -, -⟩ := hacc.step
  have hstep' := hstep R.store
  rw [hledger] at hstep'
  have hkeys' := hacc.frame.keys.trans hkeys
  have hc' := hacc.coherent
  generalize cx'.ledger B R.store = L' at hstep'
  cases hstep' with
  | depositCreate _ _ _ hout' _ _ htarget hid hempty _ hmin =>
    cases htarget
    obtain rfl := Option.some.inj (hidx.symm.trans hid)
    rw [htx] at hout'
    have hvalue := hout _ hout'
    refine ⟨_, rfl, hc', hkeys', .inl ⟨hempty, hvalue, ?_⟩⟩
    rw [← hvalue]
    exact Nat.not_lt.mp hmin
  | depositCredit _ _ _ hout' _ _ htarget hid hu _ hsum =>
    cases htarget
    obtain rfl := Option.some.inj (hidx.symm.trans hid)
    rw [htx] at hout'
    rw [hout _ hout'] at hsum
    exact ⟨_, rfl, hc', hkeys', .inr ⟨_, hu, hsum⟩⟩
  | play hmove => cases hmove
  | finish hmove => cases hmove

/-- A run of an entry that goes through brought the account to the stake. -/
theorem EntryFlow.run_spends {presig : List UInt8} {ci gi : UInt8} {mark : Cell}
    {signers : List SignerEntry} {s : RunState} (hn : (sub.access.map Prod.fst).Nodup)
    (hmarks : entry.Marks mark) (hstake : entry.stake < 2 ^ 64)
    (hi : sub.access[i.toNat]? = some (identity.userId B, .write))
    (hg : sub.access[gi.toNat]? = some (entry.gameId B identity account, .write))
    (hci : 0 < value → sub.access[ci.toNat]? = some (configId, .read))
    (hgu : entry.gameId B identity account ≠ identity.userId B)
    (hshown : ∀ stake gid g, entry = .join stake gid →
      GameBody.fromBytes (R.store gid) = .ok g → g.stake.toNat = stake)
    (hout : ∀ out, B.parseOutputAtIndexV1 sub.tx.restPreimage 0 = some out → out.value = value)
    (hrun : runSignersAndActions B (covenantDepositPolicy B) presig
      (withDeposit i ci value identity.lock (entry.action i gi mark)) (R.startOf sub signers)
        = .ok () s) :
    ∃ u, Brings (R.store.ledger B) (identity.userId B) value u ∧
      entry.stake ≤ u.balance.toNat := by
  obtain ⟨_, s₁, hres, hrest⟩ := ok_bind.mp hrun
  obtain ⟨_, s₂, hacts, -⟩ := ok_bind.mp hrest
  obtain ⟨auth₁, hcx₁⟩ := wp_resolveSigners.ok hres
  have hstart := Rollup.coherent_start (R := R) hn signers
  have hkeys : s₁.cx.resources.map (fun r => (r.id, r.accessType)) = sub.access := by
    rw [hcx₁]
    exact Rollup.keys_start (R := R) signers
  have hledger : s₁.cx.ledger B R.store = R.store.ledger B := by
    rw [hcx₁]
    exact Rollup.ledger_start signers
  have hc : s₁.cx.Coherent := by
    rw [hcx₁]
    exact ⟨hstart.nodup, hstart.lifecycle⟩
  have htx : s₁.cx.tx = sub.tx := by rw [hcx₁]; rfl
  have hgame : ∀ {L : Ledger}, L (entry.gameId B identity account)
      = R.store.ledger B (entry.gameId B identity account) →
      ∀ stake gid g, entry = .join stake gid → L gid = .game g → g.stake.toNat = stake := by
    rintro L hsame stake gid g rfl hslot
    exact hshown stake gid g rfl (Slot.parse_eq_game.mp (hsame.symm.trans hslot))
  by_cases hpos : 0 < value
  · rw [withDeposit, if_pos hpos] at hacts
    obtain ⟨_, s₃, hact, hacts'⟩ := ok_bind.mp hacts
    obtain ⟨_, s₄, hact', -⟩ := ok_bind.mp hacts'
    obtain ⟨cx, ⟨_, hcx⟩, happly⟩ := runAction_applies hact
    obtain ⟨cx', ⟨_, hcx'⟩, happly'⟩ := runAction_applies hact'
    have hcoherent : cx.Coherent := hcx ▸ ⟨hc.nodup, hc.lifecycle⟩
    obtain ⟨u', hledger₃, hc₃, hkeys₃, hbrings⟩ := deposit_credits (R := R) hcoherent
      (by rw [hcx]; exact hkeys) (by rw [hcx]; exact htx) (by rw [hcx]; exact hledger) hi
      (hci hpos) hout happly
    have hsame : s₃.cx.ledger B R.store (entry.gameId B identity account)
        = R.store.ledger B (entry.gameId B identity account) := by
      rw [hledger₃, Function.update_of_ne hgu]
    have hcoherent' : cx'.Coherent := hcx' ▸ ⟨hc₃.nodup, hc₃.lifecycle⟩
    have hledger' : cx'.ledger B R.store = s₃.cx.ledger B R.store := by rw [hcx']; rfl
    obtain ⟨u, huser, hle⟩ := entry.action_spends (R := R) hcoherent' (by rw [hcx']; exact hkeys₃)
      hmarks hstake hi hg (hgame (by rw [hledger', hsame])) happly'
    rw [hledger', hledger₃, Function.update_self] at huser
    cases huser
    exact ⟨u', hbrings, hle⟩
  · rw [withDeposit, if_neg hpos] at hacts
    obtain ⟨_, s₃, hact, -⟩ := ok_bind.mp hacts
    obtain ⟨cx', ⟨_, hcx'⟩, happly⟩ := runAction_applies hact
    have hcoherent' : cx'.Coherent := hcx' ▸ ⟨hc.nodup, hc.lifecycle⟩
    have hledger' : cx'.ledger B R.store = R.store.ledger B := by rw [hcx']; exact hledger
    obtain ⟨u, huser, hle⟩ := entry.action_spends (R := R) hcoherent' (by rw [hcx']; exact hkeys)
      hmarks hstake hi hg (hgame (congrFun hledger' _)) happly
    rw [hledger'] at huser
    exact ⟨u, .inr ⟨u, huser, by rw [toNat_eq_zero_of_not_pos hpos, Nat.add_zero]⟩, hle⟩

/-- An account a deposit brought to the stake needed no more of it. -/
theorem depositFor_le (hhex : ∀ id : ResourceId, hexDecode (hexString id.val) = some id)
    (hfetched : fetchAccount hexDecode ⟨R.store, index, isCanonical⟩ B
      (hexString (identity.userId B).val) = .ok account)
    (hread : ∀ u, UserBody.fromBytes B (R.store (identity.userId B)) = .ok u → Readable u)
    {u : UserBody} (hu : Brings (R.store.ledger B) (identity.userId B) value u) {stake : Nat}
    (hle : stake ≤ u.balance.toNat) : depositFor account stake ≤ value.toNat := by
  obtain ⟨hempty, rfl⟩ | ⟨w, hw, hexists, hbalance, -⟩ := fetchAccount_ok hhex hfetched hread
  · simp only [depositFor, Bool.false_eq_true, if_false, entryDeposit_newborn]
    rcases hu with ⟨-, hb, hmin⟩ | ⟨w, hw, -⟩
    · rw [hb] at hle
      omega
    · rw [hempty] at hw
      cases hw
  · simp only [depositFor, hexists, hbalance, if_true, Option.getD_some, entryDeposit_live]
    rcases hu with ⟨hempty, -⟩ | ⟨w', hw', hb⟩
    · rw [hw] at hempty
      cases hempty
    · rw [hw] at hw'
      cases hw'
      omega

/-- A join entry is the Join button's, for the game that is stored. -/
def EntryFlow.Shown (R : Rollup) (entry : EntryFlow) : Prop :=
  ∀ stake gid g, entry = .join stake gid → GameBody.fromBytes (R.store gid) = .ok g →
    entry = joinFlow gid g ∧ g.stake.toNat ≤ 2 ^ 53

/-- **The least deposit.** A carrier that enters the same game with a smaller
deposit than the browser sizes is refused, whoever signs it, and leaves the
rollup as it was. -/
theorem entry_deposit_least (hhex : ∀ id : ResourceId, hexDecode (hexString id.val) = some id)
    (hfetched : fetchAccount hexDecode ⟨R.store, index, isCanonical⟩ B
      (hexString (identity.userId B).val) = .ok account)
    (hread : ∀ u, UserBody.fromBytes B (R.store (identity.userId B)) = .ok u → Readable u)
    (hstake : entry.stake < 2 ^ 64) (hshown : entry.Shown R)
    (huc : identity.userId B ≠ configId)
    (hgu : entry.gameId B identity account ≠ identity.userId B)
    (hgc : entry.gameId B identity account ≠ configId) {utxoAmount : UInt64}
    (hpayload : entryPayload B identity utxoAmount configId account entry value = .ok p)
    (haccess : sub.access = p.access.map fun m => (m.resourceId, m.accessType))
    {sigOffset : Nat → UInt32} (hdata : p.Assembled sigOffset sub.tx.payload.ixData)
    (hout : ∀ out, B.parseOutputAtIndexV1 sub.tx.restPreimage 0 = some out → out.value = value)
    (hshort : value.toNat < depositFor account entry.stake) :
    R.submit B (covenantDepositPolicy B) sub = R := by
  obtain ⟨i, ci, gi, mark, named, hmarks, hcarries, hui, hgi, hci⟩ :=
    entryPayload_carries hpayload huc hgu hgc
  have hstored : ∀ stake gid g, entry = .join stake gid →
      GameBody.fromBytes (R.store gid) = .ok g → g.stake.toNat = stake := by
    rintro stake gid g rfl hg
    obtain ⟨hflow, hexact⟩ := hshown stake gid g rfl hg
    rw [joinFlow_eq hexact] at hflow
    cases hflow
    rfl
  have hlen : (R.attach sub).length = p.access.length := by
    rw [Rollup.attach, List.length_map, haccess, List.length_map]
  obtain ⟨stop, hdec⟩ := hcarries.decodes sigOffset _ hdata
  have hix : decodeIx sub.tx.payload.ixData (R.attach sub).length (decodeAction B) = .ok
      ⟨[(i, .schnorrSigPtr (sigOffset 0))],
        withDeposit i ci value identity.lock (entry.action i gi mark), stop⟩ := by
    rw [hlen]
    exact hdec
  have hspec := decodeIx_spec sub.tx.payload.ixData (decodes_decodeAction B (R.attach sub).length)
  rw [hix] at hspec
  obtain ⟨presig, hpre⟩ := payloadPresig_ok hspec.2.2
  have hrefused : ∃ e, R.runOn B (covenantDepositPolicy B) sub = .error e := by
    rw [Rollup.runOn, run_of_decoded hix hpre]
    cases hrun : runSignersAndActions B (covenantDepositPolicy B) presig
        (withDeposit i ci value identity.lock (entry.action i gi mark))
        (R.startOf sub [(i, .schnorrSigPtr (sigOffset 0))]) with
    | ok _ s =>
      obtain ⟨u, hbrings, hle⟩ := EntryFlow.run_spends (access_nodup hcarries haccess) hmarks
        hstake (access_at hcarries haccess hui) (access_at hcarries haccess hgi)
        (fun hpos => access_at hcarries haccess (hci hpos)) hgu hstored hout hrun
      exact absurd (depositFor_le hhex hfetched hread hbrings hle) (Nat.not_le.mpr hshort)
    | error e s =>
      simp only [Rollup.startOf] at hrun
      simp only [hrun]
      exact ⟨e, rfl⟩
  obtain ⟨e, he⟩ := hrefused
  unfold Rollup.submit
  rw [he]
  cases R.decoded B sub <;> rfl

end Least

/-- One sompi less, and she stays without an account. -/
theorem entry_deposit_least_newborn : ∃ p, entryPayload .plain Sample.carol 20000
      TicTacToe.Sample.configId Sample.newborn Sample.creating 999 = .ok p ∧
    TicTacToe.Sample.opened.submit .plain (covenantDepositPolicy .plain)
      (Sample.carrierOf Sample.carol p 0 999) = TicTacToe.Sample.opened := by
  obtain ⟨p, hp, -⟩ := ok_of_any (x := entryPayload .plain Sample.carol 20000
    TicTacToe.Sample.configId Sample.newborn Sample.creating 999)
    (p := fun _ => true) (by decide +kernel)
  have hshown : Sample.creating.Shown TicTacToe.Sample.opened := by
    intro stake gid g h
    cases h
  have hpays : Sample.Pays 999 := by decide +kernel
  have hdata : p.Assembled (fun _ => 0)
      (Sample.carrierOf Sample.carol p 0 999).tx.payload.ixData := ⟨_, rfl⟩
  have hstake : Sample.creating.stake < 2 ^ 64 := by decide +kernel
  have huc : Sample.carol.userId .plain ≠ TicTacToe.Sample.configId := by decide +kernel
  have hgu : Sample.creating.gameId .plain Sample.carol Sample.newborn
      ≠ Sample.carol.userId .plain := by decide +kernel
  have hgc : Sample.creating.gameId .plain Sample.carol Sample.newborn
      ≠ TicTacToe.Sample.configId := by decide +kernel
  have hshort : (999 : UInt64).toNat < depositFor Sample.newborn Sample.creating.stake := by
    decide +kernel
  exact ⟨p, hp, entry_deposit_least Sample.hexDecode_hexString Sample.carol_fetched
    Sample.carol_readable hstake hshown huc hgu hgc hp rfl hdata
    (fun _ => Sample.carrierOf_output hpays) hshort⟩

end TicTacToe.Web
