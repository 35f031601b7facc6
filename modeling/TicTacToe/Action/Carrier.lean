/-
TicTacToe.Action.Carrier — how a host names resources by position: the
access helpers of `program/action/encode.rs`, the merge of
`encoder-wasm/src/ops.rs`, and the payload builders over both.

The ABI wants the access list strictly ascending by id, and an action
names its resources by their place in that list, so every index depends on
how hashes happen to sort. `Addresses` says what a list and its indices
are worth; `PayloadCarries` says it of a payload, up to what the guest decodes
and finds under each index.

The assembly of the bytes and the signatures are the app kit's: the layout
is the one the guest reads, the offsets and the tail are arbitrary. Hex
arguments are taken as the values they spell, and the funding part of a
builder only by the error it can raise.

No `sorry`, no `axiom`, no `native_decide`.
-/
import TicTacToe.Action.Frame
import TicTacToe.Rollup

namespace TicTacToe

open Lib

/-! ## Access lists -/

structure AccessMetadata where
  resourceId : ResourceId
  accessType : AccessType
  deriving DecidableEq

namespace AccessMetadata

def write (id : ResourceId) : AccessMetadata := ⟨id, .write⟩

def read (id : ResourceId) : AccessMetadata := ⟨id, .read⟩

end AccessMetadata

structure UserConfigAccess where
  userIdx : UInt8
  configIdx : UInt8
  access : List AccessMetadata

def userConfigAccess (userId configId : ResourceId) : UserConfigAccess :=
  if userId.val < configId.val then ⟨0, 1, [.write userId, .read configId]⟩
  else ⟨1, 0, [.read configId, .write userId]⟩

structure TwoUserAccess where
  sourceIdx : UInt8
  destIdx : UInt8
  access : List AccessMetadata

def twoUserAccess (sourceId destId : ResourceId) : TwoUserAccess :=
  if sourceId.val < destId.val then ⟨0, 1, [.write sourceId, .write destId]⟩
  else ⟨1, 0, [.write destId, .write sourceId]⟩

structure GameUserAccess where
  gameIdx : UInt8
  userIdx : UInt8
  access : List AccessMetadata

def gameUserAccess (gameId userId : ResourceId) : GameUserAccess :=
  if gameId.val < userId.val then ⟨0, 1, [.write gameId, .write userId]⟩
  else ⟨1, 0, [.write userId, .write gameId]⟩

structure GameConfigAccess where
  gameIdx : UInt8
  configIdx : UInt8
  access : List AccessMetadata

def gameConfigAccess (gameId configId : ResourceId) : GameConfigAccess :=
  if gameId.val < configId.val then ⟨0, 1, [.write gameId, .read configId]⟩
  else ⟨1, 0, [.read configId, .write gameId]⟩

structure GameTwoUserAccess where
  gameIdx : UInt8
  firstUserIdx : UInt8
  secondUserIdx : UInt8
  access : List AccessMetadata

/-- Sorts the three entries with their tags and reads the tags back. -/
def gameTwoUserAccess (gameId firstUserId secondUserId : ResourceId) : GameTwoUserAccess :=
  let entries : List (Nat × AccessMetadata) :=
    [(0, .write gameId), (1, .write firstUserId), (2, .write secondUserId)].insertionSort
      fun a b => a.2.resourceId.val ≤ b.2.resourceId.val
  let (gameIdx, firstUserIdx, secondUserIdx) :=
    entries.zipIdx.foldl (fun (idx : UInt8 × UInt8 × UInt8) e =>
      let sortedIdx := UInt8.ofNat e.2
      match e.1.1 with
      | 0 => (sortedIdx, idx.2.1, idx.2.2)
      | 1 => (idx.1, sortedIdx, idx.2.2)
      | _ => (idx.1, idx.2.1, sortedIdx)) (0, 0, 0)
  ⟨gameIdx, firstUserIdx, secondUserIdx, entries.map Prod.snd⟩

/-- `dedup_by` on the resource id, behind the entry kept last. -/
def dedupAfter (last : AccessMetadata) : List AccessMetadata → List AccessMetadata
  | [] => []
  | m :: rest =>
    if m.resourceId = last.resourceId then dedupAfter last rest else m :: dedupAfter m rest

def dedupAccess : List AccessMetadata → List AccessMetadata
  | [] => []
  | m :: rest => m :: dedupAfter m rest

/-- Sorts and dedups two access lists into the strictly ascending merged list. -/
def mergeAccess (access more : List AccessMetadata) : List AccessMetadata :=
  dedupAccess ((access ++ more).insertionSort fun a b => a.resourceId.val ≤ b.resourceId.val)

/-- The position of `id`, which construction guarantees `access` holds. -/
def position (access : List AccessMetadata) (id : ResourceId) : Except Fault UInt8 :=
  match access.findIdx? fun m => m.resourceId = id with
  | some i => .ok (UInt8.ofNat i)
  | none => .error .panic

/-! ## Payloads -/

/-- A schnorr sig-pointer over the acting user, its tail 64 bytes of signature. -/
structure SignerSpec where
  resourceIdx : UInt8
  tag : UInt8

def schnorrSpec (resourceIdx : UInt8) : SignerSpec := ⟨resourceIdx, 0x01⟩

structure LanePayload where
  access : List AccessMetadata
  actions : List (List UInt8)
  signers : List SignerSpec

/-- The app kit assembled `p` into `ixData`: the signer entries with the offsets
of their tails, then the actions, then the tails. -/
def LanePayload.Assembled (p : LanePayload) (sigOffset : Nat → UInt32) (ixData : List UInt8) :
    Prop :=
  ∃ tail, ixData = le32 (UInt32.ofNat p.signers.length) ++
    ((p.signers.zipIdx.flatMap fun s => s.1.resourceIdx :: s.1.tag :: le32 (sigOffset s.2)) ++
      (le32 (UInt32.ofNat p.actions.length) ++ (p.actions.flatten ++ tail)))

/-- The signing identity, by its x-only public key. -/
structure Identity where
  pubkey : Bytes32

def Identity.lock (identity : Identity) : LockEnum := .schnorr identity.pubkey

def Identity.userId (B : Battery) (identity : Identity) : ResourceId :=
  deriveUserResource B (identity.lock.idHash B)

/-- A `JsError`. -/
def jsError {α : Type} (msg : String) : Except Fault α := .error (.decode msg)

def cellFromU8 (mark : UInt8) : Except Fault Cell :=
  if mark = 1 then .ok .x
  else if mark = 2 then .ok .o
  else jsError "mark must be 1 (X) or 2 (O)"

/-- The payload of `create_game_tx`. -/
def createGamePayload (B : Battery) (identity : Identity) (utxoAmount : UInt64)
    (configId : ResourceId) (myGamesStarted stake : UInt64) (rounds markU8 : UInt8)
    (depositAmount : UInt64) : Except Fault LanePayload := do
  let mark ← cellFromU8 markU8
  let gameId := deriveGameResource B (identity.lock.idHash B) myGamesStarted
  let gameAccess := gameUserAccess gameId (identity.userId B)
  if depositAmount > 0 then
    if utxoAmount ≤ depositAmount then
      jsError "funding UTXO does not cover the deposit"
    else
      let access :=
        mergeAccess (userConfigAccess (identity.userId B) configId).access gameAccess.access
      let userIdx ← position access (identity.userId B)
      let configIdx ← position access configId
      let gameIdx ← position access gameId
      let deposit := encodeDepositAction userIdx configIdx 0 identity.lock
      let create := encodeCreateGameAction userIdx gameIdx stake rounds mark
      return ⟨access, [deposit, create], [schnorrSpec userIdx]⟩
  else
    return ⟨gameAccess.access,
      [encodeCreateGameAction gameAccess.userIdx gameAccess.gameIdx stake rounds mark],
      [schnorrSpec gameAccess.userIdx]⟩

/-- The payload of `join_game_tx`. -/
def joinGamePayload (B : Battery) (identity : Identity) (utxoAmount : UInt64)
    (configId gameId : ResourceId) (depositAmount : UInt64) : Except Fault LanePayload := do
  let gameAccess := gameUserAccess gameId (identity.userId B)
  if depositAmount > 0 then
    if utxoAmount ≤ depositAmount then
      jsError "funding UTXO does not cover the deposit"
    else
      let access :=
        mergeAccess (userConfigAccess (identity.userId B) configId).access gameAccess.access
      let userIdx ← position access (identity.userId B)
      let configIdx ← position access configId
      let deposit := encodeDepositAction userIdx configIdx 0 identity.lock
      let gameIdx ← position access gameId
      let join := encodeJoinGameAction gameIdx userIdx
      return ⟨access, [deposit, join], [schnorrSpec userIdx]⟩
  else
    return ⟨gameAccess.access,
      [encodeJoinGameAction gameAccess.gameIdx gameAccess.userIdx],
      [schnorrSpec gameAccess.userIdx]⟩

/-- The payload of `turn_tx`. -/
def turnPayload (gameId myUserId opponentUserId : ResourceId) (cell : UInt8) :
    Except Fault LanePayload :=
  if cell > 8 then jsError "cell must be within 0..=8"
  else
    let access := gameTwoUserAccess gameId myUserId opponentUserId
    .ok ⟨access.access, [encodeTurnAction access.gameIdx access.firstUserIdx cell],
      [schnorrSpec access.firstUserIdx]⟩

/-- The payload of `transfer_tx`; `destPubkey` is the key a new destination is
locked with. -/
def transferPayload (B : Battery) (identity : Identity) (destId : ResourceId)
    (destExists : Bool) (amount : UInt64) (destPubkey : Option Bytes32) :
    Except Fault LanePayload := do
  if destId = identity.userId B then
    jsError
      "self-transfer is not supported: it would repeat one resource id in the access list"
  else
    let access := twoUserAccess (identity.userId B) destId
    let action ← if destExists then
        .ok (encodeTransferAction access.sourceIdx access.destIdx amount)
      else match destPubkey with
        | none => jsError "dest_pubkey_hex is required when the destination does not exist"
        | some pubkey =>
          .ok (encodeTransferCreateAction access.sourceIdx access.destIdx amount (.schnorr pubkey))
    return ⟨access.access, [action], [schnorrSpec access.sourceIdx]⟩

/-- The payload of `withdraw_tx`. -/
def withdrawPayload (B : Battery) (identity : Identity) (configId : ResourceId)
    (amount : UInt64) : LanePayload :=
  let access := userConfigAccess (identity.userId B) configId
  ⟨access.access,
    [encodeWithdrawAction access.userIdx access.configIdx amount (.pubKey identity.pubkey)],
    [schnorrSpec access.userIdx]⟩

/-! ## What an access list is worth -/

/-- Ascending by id, exactly the named entries, each index at its entry. -/
structure Addresses (access : List AccessMetadata) (named : List (AccessMetadata × UInt8)) :
    Prop where
  ascending : access.Pairwise fun a b => a.resourceId.val < b.resourceId.val
  perm : access.Perm (named.map Prod.fst)
  points : ∀ p ∈ named, access[p.2.toNat]? = some p.1

theorem id_lt_or_gt {a b : ResourceId} (h : a ≠ b) : a.val < b.val ∨ b.val < a.val := by
  rcases Std.lt_trichotomy a.val b.val with hlt | heq | hgt
  · exact .inl hlt
  · exact absurd (Subtype.ext heq) h
  · exact .inr hgt

/-- Two entries in either order. -/
theorem addresses_pair {a b : AccessMetadata} (h : a.resourceId.val < b.resourceId.val) :
    Addresses [a, b] [(a, 0), (b, 1)] ∧ Addresses [a, b] [(b, 1), (a, 0)] := by
  have hasc : [a, b].Pairwise fun a b => a.resourceId.val < b.resourceId.val := by
    simpa using h
  refine ⟨⟨hasc, .refl _, ?_⟩, ⟨hasc, .swap _ _ _, ?_⟩⟩
  · intro p hp
    simp only [List.mem_cons, List.not_mem_nil, or_false] at hp
    rcases hp with rfl | rfl <;> rfl
  · intro p hp
    simp only [List.mem_cons, List.not_mem_nil, or_false] at hp
    rcases hp with rfl | rfl <;> rfl

section Helpers

variable {a b c : ResourceId}

theorem addresses_userConfigAccess (h : a ≠ b) :
    Addresses (userConfigAccess a b).access
      [(.write a, (userConfigAccess a b).userIdx),
        (.read b, (userConfigAccess a b).configIdx)] := by
  unfold userConfigAccess
  rcases id_lt_or_gt h with hlt | hgt
  · rw [if_pos hlt]
    exact (addresses_pair hlt).1
  · rw [if_neg (Std.not_lt.mpr (Std.le_of_lt hgt))]
    exact (addresses_pair hgt).2

theorem addresses_twoUserAccess (h : a ≠ b) :
    Addresses (twoUserAccess a b).access
      [(.write a, (twoUserAccess a b).sourceIdx), (.write b, (twoUserAccess a b).destIdx)] := by
  unfold twoUserAccess
  rcases id_lt_or_gt h with hlt | hgt
  · rw [if_pos hlt]
    exact (addresses_pair hlt).1
  · rw [if_neg (Std.not_lt.mpr (Std.le_of_lt hgt))]
    exact (addresses_pair hgt).2

theorem addresses_gameUserAccess (h : a ≠ b) :
    Addresses (gameUserAccess a b).access
      [(.write a, (gameUserAccess a b).gameIdx), (.write b, (gameUserAccess a b).userIdx)] := by
  unfold gameUserAccess
  rcases id_lt_or_gt h with hlt | hgt
  · rw [if_pos hlt]
    exact (addresses_pair hlt).1
  · rw [if_neg (Std.not_lt.mpr (Std.le_of_lt hgt))]
    exact (addresses_pair hgt).2

theorem addresses_gameConfigAccess (h : a ≠ b) :
    Addresses (gameConfigAccess a b).access
      [(.write a, (gameConfigAccess a b).gameIdx),
        (.read b, (gameConfigAccess a b).configIdx)] := by
  unfold gameConfigAccess
  rcases id_lt_or_gt h with hlt | hgt
  · rw [if_pos hlt]
    exact (addresses_pair hlt).1
  · rw [if_neg (Std.not_lt.mpr (Std.le_of_lt hgt))]
    exact (addresses_pair hgt).2

/-- Three entries in one of the six orders. -/
theorem addresses_triple {x y z : AccessMetadata} (hxy : x.resourceId.val < y.resourceId.val)
    (hyz : y.resourceId.val < z.resourceId.val) {named : List (AccessMetadata × UInt8)}
    (hperm : [(x, (0 : UInt8)), (y, 1), (z, 2)].Perm named) : Addresses [x, y, z] named := by
  refine ⟨?_, hperm.map Prod.fst, ?_⟩
  · simpa using ⟨⟨hxy, Std.lt_trans hxy hyz⟩, hyz⟩
  · intro p hp
    have hmem := hperm.mem_iff.mpr hp
    simp only [List.mem_cons, List.not_mem_nil, or_false] at hmem
    rcases hmem with rfl | rfl | rfl <;> rfl

theorem addresses_gameTwoUserAccess (hab : a ≠ b) (hac : a ≠ c) (hbc : b ≠ c) :
    Addresses (gameTwoUserAccess a b c).access
      [(.write a, (gameTwoUserAccess a b c).gameIdx),
        (.write b, (gameTwoUserAccess a b c).firstUserIdx),
        (.write c, (gameTwoUserAccess a b c).secondUserIdx)] := by
  have hle : ∀ {x y : ResourceId}, x.val < y.val → x.val ≤ y.val ∧ ¬ y.val ≤ x.val :=
    fun h => ⟨Std.le_of_lt h, Std.not_le.mpr h⟩
  rcases id_lt_or_gt hab with h₁ | h₁ <;> rcases id_lt_or_gt hac with h₂ | h₂ <;>
    rcases id_lt_or_gt hbc with h₃ | h₃ <;>
    simp only [gameTwoUserAccess, List.insertionSort, List.orderedInsert, AccessMetadata.write,
      hle h₁, hle h₂,
      hle h₃, if_true, if_false, List.foldr]
  · exact addresses_triple h₁ h₃ (.refl _)
  · exact addresses_triple h₂ h₃ (.cons _ (.swap _ _ _))
  · exact absurd (Std.lt_trans h₁ h₃) (Std.not_lt.mpr (Std.le_of_lt h₂))
  · exact addresses_triple h₂ h₁ (List.perm_append_singleton _ [_, _]).symm
  · exact addresses_triple h₁ h₂ (.swap _ _ _)
  · exact absurd (Std.lt_trans h₂ h₃) (Std.not_lt.mpr (Std.le_of_lt h₁))
  · exact addresses_triple h₃ h₂ (List.perm_append_singleton _ [_, _])
  · exact addresses_triple h₃ h₁ (List.reverse_perm [_, _, _])

end Helpers

/-! ## The merged list -/

section Merge

variable {access more l : List AccessMetadata} {last m : AccessMetadata}

/-- What stays behind `last` is strictly ascending, and nothing but repeats is
lost when entries with one id are one entry. -/
theorem dedupAfter_spec
    (hsort : (last :: l).Pairwise fun a b => a.resourceId.val ≤ b.resourceId.val)
    (hagree : ∀ x ∈ last :: l, ∀ y ∈ last :: l, x.resourceId = y.resourceId → x = y) :
    ((last :: dedupAfter last l).Pairwise fun a b => a.resourceId.val < b.resourceId.val) ∧
      ∀ m, m ∈ last :: dedupAfter last l ↔ m ∈ last :: l := by
  induction l generalizing last with
  | nil => exact ⟨List.pairwise_singleton _ _, fun _ => Iff.rfl⟩
  | cons m rest ih =>
    obtain ⟨hfirst, hrest⟩ := List.pairwise_cons.mp hsort
    unfold dedupAfter
    by_cases hid : m.resourceId = last.resourceId
    · rw [if_pos hid]
      obtain rfl : m = last := hagree m (by simp) last (by simp) hid
      obtain ⟨hasc, hmem⟩ := ih hrest fun x hx y hy =>
        hagree x (List.mem_cons_of_mem _ hx) y (List.mem_cons_of_mem _ hy)
      refine ⟨hasc, fun x => ?_⟩
      rw [hmem]
      simp
    · rw [if_neg hid]
      obtain ⟨hasc, hmem⟩ := ih hrest fun x hx y hy =>
        hagree x (List.mem_cons_of_mem _ hx) y (List.mem_cons_of_mem _ hy)
      have hlt : last.resourceId.val < m.resourceId.val :=
        Std.lt_of_le_of_ne (hfirst m List.mem_cons_self) fun h => hid (Subtype.ext h.symm)
      refine ⟨List.pairwise_cons.mpr ⟨?_, hasc⟩, fun x => ?_⟩
      · intro x hx
        rcases List.mem_cons.mp hx with rfl | hx
        · exact hlt
        · exact Std.lt_trans hlt ((List.pairwise_cons.mp hasc).1 x hx)
      · rw [List.mem_cons, hmem]
        exact List.mem_cons.symm

theorem mergeAccess_spec
    (hagree : ∀ x ∈ access ++ more, ∀ y ∈ access ++ more, x.resourceId = y.resourceId → x = y) :
    ((mergeAccess access more).Pairwise fun a b => a.resourceId.val < b.resourceId.val) ∧
      ∀ m, m ∈ mergeAccess access more ↔ m ∈ access ∨ m ∈ more := by
  unfold mergeAccess
  have hperm := List.perm_insertionSort
    (fun a b : AccessMetadata => a.resourceId.val ≤ b.resourceId.val) (access ++ more)
  have hsort := List.pairwise_insertionSort
    (fun a b : AccessMetadata => a.resourceId.val ≤ b.resourceId.val) (access ++ more)
  cases hl : (access ++ more).insertionSort fun a b : AccessMetadata =>
      a.resourceId.val ≤ b.resourceId.val with
  | nil =>
    rw [hl] at hperm
    refine ⟨List.Pairwise.nil, fun m => ?_⟩
    rw [← List.mem_append, ← hperm.mem_iff]
    exact Iff.rfl
  | cons first rest =>
    rw [hl] at hperm hsort
    obtain ⟨hasc, hmem⟩ := dedupAfter_spec hsort fun x hx y hy =>
      hagree x (hperm.mem_iff.mp hx) y (hperm.mem_iff.mp hy)
    refine ⟨hasc, fun m => ?_⟩
    rw [← List.mem_append, ← hperm.mem_iff]
    exact hmem m

/-- In an ascending list an id stands for one entry. -/
theorem eq_of_id_eq (hasc : access.Pairwise fun a b => a.resourceId.val < b.resourceId.val)
    {x y : AccessMetadata} (hx : x ∈ access) (hy : y ∈ access)
    (h : x.resourceId = y.resourceId) : x = y := by
  have hnodup : (access.map AccessMetadata.resourceId).Nodup := by
    refine List.pairwise_map.mpr (hasc.imp fun hlt heq => ?_)
    rw [heq] at hlt
    exact Std.lt_irrefl hlt
  exact List.inj_on_of_nodup_map hnodup hx hy h

/-- The position of an id the list holds points at its entry. -/
theorem position_ok (hasc : access.Pairwise fun a b => a.resourceId.val < b.resourceId.val)
    (hlen : access.length ≤ 256) (hm : m ∈ access) :
    ∃ i, position access m.resourceId = .ok i ∧ access[i.toNat]? = some m := by
  unfold position
  cases hfind : access.findIdx? fun x => x.resourceId = m.resourceId with
  | none =>
    have hno := List.findIdx?_eq_none_iff.mp hfind m hm
    simp at hno
  | some i =>
    obtain ⟨hi, hid, -⟩ := List.findIdx?_eq_some_iff_getElem.mp hfind
    have heq : access[i] = m :=
      eq_of_id_eq hasc (List.getElem_mem hi) hm (of_decide_eq_true hid)
    have hbyte : (UInt8.ofNat i).toNat = i := by
      rw [UInt8.toNat_ofNat', Nat.mod_eq_of_lt (by omega)]
    refine ⟨UInt8.ofNat i, rfl, ?_⟩
    rw [hbyte, List.getElem?_eq_getElem hi, heq]

/-- The merged list of the funded builders, whose two lists share the user. -/
theorem addresses_mergeAccess {user config game : ResourceId} (huc : user ≠ config)
    (hgu : game ≠ user) (hgc : game ≠ config) :
    let merged := mergeAccess (userConfigAccess user config).access
      (gameUserAccess game user).access
    ∃ u c g, position merged user = .ok u ∧ position merged config = .ok c ∧
      position merged game = .ok g ∧
      Addresses merged [(.write user, u), (.read config, c), (.write game, g)] := by
  intro merged
  have hleft : ∀ m, m ∈ (userConfigAccess user config).access ↔
      m = .write user ∨ m = .read config := by
    intro m
    rw [(addresses_userConfigAccess huc).perm.mem_iff]
    simp
  have hright : ∀ m, m ∈ (gameUserAccess game user).access ↔ m = .write game ∨ m = .write user := by
    intro m
    rw [(addresses_gameUserAccess hgu).perm.mem_iff]
    simp
  have hagree : ∀ x ∈ (userConfigAccess user config).access ++ (gameUserAccess game user).access,
      ∀ y ∈ (userConfigAccess user config).access ++ (gameUserAccess game user).access,
        x.resourceId = y.resourceId → x = y := by
    intro x hx y hy hid
    simp only [List.mem_append, hleft, hright] at hx hy
    rcases hx with (rfl | rfl) | rfl | rfl <;> rcases hy with (rfl | rfl) | rfl | rfl <;>
      first
        | rfl
        | exact absurd hid huc
        | exact absurd hid.symm huc
        | exact absurd hid hgu
        | exact absurd hid.symm hgu
        | exact absurd hid hgc
        | exact absurd hid.symm hgc
  obtain ⟨hasc, hmem⟩ := mergeAccess_spec hagree
  have hperm : merged.Perm [.write user, .read config, .write game] := by
    refine (List.perm_ext_iff_of_nodup ?_ ?_).mpr fun m => ?_
    · refine hasc.imp fun hlt heq => ?_
      rw [heq] at hlt
      exact Std.lt_irrefl hlt
    · simp [AccessMetadata.write, AccessMetadata.read, hgu.symm]
    · rw [hmem, hleft, hright]
      simp only [List.mem_cons, List.not_mem_nil, or_false]
      tauto
  have hlen : merged.length ≤ 256 := by
    rw [hperm.length_eq]
    exact Nat.le_of_ble_eq_true rfl
  have hin : ∀ m ∈ [.write user, .read config, .write game], m ∈ merged :=
    fun m hm => hperm.mem_iff.mpr hm
  obtain ⟨u, hu, hpu⟩ := position_ok hasc hlen (hin (.write user) (by simp))
  obtain ⟨c, hc, hpc⟩ := position_ok hasc hlen (hin (.read config) (by simp))
  obtain ⟨g, hg, hpg⟩ := position_ok hasc hlen (hin (.write game) (by simp))
  refine ⟨u, c, g, hu, hc, hg, hasc, hperm, ?_⟩
  intro p hp
  simp only [List.mem_cons, List.not_mem_nil, or_false] at hp
  rcases hp with rfl | rfl | rfl
  · exact hpu
  · exact hpc
  · exact hpg

end Merge

/-! ## What the guest makes of a payload -/

/-- The guest decodes these actions and this signer, and finds under every
index the resource it is named after, with the access it was declared with. -/
structure PayloadCarries (B : Battery) (p : LanePayload) (actions : List ActionBody)
    (signerIdx : UInt8)
    (named : List (AccessMetadata × UInt8)) : Prop where
  addresses : Addresses p.access named
  decodes : ∀ (sigOffset : Nat → UInt32) (ixData : List UInt8), p.Assembled sigOffset ixData →
    ∃ stop, decodeIx ixData p.access.length (decodeAction B) =
      .ok ⟨[(signerIdx, .schnorrSigPtr (sigOffset 0))], actions, stop⟩
  attached : ∀ (R : Rollup) (sub : Submission),
    sub.access = p.access.map (fun m => (m.resourceId, m.accessType)) →
    ∀ q ∈ named, ∃ r, (R.attach sub)[q.2.toNat]? = some r ∧ r.id = q.1.resourceId ∧
      r.accessType = q.1.accessType

/-- A builder's outcome: a payload in `Q`, or an error of its own, never a panic. -/
def Builds (x : Except Fault LanePayload) (Q : LanePayload → Prop) : Prop :=
  match x with
  | .ok p => Q p
  | .error e => e.IsReject

section Payloads

variable {B : Battery} {p : LanePayload} {named : List (AccessMetadata × UInt8)}

theorem Addresses.lt {access : List AccessMetadata} (h : Addresses access named)
    {q : AccessMetadata × UInt8} (hq : q ∈ named) : q.2.toNat < access.length :=
  (List.getElem?_eq_some_iff.mp (h.points q hq)).1

/-- A payload of encoded in-bounds actions signed through a named index. -/
theorem carries_of {actions : List ActionBody} {m : AccessMetadata} {signerIdx : UInt8}
    (haddr : Addresses p.access named) (hsigner : (m, signerIdx) ∈ named)
    (hs : p.signers = [schnorrSpec signerIdx]) (ha : p.actions = actions.map ActionBody.encode)
    (hlen : actions.length < 2 ^ 32) (hin : ∀ a ∈ actions, a.InBounds B p.access.length) :
    PayloadCarries B p actions signerIdx named where
  addresses := haddr
  decodes sigOffset ixData hixData := by
    obtain ⟨tail, hixData⟩ := hixData
    have hwire : ixData
        = encodeSections [(signerIdx, .schnorrSigPtr (sigOffset 0))] actions tail := by
      simp only [hixData, hs, ha, encodeSections, encVec, List.append_assoc]
      rw [List.length_map, ← List.flatMap_def]
      rfl
    rw [hwire]
    refine decodeIx_of_sections (decodeSections_iff.mpr ⟨⟨by simp, ?_, ?_⟩, ⟨hlen, hin⟩, rfl⟩)
    · intro s hsig
      obtain rfl := List.mem_singleton.mp hsig
      exact haddr.lt hsigner
    · exact ⟨fun _ hp => absurd hp (Option.not_mem_none _), trivial⟩
  attached R sub hsub q hq := by
    have hat : (R.attach sub)[q.2.toNat]? = some
        { id := q.1.resourceId, accessType := q.1.accessType, data := R.store q.1.resourceId } := by
      simp only [Rollup.attach, hsub, List.getElem?_map, haddr.points q hq, Option.map_some]
    exact ⟨_, hat, rfl, rfl⟩

variable {identity : Identity} {configId gameId : ResourceId}

theorem wellFormed_lock (identity : Identity) : identity.lock.WellFormed B :=
  LockEnum.wellFormed_schnorr B identity.pubkey

theorem builds_createGame (utxoAmount myGamesStarted stake : UInt64) (rounds markU8 : UInt8)
    (depositAmount : UInt64)
    (huc : identity.userId B ≠ configId)
    (hgu : deriveGameResource B (identity.lock.idHash B) myGamesStarted ≠ identity.userId B)
    (hgc : deriveGameResource B (identity.lock.idHash B) myGamesStarted ≠ configId) :
    Builds (createGamePayload B identity utxoAmount configId myGamesStarted stake rounds markU8
        depositAmount) fun p =>
      ∃ mark u g, markU8 = mark.toByte ∧
        if depositAmount > 0 then ∃ c,
          PayloadCarries B p [.deposit u c 0 identity.lock, .createGame u g stake rounds mark] u
            [(.write (identity.userId B), u), (.read configId, c),
              (.write (deriveGameResource B (identity.lock.idHash B) myGamesStarted), g)]
        else PayloadCarries B p [.createGame u g stake rounds mark] u
          [(.write (deriveGameResource B (identity.lock.idHash B) myGamesStarted), g),
            (.write (identity.userId B), u)] := by
  have hmark : (∃ e, cellFromU8 markU8 = .error e ∧ e.IsReject) ∨
      ∃ mark, cellFromU8 markU8 = .ok mark ∧ markU8 = mark.toByte ∧ mark ≠ .empty := by
    unfold cellFromU8
    split_ifs with h₁ h₂
    · exact .inr ⟨.x, rfl, h₁, by decide⟩
    · exact .inr ⟨.o, rfl, h₂, by decide⟩
    · exact .inl ⟨_, rfl, trivial⟩
  unfold createGamePayload
  obtain ⟨e, he, hrej⟩ | ⟨mark, hok, hbyte, hne⟩ := hmark
  · rw [he]
    exact hrej
  rw [hok]
  dsimp only [bind, Except.bind]
  by_cases hdep : depositAmount > 0
  · rw [if_pos hdep]
    by_cases hfunds : utxoAmount ≤ depositAmount
    · rw [if_pos hfunds]
      trivial
    rw [if_neg hfunds]
    obtain ⟨u, c, g, hu, hc, hg, haddr⟩ := addresses_mergeAccess huc hgu hgc
    simp only [hu, hc, hg]
    refine ⟨mark, u, g, hbyte, ?_⟩
    rw [if_pos hdep]
    refine ⟨c, carries_of haddr (List.mem_cons_self) rfl rfl (by simp) ?_⟩
    have hub := haddr.lt (List.mem_cons_self)
    have hcb := haddr.lt (List.mem_cons_of_mem _ List.mem_cons_self)
    have hgb := haddr.lt (List.mem_cons_of_mem _ (List.mem_cons_of_mem _ List.mem_cons_self))
    intro a ha
    simp only [List.mem_cons, List.not_mem_nil, or_false] at ha
    rcases ha with rfl | rfl
    · exact ⟨hub, hcb, wellFormed_lock identity⟩
    · exact ⟨hub, hgb, hne⟩
  · rw [if_neg hdep]
    have haddr := addresses_gameUserAccess hgu
    let access := gameUserAccess
      (deriveGameResource B (identity.lock.idHash B) myGamesStarted) (identity.userId B)
    refine ⟨mark, access.userIdx, access.gameIdx, hbyte, ?_⟩
    rw [if_neg hdep]
    refine carries_of haddr (List.mem_cons_of_mem _ List.mem_cons_self) rfl rfl (by simp) ?_
    intro a ha
    obtain rfl := List.mem_singleton.mp ha
    exact ⟨haddr.lt (List.mem_cons_of_mem _ List.mem_cons_self), haddr.lt List.mem_cons_self, hne⟩

theorem builds_joinGame (utxoAmount depositAmount : UInt64)
    (huc : identity.userId B ≠ configId) (hgu : gameId ≠ identity.userId B)
    (hgc : gameId ≠ configId) :
    Builds (joinGamePayload B identity utxoAmount configId gameId depositAmount) fun p =>
      ∃ u g, if depositAmount > 0 then ∃ c,
          PayloadCarries B p [.deposit u c 0 identity.lock, .joinGame g u] u
            [(.write (identity.userId B), u), (.read configId, c), (.write gameId, g)]
        else PayloadCarries B p [.joinGame g u] u
          [(.write gameId, g), (.write (identity.userId B), u)] := by
  unfold joinGamePayload
  dsimp only
  by_cases hdep : depositAmount > 0
  · rw [if_pos hdep]
    by_cases hfunds : utxoAmount ≤ depositAmount
    · rw [if_pos hfunds]
      trivial
    rw [if_neg hfunds]
    obtain ⟨u, c, g, hu, hc, hg, haddr⟩ := addresses_mergeAccess huc hgu hgc
    simp only [bind, Except.bind, hu, hc, hg]
    refine ⟨u, g, ?_⟩
    rw [if_pos hdep]
    refine ⟨c, carries_of haddr (List.mem_cons_self) rfl rfl (by simp) ?_⟩
    have hub := haddr.lt (List.mem_cons_self)
    have hcb := haddr.lt (List.mem_cons_of_mem _ List.mem_cons_self)
    have hgb := haddr.lt (List.mem_cons_of_mem _ (List.mem_cons_of_mem _ List.mem_cons_self))
    intro a ha
    simp only [List.mem_cons, List.not_mem_nil, or_false] at ha
    rcases ha with rfl | rfl
    · exact ⟨hub, hcb, wellFormed_lock identity⟩
    · exact ⟨hgb, hub⟩
  · rw [if_neg hdep]
    have haddr := addresses_gameUserAccess hgu
    let access := gameUserAccess gameId (identity.userId B)
    refine ⟨access.userIdx, access.gameIdx, ?_⟩
    rw [if_neg hdep]
    refine carries_of haddr (List.mem_cons_of_mem _ List.mem_cons_self) rfl rfl (by simp) ?_
    intro a ha
    obtain rfl := List.mem_singleton.mp ha
    exact ⟨haddr.lt List.mem_cons_self, haddr.lt (List.mem_cons_of_mem _ List.mem_cons_self)⟩

theorem cellFromU8_ok_iff {markU8 : UInt8} :
    (∃ mark, cellFromU8 markU8 = .ok mark) ↔ markU8 = 1 ∨ markU8 = 2 := by
  unfold cellFromU8
  split_ifs with h₁ h₂
  · exact iff_of_true ⟨_, rfl⟩ (.inl h₁)
  · exact iff_of_true ⟨_, rfl⟩ (.inr h₂)
  · refine iff_of_false (fun h => ?_) (not_or_intro h₁ h₂)
    obtain ⟨mark, h⟩ := h
    cases h

/-- A game can be asked for with a mark and a deposit the UTXO covers. -/
theorem createGamePayload_ok_iff (utxoAmount myGamesStarted stake : UInt64)
    (rounds markU8 : UInt8) (depositAmount : UInt64) (huc : identity.userId B ≠ configId)
    (hgu : deriveGameResource B (identity.lock.idHash B) myGamesStarted ≠ identity.userId B)
    (hgc : deriveGameResource B (identity.lock.idHash B) myGamesStarted ≠ configId) :
    (∃ p, createGamePayload B identity utxoAmount configId myGamesStarted stake rounds markU8
        depositAmount = .ok p) ↔
      (markU8 = 1 ∨ markU8 = 2) ∧ (0 < depositAmount → depositAmount < utxoAmount) := by
  rw [← cellFromU8_ok_iff]
  unfold createGamePayload
  cases hmark : cellFromU8 markU8 with
  | error e =>
    refine iff_of_false (fun h => ?_) (fun h => ?_)
    · obtain ⟨p, h⟩ := h
      cases h
    · obtain ⟨⟨mark, h⟩, -⟩ := h
      cases h
  | ok mark =>
    dsimp only [bind, Except.bind]
    by_cases hdep : depositAmount > 0
    · rw [if_pos hdep]
      by_cases hfunds : utxoAmount ≤ depositAmount
      · rw [if_pos hfunds]
        refine iff_of_false (fun h => ?_) fun h => absurd (h.2 hdep) (UInt64.not_lt.mpr hfunds)
        obtain ⟨p, h⟩ := h
        cases h
      · rw [if_neg hfunds]
        obtain ⟨u, c, g, hu, hc, hg, -⟩ := addresses_mergeAccess huc hgu hgc
        simp only [hu, hc, hg]
        exact iff_of_true ⟨_, rfl⟩ ⟨⟨mark, rfl⟩, fun _ => UInt64.not_le.mp hfunds⟩
    · rw [if_neg hdep]
      exact iff_of_true ⟨_, rfl⟩ ⟨⟨mark, rfl⟩, fun h => absurd h hdep⟩

/-- A game can be joined with a deposit the UTXO covers. -/
theorem joinGamePayload_ok_iff (utxoAmount depositAmount : UInt64)
    (huc : identity.userId B ≠ configId) (hgu : gameId ≠ identity.userId B)
    (hgc : gameId ≠ configId) :
    (∃ p, joinGamePayload B identity utxoAmount configId gameId depositAmount = .ok p) ↔
      (0 < depositAmount → depositAmount < utxoAmount) := by
  unfold joinGamePayload
  dsimp only
  by_cases hdep : depositAmount > 0
  · rw [if_pos hdep]
    by_cases hfunds : utxoAmount ≤ depositAmount
    · rw [if_pos hfunds]
      refine iff_of_false (fun h => ?_) fun h => absurd (h hdep) (UInt64.not_lt.mpr hfunds)
      obtain ⟨p, h⟩ := h
      cases h
    · rw [if_neg hfunds]
      obtain ⟨u, c, g, hu, hc, hg, -⟩ := addresses_mergeAccess huc hgu hgc
      simp only [bind, Except.bind, hu, hc, hg]
      exact iff_of_true ⟨_, rfl⟩ fun _ => UInt64.not_le.mp hfunds
  · rw [if_neg hdep]
    exact iff_of_true ⟨_, rfl⟩ fun h => absurd h hdep

theorem builds_turn {user opponent : ResourceId} (cell : UInt8) (hgu : gameId ≠ user)
    (hgo : gameId ≠ opponent) (huo : user ≠ opponent) :
    Builds (turnPayload gameId user opponent cell) fun p =>
      ∃ g u o, PayloadCarries B p [.turn g u cell] u
        [(.write gameId, g), (.write user, u), (.write opponent, o)] := by
  unfold turnPayload
  by_cases hcell : cell > 8
  · rw [if_pos hcell]
    trivial
  rw [if_neg hcell]
  have haddr := addresses_gameTwoUserAccess hgu hgo huo
  have hgb := haddr.lt List.mem_cons_self
  have hub := haddr.lt (List.mem_cons_of_mem _ List.mem_cons_self)
  refine ⟨_, _, _, carries_of haddr (List.mem_cons_of_mem _ List.mem_cons_self) rfl rfl
    (by simp) ?_⟩
  intro a ha
  obtain rfl := List.mem_singleton.mp ha
  have hle : cell.toNat ≤ 8 := UInt8.not_lt.mp hcell
  exact ⟨hgb, hub, Nat.lt_succ_of_le hle⟩

theorem builds_transfer {destId : ResourceId} (destExists : Bool) (amount : UInt64)
    (destPubkey : Option Bytes32) :
    Builds (transferPayload B identity destId destExists amount destPubkey) fun p =>
      ∃ s d, PayloadCarries B p
        [.transfer s d amount (if destExists then none else destPubkey.map .schnorr)] s
        [(.write (identity.userId B), s), (.write destId, d)] := by
  unfold transferPayload
  by_cases hself : destId = identity.userId B
  · rw [if_pos hself]
    trivial
  rw [if_neg hself]
  have haddr := addresses_twoUserAccess (Ne.symm hself)
  have hsb := haddr.lt List.mem_cons_self
  have hdb := haddr.lt (List.mem_cons_of_mem _ List.mem_cons_self)
  cases destExists with
  | true =>
    refine ⟨_, _, carries_of haddr List.mem_cons_self rfl rfl (by simp) ?_⟩
    intro a ha
    obtain rfl := List.mem_singleton.mp ha
    exact ⟨hsb, hdb, fun l hl => by cases hl⟩
  | false =>
    cases destPubkey with
    | none => trivial
    | some pubkey =>
      refine ⟨_, _, carries_of haddr List.mem_cons_self rfl rfl (by simp) ?_⟩
      intro a ha
      obtain rfl := List.mem_singleton.mp ha
      refine ⟨hsb, hdb, fun l hl => ?_⟩
      cases hl
      exact LockEnum.wellFormed_schnorr B pubkey

theorem carries_withdraw (amount : UInt64) (huc : identity.userId B ≠ configId) :
    ∃ u c, PayloadCarries B (withdrawPayload B identity configId amount)
      [.withdraw u c amount (.pubKey identity.pubkey)] u
      [(.write (identity.userId B), u), (.read configId, c)] := by
  have haddr := addresses_userConfigAccess huc
  refine ⟨_, _, carries_of haddr List.mem_cons_self rfl rfl (by simp) ?_⟩
  intro a ha
  obtain rfl := List.mem_singleton.mp ha
  exact ⟨haddr.lt List.mem_cons_self, haddr.lt (List.mem_cons_of_mem _ List.mem_cons_self)⟩

/-- **Addressing.** For pairwise distinct ids every access helper and the
merge of the funded builders give a list that is strictly ascending, holds
each named id once with the mode it needs, and is pointed at by the returned
indices; and whatever a builder builds, the guest decodes to the intended
actions and signer and finds the intended resource, declared with that mode,
under each index. A create or join carrier is built whenever the UTXO covers
the deposit and the mark is one. -/
theorem carriers_address (B : Battery) (identity : Identity)
    {user user₂ configId gameId : ResourceId}
    (huu : user ≠ user₂) (huc : user ≠ configId) (hgu : gameId ≠ user) (hgu₂ : gameId ≠ user₂)
    (hgc : gameId ≠ configId) :
    (Addresses (userConfigAccess user configId).access
        [(.write user, (userConfigAccess user configId).userIdx),
          (.read configId, (userConfigAccess user configId).configIdx)] ∧
      Addresses (twoUserAccess user user₂).access
        [(.write user, (twoUserAccess user user₂).sourceIdx),
          (.write user₂, (twoUserAccess user user₂).destIdx)] ∧
      Addresses (gameUserAccess gameId user).access
        [(.write gameId, (gameUserAccess gameId user).gameIdx),
          (.write user, (gameUserAccess gameId user).userIdx)] ∧
      Addresses (gameConfigAccess gameId configId).access
        [(.write gameId, (gameConfigAccess gameId configId).gameIdx),
          (.read configId, (gameConfigAccess gameId configId).configIdx)] ∧
      Addresses (gameTwoUserAccess gameId user user₂).access
        [(.write gameId, (gameTwoUserAccess gameId user user₂).gameIdx),
          (.write user, (gameTwoUserAccess gameId user user₂).firstUserIdx),
          (.write user₂, (gameTwoUserAccess gameId user user₂).secondUserIdx)] ∧
      ∃ u c g,
        position (mergeAccess (userConfigAccess user configId).access
          (gameUserAccess gameId user).access) user = .ok u ∧
        position (mergeAccess (userConfigAccess user configId).access
          (gameUserAccess gameId user).access) configId = .ok c ∧
        position (mergeAccess (userConfigAccess user configId).access
          (gameUserAccess gameId user).access) gameId = .ok g ∧
        Addresses (mergeAccess (userConfigAccess user configId).access
          (gameUserAccess gameId user).access)
          [(.write user, u), (.read configId, c), (.write gameId, g)]) ∧
    (∀ (cell : UInt8), Builds (turnPayload gameId user user₂ cell) fun p =>
      ∃ g u o, PayloadCarries B p [.turn g u cell] u
        [(.write gameId, g), (.write user, u), (.write user₂, o)]) ∧
    (identity.userId B = user →
      (∀ (utxoAmount started stake : UInt64) (rounds markU8 : UInt8) (depositAmount : UInt64),
        deriveGameResource B (identity.lock.idHash B) started = gameId →
        ((∃ p, createGamePayload B identity utxoAmount configId started stake rounds markU8
            depositAmount = .ok p) ↔
          (markU8 = 1 ∨ markU8 = 2) ∧ (0 < depositAmount → depositAmount < utxoAmount)) ∧
        Builds (createGamePayload B identity utxoAmount configId started stake rounds markU8
            depositAmount) fun p =>
          ∃ mark u g, markU8 = mark.toByte ∧
            if depositAmount > 0 then ∃ c,
              PayloadCarries B p [.deposit u c 0 identity.lock, .createGame u g stake rounds mark] u
                [(.write user, u), (.read configId, c), (.write gameId, g)]
            else PayloadCarries B p [.createGame u g stake rounds mark] u
              [(.write gameId, g), (.write user, u)]) ∧
      (∀ utxoAmount depositAmount : UInt64,
        ((∃ p, joinGamePayload B identity utxoAmount configId gameId depositAmount = .ok p) ↔
          (0 < depositAmount → depositAmount < utxoAmount)) ∧
        Builds (joinGamePayload B identity utxoAmount configId gameId depositAmount) fun p =>
          ∃ u g, if depositAmount > 0 then ∃ c,
              PayloadCarries B p [.deposit u c 0 identity.lock, .joinGame g u] u
                [(.write user, u), (.read configId, c), (.write gameId, g)]
            else PayloadCarries B p [.joinGame g u] u [(.write gameId, g), (.write user, u)]) ∧
      (∀ (destExists : Bool) (amount : UInt64) (destPubkey : Option Bytes32),
        Builds (transferPayload B identity user₂ destExists amount destPubkey) fun p =>
          ∃ s d, PayloadCarries B p
            [.transfer s d amount (if destExists then none else destPubkey.map .schnorr)] s
            [(.write user, s), (.write user₂, d)]) ∧
      ∀ amount : UInt64, ∃ u c, PayloadCarries B (withdrawPayload B identity configId amount)
        [.withdraw u c amount (.pubKey identity.pubkey)] u
        [(.write user, u), (.read configId, c)]) := by
  refine ⟨⟨addresses_userConfigAccess huc, addresses_twoUserAccess huu,
    addresses_gameUserAccess hgu, addresses_gameConfigAccess hgc,
    addresses_gameTwoUserAccess hgu hgu₂ huu, addresses_mergeAccess huc hgu hgc⟩,
    fun cell => builds_turn cell hgu hgu₂ huu, ?_⟩
  intro hid
  subst hid
  refine ⟨?_, fun _ _ => ⟨joinGamePayload_ok_iff _ _ huc hgu hgc, builds_joinGame _ _ huc hgu hgc⟩,
    fun _ _ _ => builds_transfer _ _ _, fun _ => carries_withdraw _ huc⟩
  intro utxoAmount started stake rounds markU8 depositAmount hgame
  subst hgame
  exact ⟨createGamePayload_ok_iff utxoAmount started stake rounds markU8 depositAmount huc hgu hgc,
    builds_createGame utxoAmount started stake rounds markU8 depositAmount huc hgu hgc⟩

/-- The first player funds a game of its own and the config sorts between. -/
theorem carriers_address_funded :
    ∃ p, createGamePayload .plain ⟨Sample.aliceKey⟩ 5000 Sample.configId 0 500 1 1 1000 = .ok p ∧
      ∃ mark u g c, (1 : UInt8) = mark.toByte ∧
        PayloadCarries .plain p [.deposit u c 0 Sample.aliceLock, .createGame u g 500 1 mark] u
          [(.write Sample.aliceId, u), (.read Sample.configId, c), (.write Sample.gameId, g)] := by
  have huu : Sample.aliceId ≠ Sample.bobId := by decide +kernel
  have huc : Sample.aliceId ≠ Sample.configId := by decide +kernel
  have hgu : Sample.gameId ≠ Sample.aliceId := by decide +kernel
  have hgb : Sample.gameId ≠ Sample.bobId := by decide +kernel
  have hgc : Sample.gameId ≠ Sample.configId := by decide +kernel
  obtain ⟨-, -, h⟩ := carriers_address .plain ⟨Sample.aliceKey⟩ huu huc hgu hgb hgc
  obtain ⟨hok, hbuilds⟩ := (h rfl).1 5000 0 500 1 1 1000 rfl
  obtain ⟨p, hp⟩ := hok.mpr ⟨.inl rfl, fun _ => by decide⟩
  rw [hp] at hbuilds
  obtain ⟨mark, u, g, hmark, hcarries⟩ := hbuilds
  rw [if_pos (by decide)] at hcarries
  obtain ⟨c, hcarries⟩ := hcarries
  exact ⟨p, hp, mark, u, g, c, hmark, hcarries⟩

end Payloads

end TicTacToe
