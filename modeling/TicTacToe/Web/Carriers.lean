/-
TicTacToe.Web.Carriers — the browser's decoder of lane payloads
(`decodeLanePayload` of `web/src/carriers.ts`) and its agreement with the
guest.

The decoder reads the wire only as far as it needs to name each action and
skips signers, locks and scripts by their lengths. On a payload the guest
decodes, every skip is as long as what the guest reads there
(`scans_skipLock`, `scans_skipSpk`, `scans_skipSigner`), so the two
stay in step: `decodeLanePayload_agrees`.

Resource ids are shown as hex. `undefined` is `none`: a byte behind the
end, or an index that the access list does not have. The hex digits of the
payload itself are left out: the model starts at their bytes.

No `sorry`, no `axiom`, no `native_decide`.
-/
import TicTacToe.Action.Frame
import TicTacToe.Lib.Cursor
import TicTacToe.Web.Hex

namespace TicTacToe.Web

open Lib Lib.Cursor

/-! ## The decoder -/

/-- One decoded action, resource ids resolved through the access list. -/
inductive LaneAction where
  | turn (gameId userId : Option String) (cell : Option UInt8)
  | create (creatorId gameId : Option String) (stake : UInt64) (rounds mark : Option UInt8)
  | join (gameId joinerId : Option String)
  | deposit (userId : Option String)
  | withdraw (userId : Option String) (amount : UInt64)
  | transfer (sourceId destId : Option String) (amount : UInt64) (createsDest : Bool)
  | other (tag : UInt8)
  deriving DecidableEq

abbrev LaneReader := Cursor String

def readId : LaneReader String := do
  return hexString (← Cursor.bytes "carrier: truncated resource id" 32)

/-- Skips one `LockEnum`; the key count of a multisig is its second byte. -/
def skipLock : LaneReader Unit := do
  let tag ← u8
  if tag = some 0x01 then
    skip (some 32)
  else if tag = some 0x02 then
    let n ← peek 1
    skip (n.map fun n => 2 + 32 * n.toNat)
  else
    return ()

/-- Skips one `StandardSpk`. -/
def skipSpk : LaneReader Unit := do
  let tag ← u8
  skip (some (if tag = some 1 then 33 else 32))

/-- An access entry, of which only the id is kept. -/
def readAccess : LaneReader String := do
  let id ← readId
  let _ ← u8
  return id

/-- The witness kinds carry an input index and three offsets, the others an
offset, behind a key index for a multisig. -/
def skipSigner : LaneReader Unit := do
  let _ ← u8
  let tag ← u8
  if tag = some 0x03 then
    let _ ← u8
    skip (some 4)
  else if tag = some 0x02 ∨ tag = some 0x04 then
    let _ ← u8
    skip (some 12)
  else
    skip (some 4)

/-- `access[r.u8()]`. -/
def resource (access : List String) : LaneReader (Option String) := do
  let i ← u8
  return i.bind fun i => access[i.toNat]?

/-- What follows the tag of a configuration action. -/
def skipConfig : LaneReader Unit := do
  let _ ← u8
  let _ ← u64
  let _ ← u64
  skip (some 32)
  skipLock

def readAction (access : List String) : LaneReader LaneAction := do
  let tag ← u8
  if tag = some 0x09 then
    let gameId ← resource access
    let userId ← resource access
    return .turn gameId userId (← u8)
  else if tag = some 0x07 then
    let creatorId ← resource access
    let gameId ← resource access
    let stake ← u64
    let rounds ← u8
    return .create creatorId gameId stake rounds (← u8)
  else if tag = some 0x08 then
    let gameId ← resource access
    return .join gameId (← resource access)
  else if tag = some 0x05 then
    let userId ← resource access
    let _ ← u8
    let _ ← u32
    skipLock
    return .deposit userId
  else if tag = some 0x06 then
    let userId ← resource access
    let _ ← u8
    let amount ← u64
    skipSpk
    return .withdraw userId amount
  else if tag = some 0x03 then
    let sourceId ← resource access
    let destId ← resource access
    let amount ← u64
    let flag ← u8
    if flag = some 1 then
      skipLock
      return .transfer sourceId destId amount true
    else
      return .transfer sourceId destId amount false
  else if tag = some 0x01 then
    skipConfig
    return .other 0x01
  else if tag = some 0x02 then
    skipConfig
    return .other 0x02
  else if tag = some 0x04 then
    let _ ← u8
    skipLock
    return .other 0x04
  else if tag = some 0x0a then
    let _ ← u8
    let _ ← u8
    return .other 0x0a
  else
    throw "carrier: unknown action tag"

def readLane : LaneReader (List LaneAction) := do
  let access ← counted readAccess
  let _ ← counted skipSigner
  counted (readAction access)

/-- Throws on any structural surprise, so its contract; what follows the
actions is not looked at. -/
def decodeLanePayload (raw : List UInt8) : Except String (List LaneAction) :=
  match readLane raw (some 0) with
  | .ok actions _ => .ok actions
  | .error e _ => .error e

/-! ## The payload the guest decodes -/

/-- Id and access type, which is any byte here. -/
abbrev AccessEntry := ResourceId × UInt8

def AccessEntry.encode (entry : AccessEntry) : List UInt8 := entry.1.val ++ [entry.2]

def decodeAccessEntry : Reader AccessEntry := do
  let id ← Reader.array "access.resource_id" 32
  let accessType ← Reader.byte "access.access_type"
  return (id, accessType)

structure DecodedPayload where
  access : List AccessEntry
  ix : DecodedIx ActionBody

/-- Access list, then the instruction, indexed by it. -/
def decodePayload (B : Battery) (payload : List UInt8) : Except Fault DecodedPayload :=
  match Lib.Reader.vec (.decode "access") decodeAccessEntry payload with
  | .error e _ => .error e
  | .ok access ixData =>
    match decodeIx ixData access.length (decodeAction B) with
    | .error e => .error e
    | .ok ix => .ok { access, ix }

theorem readsOnly_decodeAccessEntry :
    ReadsOnly (fun _ => True) decodeAccessEntry AccessEntry.encode := by
  intro buf entry rest
  simp only [decodeAccessEntry, ok_bind, ok_pure, array_ok, byte_ok, true_and]
  constructor
  · intro h
    obtain ⟨id, _, rfl, t, _, rfl, rfl, rfl⟩ := h
    simp [AccessEntry.encode]
  · intro h
    obtain ⟨id, t⟩ := entry
    exact ⟨id, t :: rest, by simpa [AccessEntry.encode] using h, t, rest, rfl, rfl, rfl⟩

/-- What the guest decodes is what its three sections spell. -/
theorem decodePayload_ok {B : Battery} {payload : List UInt8} {d : DecodedPayload}
    (h : decodePayload B payload = .ok d) :
    (d.access.length < 2 ^ 32 ∧ d.ix.signers.length < 2 ^ 32 ∧ d.ix.actions.length < 2 ^ 32) ∧
    (∀ a ∈ d.ix.actions, a.InBounds B d.access.length) ∧
    ∃ tail, payload = encVec AccessEntry.encode d.access ++
      encodeSections d.ix.signers d.ix.actions tail := by
  unfold decodePayload at h
  cases hacc : Lib.Reader.vec (.decode "access") decodeAccessEntry payload with
  | error e rest =>
    rw [hacc] at h
    cases h
  | ok access ixData =>
    rw [hacc] at h
    dsimp only at h
    cases hix : decodeIx ixData access.length (decodeAction B) with
    | error e =>
      rw [hix] at h
      cases h
    | ok ix =>
      rw [hix] at h
      cases h
      have hformat := readsOnly_decodeAccessEntry.vec (.decode "access")
      obtain ⟨⟨hlen, -⟩, rfl⟩ := (hformat _ _ _).mp hacc
      obtain ⟨tail, hsections⟩ := decodeIx_sections hix
      obtain ⟨⟨hsigners, -⟩, ⟨hactions, hin⟩, rfl⟩ := decodeSections_iff.mp hsections
      exact ⟨⟨hlen, hsigners, hactions⟩, hin, tail, rfl⟩

/-! ## Agreement -/

/-- The id that an index names, as the browser shows it. -/
def idAt (access : List AccessEntry) (i : UInt8) : Option String :=
  (access.map fun entry => hexString entry.1.val)[i.toNat]?

/-- What the browser makes of an action. -/
def laneAction (access : List AccessEntry) : ActionBody → LaneAction
  | .turn g u cell => .turn (idAt access g) (idAt access u) (some cell)
  | .createGame c g stake rounds mark =>
    .create (idAt access c) (idAt access g) stake (some rounds) (some mark.toByte)
  | .joinGame g j => .join (idAt access g) (idAt access j)
  | .deposit u _ _ _ => .deposit (idAt access u)
  | .withdraw u _ amount _ => .withdraw (idAt access u) amount
  | .transfer s d amount lock => .transfer (idAt access s) (idAt access d) amount lock.isSome
  | .update .. => .other 0x01
  | .init .. => .other 0x02
  | .updateUserLock .. => .other 0x04
  | .timeout .. => .other 0x0a

section Scans

variable {B : Battery} {access : List AccessEntry}

theorem scans_resource (i : UInt8) :
    Scans (resource (access.map fun entry => hexString entry.1.val)) [i] (idAt access i) :=
  (scans_u8 i).map

/-- Every lock shape is as long as its skip. -/
theorem scans_skipLock {l : LockEnum} (h : l.WellFormed B) : Scans skipLock l.encode () := by
  cases l with
  | schnorr pubkey => exact (scans_u8 0x01).bind (scans_skip pubkey.property)
  | multisig threshold pubkeys =>
    obtain ⟨n, hlen, -⟩ := LockEnum.multisig_of_wellFormed h
    have hn : LockEnum.nPubkeys pubkeys = n := LockEnum.nPubkeys_eq hlen
    have hbody : (threshold :: n :: pubkeys).length = 2 + 32 * n.toNat := by
      simp only [List.length_cons]
      omega
    have hskip : Scans (peek 1 >>= fun n : Option UInt8 =>
        (skip (n.map fun n => 2 + 32 * n.toNat) : LaneReader Unit))
        (threshold :: n :: pubkeys) () :=
      Scans.peek (by simp) (scans_skip hbody)
    rw [← hn] at hskip
    exact (scans_u8 0x02).bind hskip
  | unlocked => exact (scans_u8 0x03).bind (scans_pure ())

theorem scans_skipSpk (dest : StandardSpk) : Scans skipSpk dest.encode () := by
  cases dest with
  | pubKey key => exact (scans_u8 0).bind (scans_skip key.property)
  | pubKeyEcdsa key => exact (scans_u8 1).bind (scans_skip key.property)
  | scriptHash hash => exact (scans_u8 8).bind (scans_skip hash.property)

theorem scans_readAccess (entry : AccessEntry) :
    Scans readAccess entry.encode (hexString entry.1.val) := by
  have hid : Scans readId entry.1.val (hexString entry.1.val) := (scans_array _ entry.1).map
  exact hid.bind (scans_u8 entry.2).map

/-- Every signer kind is as long as its skip. -/
theorem scans_skipSigner (entry : UInt8 × SignerEnum) :
    Scans skipSigner (encodeSigner entry) () := by
  obtain ⟨idx, s⟩ := entry
  cases s with
  | schnorrSigPtr off =>
    exact (scans_u8 idx).bind ((scans_u8 0x01).bind (scans_skip (length_le32 off)))
  | prevTxV1Witness w =>
    have hoffsets : (le32 w.offset0 ++ (le32 w.offset1 ++ le32 w.offset2)).length = 12 := by simp
    exact (scans_u8 idx).bind ((scans_u8 0x02).bind ((scans_u8 w.inputIdx).bind
      (scans_skip hoffsets)))
  | multisigSchnorrSigPtr i off =>
    exact (scans_u8 idx).bind ((scans_u8 0x03).bind ((scans_u8 i).bind
      (scans_skip (length_le32 off))))
  | multisigPrevTxV1Witness w =>
    have hoffsets : (le32 w.offset0 ++ (le32 w.offset1 ++ le32 w.offset2)).length = 12 := by simp
    exact (scans_u8 idx).bind ((scans_u8 0x04).bind ((scans_u8 w.inputIdx).bind
      (scans_skip hoffsets)))
  | genesisSchnorrSigPtr off =>
    exact (scans_u8 idx).bind ((scans_u8 0x05).bind (scans_skip (length_le32 off)))

theorem scans_skipConfig {lock : LockEnum} (h : lock.WellFormed B) (i : UInt8)
    (min ttl : UInt64) (cov : Bytes32) :
    Scans skipConfig (encodeConfigFields i min ttl cov lock) () :=
  (scans_u8 i).bind ((scans_u64 min).bind ((scans_u64 ttl).bind
    ((scans_skip cov.property).bind (scans_skipLock h))))

/-- One action: the browser names what the guest decoded and stops where it
ends. -/
theorem scans_readAction {n : Nat} {a : ActionBody} (h : a.InBounds B n) :
    Scans (readAction (access.map fun entry => hexString entry.1.val)) a.encode
      (laneAction access a) := by
  cases a with
  | turn g u cell =>
    exact (scans_u8 0x09).bind ((scans_resource g).bind ((scans_resource u).bind
      (scans_u8 cell).map))
  | createGame c g stake rounds mark =>
    exact (scans_u8 0x07).bind ((scans_resource c).bind ((scans_resource g).bind
      ((scans_u64 stake).bind ((scans_u8 rounds).bind (scans_u8 mark.toByte).map))))
  | joinGame g j =>
    exact (scans_u8 0x08).bind ((scans_resource g).bind (scans_resource j).map)
  | deposit u c output lock =>
    exact (scans_u8 0x05).bind ((scans_resource u).bind ((scans_u8 c).bind
      ((scans_u32 output).bind (scans_skipLock h.2.2).map)))
  | withdraw u c amount dest =>
    exact (scans_u8 0x06).bind ((scans_resource u).bind ((scans_u8 c).bind
      ((scans_u64 amount).bind (scans_skipSpk dest).map)))
  | transfer s d amount lock =>
    cases lock with
    | none =>
      exact (scans_u8 0x03).bind ((scans_resource s).bind ((scans_resource d).bind
        ((scans_u64 amount).bind ((scans_u8 0).bind (scans_pure _)))))
    | some lock =>
      exact (scans_u8 0x03).bind ((scans_resource s).bind ((scans_resource d).bind
        ((scans_u64 amount).bind ((scans_u8 1).bind
          (scans_skipLock (h.2.2 lock rfl)).map))))
  | update i min ttl cov lock =>
    exact (scans_u8 0x01).bind (scans_skipConfig h.2 i min ttl cov).map
  | init i min ttl cov lock =>
    exact (scans_u8 0x02).bind (scans_skipConfig h.2 i min ttl cov).map
  | updateUserLock i lock =>
    exact (scans_u8 0x04).bind ((scans_u8 i).bind (scans_skipLock h.2).map)
  | timeout g c =>
    exact (scans_u8 0x0a).bind ((scans_u8 g).bind (scans_u8 c).map)

/-- The browser reads the whole of what the guest decodes, up to the tail. -/
theorem scans_readLane {signers : List (UInt8 × SignerEnum)} {actions : List ActionBody}
    (haccess : access.length < 2 ^ 32) (hsigners : signers.length < 2 ^ 32)
    (hactions : actions.length < 2 ^ 32) {n : Nat} (hin : ∀ a ∈ actions, a.InBounds B n) :
    Scans readLane (encVec AccessEntry.encode access ++
      (encVec encodeSigner signers ++ encVec ActionBody.encode actions))
      (actions.map (laneAction access)) := by
  have hfirst : Scans (counted readAccess) (encVec AccessEntry.encode access) _ :=
    scans_counted haccess fun entry _ => scans_readAccess entry
  exact hfirst.bind ((scans_counted hsigners fun entry _ => scans_skipSigner entry).bind
    (scans_counted hactions fun a ha => scans_readAction (hin a ha)))

end Scans

/-- An entry's id as the browser shows it. -/
def AccessEntry.shown (entry : AccessEntry) : String := hexString entry.1.val

/-- The lane action has the kind and the values of the guest's, and the ids
of the entries its indexes name. -/
inductive Names (access : List AccessEntry) : ActionBody → LaneAction → Prop
  | turn {g u cell : UInt8} {game user : AccessEntry} :
    access[g.toNat]? = some game → access[u.toNat]? = some user →
    Names access (.turn g u cell) (.turn (some game.shown) (some user.shown) (some cell))
  | create {c g rounds : UInt8} {stake : UInt64} {mark : Cell} {creator game : AccessEntry} :
    access[c.toNat]? = some creator → access[g.toNat]? = some game →
    Names access (.createGame c g stake rounds mark)
      (.create (some creator.shown) (some game.shown) stake (some rounds) (some mark.toByte))
  | join {g j : UInt8} {game joiner : AccessEntry} :
    access[g.toNat]? = some game → access[j.toNat]? = some joiner →
    Names access (.joinGame g j) (.join (some game.shown) (some joiner.shown))
  | deposit {u c : UInt8} {output : UInt32} {lock : LockEnum} {user : AccessEntry} :
    access[u.toNat]? = some user →
    Names access (.deposit u c output lock) (.deposit (some user.shown))
  | withdraw {u c : UInt8} {amount : UInt64} {dest : StandardSpk} {user : AccessEntry} :
    access[u.toNat]? = some user →
    Names access (.withdraw u c amount dest) (.withdraw (some user.shown) amount)
  | transfer {s d : UInt8} {amount : UInt64} {lock : Option LockEnum}
    {source dest : AccessEntry} :
    access[s.toNat]? = some source → access[d.toNat]? = some dest →
    Names access (.transfer s d amount lock)
      (.transfer (some source.shown) (some dest.shown) amount lock.isSome)
  | other {a : ActionBody} :
    a.tag = .update ∨ a.tag = .init ∨ a.tag = .updateUserLock ∨ a.tag = .timeout →
    Names access a (.other a.tag.toByte)

theorem idAt_eq_some {access : List AccessEntry} {i : UInt8} (h : i.toNat < access.length) :
    ∃ entry, access[i.toNat]? = some entry ∧ idAt access i = some entry.shown := by
  refine ⟨access[i.toNat], List.getElem?_eq_getElem h, ?_⟩
  unfold idAt
  rw [List.getElem?_map, List.getElem?_eq_getElem h]
  rfl

theorem names_laneAction {B : Battery} {access : List AccessEntry} {a : ActionBody}
    (h : a.InBounds B access.length) : Names access a (laneAction access a) := by
  cases a with
  | turn g u cell =>
    obtain ⟨game, hgame, hg⟩ := idAt_eq_some h.1
    obtain ⟨user, huser, hu⟩ := idAt_eq_some h.2.1
    rw [laneAction, hg, hu]
    exact .turn hgame huser
  | createGame c g stake rounds mark =>
    obtain ⟨creator, hcreator, hc⟩ := idAt_eq_some h.1
    obtain ⟨game, hgame, hg⟩ := idAt_eq_some h.2.1
    rw [laneAction, hc, hg]
    exact .create hcreator hgame
  | joinGame g j =>
    obtain ⟨game, hgame, hg⟩ := idAt_eq_some h.1
    obtain ⟨joiner, hjoiner, hj⟩ := idAt_eq_some h.2
    rw [laneAction, hg, hj]
    exact .join hgame hjoiner
  | deposit u c output lock =>
    obtain ⟨user, huser, hu⟩ := idAt_eq_some h.1
    rw [laneAction, hu]
    exact .deposit huser
  | withdraw u c amount dest =>
    obtain ⟨user, huser, hu⟩ := idAt_eq_some h.1
    rw [laneAction, hu]
    exact .withdraw huser
  | transfer s d amount lock =>
    obtain ⟨source, hsource, hs⟩ := idAt_eq_some h.1
    obtain ⟨dest, hdest, hd⟩ := idAt_eq_some h.2.1
    rw [laneAction, hs, hd]
    exact .transfer hsource hdest
  | update i min ttl cov lock => exact .other (.inl rfl)
  | init i min ttl cov lock => exact .other (.inr (.inl rfl))
  | updateUserLock i lock => exact .other (.inr (.inr (.inl rfl)))
  | timeout g c => exact .other (.inr (.inr (.inr rfl)))

theorem decodeLanePayload_of_ok {B : Battery} {payload : List UInt8} {d : DecodedPayload}
    (h : decodePayload B payload = .ok d) :
    decodeLanePayload payload = .ok (d.ix.actions.map (laneAction d.access)) := by
  obtain ⟨⟨haccess, hsigners, hactions⟩, hin, tail, rfl⟩ := decodePayload_ok h
  have hrun := (scans_readLane haccess hsigners hactions hin).run tail
  unfold decodeLanePayload encodeSections
  rw [List.append_assoc, List.append_assoc] at hrun
  rw [hrun]

/-- Every payload the guest decodes, the browser decodes to the same
actions. -/
theorem decodeLanePayload_agrees {B : Battery} {payload : List UInt8} {d : DecodedPayload}
    (h : decodePayload B payload = .ok d) :
    ∃ lanes, decodeLanePayload payload = .ok lanes ∧
      List.Forall₂ (Names d.access) d.ix.actions lanes := by
  obtain ⟨-, hin, -⟩ := decodePayload_ok h
  refine ⟨_, decodeLanePayload_of_ok h, ?_⟩
  rw [List.forall₂_map_right_iff]
  exact List.forall₂_same.mpr fun a ha => names_laneAction (hin a ha)

/-- A game and two users. -/
def Sample.laneAccess : List AccessEntry :=
  [(⟨List.replicate 32 0x51, rfl⟩, 1), (⟨List.replicate 32 0x52, rfl⟩, 1),
    (⟨List.replicate 32 0x53, rfl⟩, 0)]

/-- A turn, and a transfer that brings a lock. -/
def Sample.laneActions : List ActionBody :=
  [.turn 0 1 4, .transfer 1 2 500 (some .unlocked)]

def Sample.laneSigners : List (UInt8 × SignerEnum) := [(1, .prevTxV1Witness ⟨0, 1, 2, 3⟩)]

def Sample.lanePayload : List UInt8 :=
  encVec AccessEntry.encode Sample.laneAccess ++
    encodeSections Sample.laneSigners Sample.laneActions [0xff]

theorem decodeLanePayload_agrees_sample :
    ∃ ix lanes, decodePayload .plain Sample.lanePayload = .ok ⟨Sample.laneAccess, ix⟩ ∧
      decodeLanePayload Sample.lanePayload = .ok lanes ∧
      List.Forall₂ (Names Sample.laneAccess) ix.actions lanes := by
  have haccess := (readsOnly_decodeAccessEntry.vec (.decode "access") Sample.lanePayload
    Sample.laneAccess _).mpr ⟨⟨by decide, fun _ _ => trivial⟩, rfl⟩
  have hsections : decodeSections 3 (decodeAction .plain)
      (encodeSections Sample.laneSigners Sample.laneActions [0xff])
      = .ok (Sample.laneSigners, Sample.laneActions) [0xff] := by
    refine decodeSections_iff.mpr ⟨⟨by decide, by decide, ?_, trivial⟩, ⟨by decide, ?_⟩, rfl⟩
    · intro p hp
      cases hp
    · intro a ha
      simp only [Sample.laneActions, List.mem_cons, List.not_mem_nil, or_false] at ha
      rcases ha with rfl | rfl
      · exact ⟨by decide, by decide, by decide⟩
      · exact ⟨by decide, by decide, fun l hl => Option.some.inj hl ▸ rfl⟩
  obtain ⟨stop, hix⟩ := decodeIx_of_sections hsections
  have hpayload : decodePayload .plain Sample.lanePayload
      = .ok ⟨Sample.laneAccess, ⟨Sample.laneSigners, Sample.laneActions, stop⟩⟩ := by
    unfold decodePayload
    rw [haccess]
    dsimp only
    have hlen : Sample.laneAccess.length = 3 := rfl
    rw [hlen, hix]
  obtain ⟨lanes, hlanes, hnames⟩ := decodeLanePayload_agrees hpayload
  exact ⟨_, lanes, hpayload, hlanes, hnames⟩

end TicTacToe.Web
