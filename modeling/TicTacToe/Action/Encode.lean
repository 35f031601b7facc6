/-
TicTacToe.Action.Encode — the action encoders of the host side
(`program/action/encode.rs`), and that they and the decoder are one
format.

A body has no length prefix: where an action ends is decided by what was
read of it. `readsOnly_decodeAction` says that nothing is lost by that.
The decoder accepts exactly the buffers that start with the encoding of an
in-bounds action, and stops where that encoding ends.

No `sorry`, no `axiom`, no `native_decide`.
-/
import TicTacToe.Action.Body

namespace TicTacToe

open Lib

/-! ## The encoders -/

/-- The discriminants of `ActionTag`. -/
def ActionTag.toByte : ActionTag → UInt8
  | update => 0x01
  | init => 0x02
  | transfer => 0x03
  | updateUserLock => 0x04
  | deposit => 0x05
  | withdraw => 0x06
  | createGame => 0x07
  | joinGame => 0x08
  | turn => 0x09
  | timeout => 0x0a

/-- What `Update` and `Init` share after the tag. -/
def encodeConfigFields (configIdx : UInt8) (newMinWithdrawalAmount newTurnTtl : UInt64)
    (newCovenantId : Bytes32) (newLock : LockEnum) : List UInt8 :=
  configIdx :: (le64 newMinWithdrawalAmount ++ (le64 newTurnTtl ++
    (newCovenantId.val ++ newLock.encode)))

def encodeUpdateAction (configIdx : UInt8) (newMinWithdrawalAmount newTurnTtl : UInt64)
    (newCovenantId : Bytes32) (newLock : LockEnum) : List UInt8 :=
  ActionTag.update.toByte ::
    encodeConfigFields configIdx newMinWithdrawalAmount newTurnTtl newCovenantId newLock

def encodeInitAction (configIdx : UInt8) (newMinWithdrawalAmount newTurnTtl : UInt64)
    (newCovenantId : Bytes32) (newLock : LockEnum) : List UInt8 :=
  ActionTag.init.toByte ::
    encodeConfigFields configIdx newMinWithdrawalAmount newTurnTtl newCovenantId newLock

def encodeTransferAction (sourceIdx destIdx : UInt8) (amount : UInt64) : List UInt8 :=
  ActionTag.transfer.toByte :: sourceIdx :: destIdx :: (le64 amount ++ [0])

def encodeTransferCreateAction (sourceIdx destIdx : UInt8) (amount : UInt64)
    (destInit : LockEnum) : List UInt8 :=
  ActionTag.transfer.toByte :: sourceIdx :: destIdx :: (le64 amount ++ 1 :: destInit.encode)

def encodeUpdateUserLockAction (userIdx : UInt8) (newLock : LockEnum) : List UInt8 :=
  ActionTag.updateUserLock.toByte :: userIdx :: newLock.encode

def encodeDepositAction (userIdx configIdx : UInt8) (outputIdx : UInt32)
    (initialLock : LockEnum) : List UInt8 :=
  ActionTag.deposit.toByte :: userIdx :: configIdx :: (le32 outputIdx ++ initialLock.encode)

def encodeWithdrawAction (userIdx configIdx : UInt8) (amount : UInt64)
    (dest : StandardSpk) : List UInt8 :=
  ActionTag.withdraw.toByte :: userIdx :: configIdx :: (le64 amount ++ dest.encode)

def encodeCreateGameAction (creatorIdx gameIdx : UInt8) (stake : UInt64) (rounds : UInt8)
    (mark : Cell) : List UInt8 :=
  ActionTag.createGame.toByte :: creatorIdx :: gameIdx :: (le64 stake ++ [rounds, mark.toByte])

def encodeJoinGameAction (gameIdx joinerIdx : UInt8) : List UInt8 :=
  [ActionTag.joinGame.toByte, gameIdx, joinerIdx]

def encodeTurnAction (gameIdx userIdx cell : UInt8) : List UInt8 :=
  [ActionTag.turn.toByte, gameIdx, userIdx, cell]

def encodeTimeoutAction (gameIdx configIdx : UInt8) : List UInt8 :=
  [ActionTag.timeout.toByte, gameIdx, configIdx]

/-- The encoder a host calls for an action. -/
def ActionBody.encode : ActionBody → List UInt8
  | update i min ttl cov lock => encodeUpdateAction i min ttl cov lock
  | init i min ttl cov lock => encodeInitAction i min ttl cov lock
  | transfer s d amount none => encodeTransferAction s d amount
  | transfer s d amount (some lock) => encodeTransferCreateAction s d amount lock
  | updateUserLock i lock => encodeUpdateUserLockAction i lock
  | deposit u c output lock => encodeDepositAction u c output lock
  | withdraw u c amount dest => encodeWithdrawAction u c amount dest
  | createGame c g stake rounds mark => encodeCreateGameAction c g stake rounds mark
  | joinGame g j => encodeJoinGameAction g j
  | turn g u cell => encodeTurnAction g u cell
  | timeout g c => encodeTimeoutAction g c

def ActionBody.tag : ActionBody → ActionTag
  | update .. => .update
  | init .. => .init
  | transfer .. => .transfer
  | updateUserLock .. => .updateUserLock
  | deposit .. => .deposit
  | withdraw .. => .withdraw
  | createGame .. => .createGame
  | joinGame .. => .joinGame
  | turn .. => .turn
  | timeout .. => .timeout

/-- An instruction without signers: the two counted sections, then the tail. -/
def encodeIx (actions : List ActionBody) (tail : List UInt8) : List UInt8 :=
  le32 0 ++ (encVec ActionBody.encode actions ++ tail)

/-! ## The fields as formats -/

section Fields

variable {n : Nat} {field : String} {buf rest : List UInt8}

theorem ActionTag.tryFrom_eq_some {v : UInt8} {t : ActionTag} :
    ActionTag.tryFrom v = some t ↔ v = t.toByte := by
  constructor
  · intro h
    unfold tryFrom at h
    iterate 10
      rcases ite_eq_iff.mp h with ⟨hv, ht⟩ | ⟨-, h⟩
      · cases ht
        exact hv
    cases h
  · rintro rfl
    cases t <;> rfl

theorem byte_ok {b : UInt8} : Reader.byte field buf = .ok b rest ↔ buf = b :: rest :=
  reads_byte _ _ _ _

theorem leU32_ok {v : UInt32} : Reader.leU32 field buf = .ok v rest ↔ buf = le32 v ++ rest :=
  reads_u32 _ _ _ _

theorem leU64_ok {v : UInt64} : Reader.leU64 field buf = .ok v rest ↔ buf = le64 v ++ rest :=
  reads_u64 _ _ _ _

theorem array_ok {len : Nat} {v : Lib.Bytes len} :
    Reader.array field len buf = .ok v rest ↔ buf = v.val ++ rest :=
  reads_array _ _ _ _ _

theorem ite_throw_ok {α : Type} {c : Prop} [Decidable c] {e : Fault} {x : Reader α} {a : α} :
    (if c then throw e else x) buf = .ok a rest ↔ ¬ c ∧ x buf = .ok a rest := by
  by_cases h : c
  · rw [if_pos h, ok_throw]
    exact ⟨False.elim, fun hx => hx.1 h⟩
  · rw [if_neg h]
    exact ⟨fun hx => ⟨h, hx⟩, fun hx => hx.2⟩

theorem readResourceIdx_ok {i : UInt8} :
    readResourceIdx field n buf = .ok i rest ↔ i.toNat < n ∧ buf = i :: rest := by
  simp only [readResourceIdx, ok_bind, byte_ok, ite_throw_ok, ok_pure]
  constructor
  · rintro ⟨_, _, rfl, hlt, rfl, rfl⟩
    exact ⟨not_le.mp hlt, rfl⟩
  · rintro ⟨hlt, rfl⟩
    exact ⟨i, rest, rfl, not_le.mpr hlt, rfl, rfl⟩

theorem decodeLock_ok {B : Battery} {l : LockEnum} :
    decodeLock B buf = .ok l rest ↔ l.WellFormed B ∧ buf = l.encode ++ rest :=
  readsOnly_decodeLock B _ _ _

/-- The optional lock of a transfer on the wire. -/
def encodeDestInit : Option LockEnum → List UInt8
  | none => [0]
  | some lock => 1 :: lock.encode

theorem decodeDestInit_ok {B : Battery} {o : Option LockEnum} :
    decodeDestInit B buf = .ok o rest ↔
      (∀ l, o = some l → l.WellFormed B) ∧ buf = encodeDestInit o ++ rest := by
  simp only [decodeDestInit, ok_bind, byte_ok]
  constructor
  · rintro ⟨flag, _, rfl, h⟩
    split_ifs at h with h₀ h₁
    · obtain ⟨rfl, rfl⟩ := ok_pure.mp h
      exact ⟨fun l hl => (by cases hl), by rw [h₀]; rfl⟩
    · obtain ⟨lock, _, hlock, hpure⟩ := ok_bind.mp h
      obtain ⟨rfl, rfl⟩ := ok_pure.mp hpure
      obtain ⟨hwf, rfl⟩ := decodeLock_ok.mp hlock
      refine ⟨fun l hl => ?_, by rw [h₁]; rfl⟩
      cases hl
      exact hwf
    · exact (ok_throw.mp h).elim
  · rintro ⟨hwf, rfl⟩
    cases o with
    | none => exact ⟨0, rest, rfl, ok_pure.mpr ⟨rfl, rfl⟩⟩
    | some lock =>
      exact ⟨1, lock.encode ++ rest, rfl, ok_bind.mpr ⟨lock, rest,
        decodeLock_ok.mpr ⟨hwf lock rfl, rfl⟩, ok_pure.mpr ⟨rfl, rfl⟩⟩⟩

theorem decodeMark_ok {mark : Cell} :
    decodeMark buf = .ok mark rest ↔ mark ≠ .empty ∧ buf = mark.toByte :: rest := by
  simp only [decodeMark, ok_bind, byte_ok]
  constructor
  · rintro ⟨b, _, rfl, h⟩
    split_ifs at h with h₁ h₂
    · obtain ⟨rfl, rfl⟩ := ok_pure.mp h
      exact ⟨by decide, by rw [h₁]; rfl⟩
    · obtain ⟨rfl, rfl⟩ := ok_pure.mp h
      exact ⟨by decide, by rw [h₂]; rfl⟩
    · exact (ok_throw.mp h).elim
  · rintro ⟨hne, rfl⟩
    cases mark with
    | empty => exact absurd rfl hne
    | x | o => exact ⟨_, rest, rfl, ok_pure.mpr ⟨rfl, rfl⟩⟩

/-- Mapping the errors of a reader to one message changes nothing of what it
accepts. -/
theorem decodeDest_ok {dest : StandardSpk} :
    decodeDest buf = .ok dest rest ↔ buf = dest.encode ++ rest := by
  rw [← StandardSpk.reads_decode buf dest rest]
  unfold decodeDest
  cases StandardSpk.decode buf with
  | ok d r => exact Iff.rfl
  | error e r => exact ⟨fun h => (by cases h), fun h => (by cases h)⟩

end Fields

/-! ## Actions -/

section Actions

variable {B : Battery} {n : Nat}

/-- The body of `a` on the wire, without its tag. -/
def ActionBody.encodeBody (a : ActionBody) : List UInt8 := a.encode.tail

theorem ActionBody.encode_eq (a : ActionBody) : a.encode = a.tag.toByte :: a.encodeBody := by
  cases a with
  | transfer s d amount lock => cases lock <;> rfl
  | _ => rfl

theorem ActionBody.encodeBody_transfer (s d : UInt8) (amount : UInt64) (lock : Option LockEnum) :
    (ActionBody.transfer s d amount lock).encodeBody
      = s :: d :: (le64 amount ++ encodeDestInit lock) := by
  cases lock <;> rfl

/-- One arm of `decodeBody`: the fields it reads are the fields written. -/
theorem decodeBody_ok {tag : ActionTag} {a : ActionBody} {buf rest : List UInt8} :
    decodeBody B n tag buf = .ok a rest ↔
      a.tag = tag ∧ a.InBounds B n ∧ buf = a.encodeBody ++ rest := by
  cases tag with
  | update | init =>
    simp only [decodeBody, ok_bind, ok_pure, readResourceIdx_ok, leU64_ok, array_ok, decodeLock_ok]
    constructor
    · rintro ⟨i, _, ⟨hi, rfl⟩, min, _, rfl, ttl, _, rfl, cov, _, rfl, lock, _, ⟨hwf, rfl⟩, rfl, rfl⟩
      exact ⟨rfl, ⟨hi, hwf⟩, by
        simp [ActionBody.encodeBody, ActionBody.encode, encodeUpdateAction, encodeInitAction,
          encodeConfigFields]⟩
    · rintro ⟨htag, hin, rfl⟩
      cases a <;> cases htag
      obtain ⟨hi, hwf⟩ := hin
      exact ⟨_, _, ⟨hi, rfl⟩, _, _, List.append_assoc _ _ _, _, _, List.append_assoc _ _ _, _, _,
        List.append_assoc _ _ _, _, _, ⟨hwf, rfl⟩, rfl, rfl⟩
  | transfer =>
    simp only [decodeBody, ok_bind, ok_pure, readResourceIdx_ok, leU64_ok, decodeDestInit_ok]
    constructor
    · rintro ⟨s, _, ⟨hs, rfl⟩, d, _, ⟨hd, rfl⟩, amount, _, rfl, lock, _, ⟨hwf, rfl⟩, rfl, rfl⟩
      exact ⟨rfl, ⟨hs, hd, hwf⟩, by simp [ActionBody.encodeBody_transfer]⟩
    · rintro ⟨htag, hin, rfl⟩
      cases a <;> cases htag
      obtain ⟨hs, hd, hwf⟩ := hin
      rw [ActionBody.encodeBody_transfer]
      exact ⟨_, _, ⟨hs, rfl⟩, _, _, ⟨hd, rfl⟩, _, _, List.append_assoc _ _ _, _, _, ⟨hwf, rfl⟩,
        rfl, rfl⟩
  | updateUserLock =>
    simp only [decodeBody, ok_bind, ok_pure, readResourceIdx_ok, decodeLock_ok]
    constructor
    · rintro ⟨i, _, ⟨hi, rfl⟩, lock, _, ⟨hwf, rfl⟩, rfl, rfl⟩
      exact ⟨rfl, ⟨hi, hwf⟩, rfl⟩
    · rintro ⟨htag, hin, rfl⟩
      cases a <;> cases htag
      obtain ⟨hi, hwf⟩ := hin
      exact ⟨_, _, ⟨hi, rfl⟩, _, _, ⟨hwf, rfl⟩, rfl, rfl⟩
  | deposit =>
    simp only [decodeBody, ok_bind, ok_pure, readResourceIdx_ok, leU32_ok, decodeLock_ok]
    constructor
    · rintro ⟨u, _, ⟨hu, rfl⟩, c, _, ⟨hc, rfl⟩, output, _, rfl, lock, _, ⟨hwf, rfl⟩, rfl, rfl⟩
      exact ⟨rfl, ⟨hu, hc, hwf⟩, by
        simp [ActionBody.encodeBody, ActionBody.encode, encodeDepositAction]⟩
    · rintro ⟨htag, hin, rfl⟩
      cases a <;> cases htag
      obtain ⟨hu, hc, hwf⟩ := hin
      exact ⟨_, _, ⟨hu, rfl⟩, _, _, ⟨hc, rfl⟩, _, _, List.append_assoc _ _ _, _, _, ⟨hwf, rfl⟩,
        rfl, rfl⟩
  | withdraw =>
    simp only [decodeBody, ok_bind, ok_pure, readResourceIdx_ok, leU64_ok, decodeDest_ok]
    constructor
    · rintro ⟨u, _, ⟨hu, rfl⟩, c, _, ⟨hc, rfl⟩, amount, _, rfl, dest, _, rfl, rfl, rfl⟩
      exact ⟨rfl, ⟨hu, hc⟩, by
        simp [ActionBody.encodeBody, ActionBody.encode, encodeWithdrawAction]⟩
    · rintro ⟨htag, hin, rfl⟩
      cases a <;> cases htag
      obtain ⟨hu, hc⟩ := hin
      exact ⟨_, _, ⟨hu, rfl⟩, _, _, ⟨hc, rfl⟩, _, _, List.append_assoc _ _ _, _, _, rfl, rfl, rfl⟩
  | createGame =>
    simp only [decodeBody, ok_bind, ok_pure, readResourceIdx_ok, leU64_ok, byte_ok, decodeMark_ok]
    constructor
    · rintro ⟨c, _, ⟨hc, rfl⟩, g, _, ⟨hg, rfl⟩, stake, _, rfl, rounds, _, rfl, mark, _, ⟨hm, rfl⟩,
        rfl, rfl⟩
      exact ⟨rfl, ⟨hc, hg, hm⟩, by
        simp [ActionBody.encodeBody, ActionBody.encode, encodeCreateGameAction]⟩
    · rintro ⟨htag, hin, rfl⟩
      cases a <;> cases htag
      obtain ⟨hc, hg, hm⟩ := hin
      exact ⟨_, _, ⟨hc, rfl⟩, _, _, ⟨hg, rfl⟩, _, _, List.append_assoc _ _ _, _, _, rfl, _, _,
        ⟨hm, rfl⟩, rfl, rfl⟩
  | joinGame | timeout =>
    simp only [decodeBody, ok_bind, ok_pure, readResourceIdx_ok]
    constructor
    · rintro ⟨g, _, ⟨hg, rfl⟩, j, _, ⟨hj, rfl⟩, rfl, rfl⟩
      exact ⟨rfl, ⟨hg, hj⟩, rfl⟩
    · rintro ⟨htag, hin, rfl⟩
      cases a <;> cases htag
      obtain ⟨hg, hj⟩ := hin
      exact ⟨_, _, ⟨hg, rfl⟩, _, _, ⟨hj, rfl⟩, rfl, rfl⟩
  | turn =>
    simp only [decodeBody, ok_bind, ok_pure, readResourceIdx_ok, byte_ok, ite_throw_ok]
    constructor
    · rintro ⟨g, _, ⟨hg, rfl⟩, u, _, ⟨hu, rfl⟩, cell, _, rfl, hcell, rfl, rfl⟩
      have h8 : cell.toNat ≤ 8 := UInt8.not_lt.mp hcell
      exact ⟨rfl, ⟨hg, hu, by omega⟩, rfl⟩
    · rintro ⟨htag, hin, rfl⟩
      cases a <;> cases htag
      obtain ⟨hg, hu, hcell⟩ := hin
      have h8 : ¬ (8 : UInt8) < _ := UInt8.not_lt.mpr (Nat.le_of_lt_succ hcell)
      exact ⟨_, _, ⟨hg, rfl⟩, _, _, ⟨hu, rfl⟩, _, _, rfl, h8, rfl, rfl⟩

/-- The decoder and the encoders are one format on the in-bounds actions. -/
theorem readsOnly_decodeAction (B : Battery) (n : Nat) :
    ReadsOnly (ActionBody.InBounds B n) (decodeAction B n) ActionBody.encode := by
  intro buf a rest
  simp only [decodeAction, ok_bind, byte_ok, ActionBody.encode_eq]
  constructor
  · rintro ⟨v, _, rfl, h⟩
    cases htag : ActionTag.tryFrom v with
    | none =>
      rw [htag] at h
      exact (ok_throw.mp h).elim
    | some tag =>
      rw [htag] at h
      obtain ⟨rfl, hin, rfl⟩ := decodeBody_ok.mp h
      rw [ActionTag.tryFrom_eq_some.mp htag]
      exact ⟨hin, rfl⟩
  · rintro ⟨hin, rfl⟩
    refine ⟨a.tag.toByte, a.encodeBody ++ rest, rfl, ?_⟩
    rw [ActionTag.tryFrom_eq_some.mpr rfl]
    exact decodeBody_ok.mpr ⟨rfl, hin, rfl⟩

/-! ## Instructions -/

/-- What both sections of an instruction without signers are read from. -/
theorem decodeSections_ok {actions : List ActionBody} {buf tail : List UInt8} :
    decodeSections n (decodeAction B) buf = .ok ([], actions) tail ↔
      actions.length < 2 ^ 32 ∧ (∀ a ∈ actions, a.InBounds B n) ∧
        buf = encodeIx actions tail := by
  have hactions := (readsOnly_decodeAction B n).vec (.decode "ix.actions")
  simp only [decodeSections, Reader.many, ok_bind, ok_pure, Prod.mk.injEq]
  constructor
  · rintro ⟨_, _, hs, as, _, has, ⟨rfl, rfl⟩, rfl⟩
    obtain ⟨⟨hlen, hin⟩, rfl⟩ := (hactions _ _ _).mp has
    exact ⟨hlen, hin, many_nil_ok.mp hs⟩
  · rintro ⟨hlen, hin, rfl⟩
    exact ⟨[], _, many_nil_ok.mpr rfl, actions, tail,
      (hactions _ _ _).mpr ⟨⟨hlen, hin⟩, rfl⟩, ⟨rfl, rfl⟩, rfl⟩

/-- Where the tail of an encoded instruction starts. -/
def endOfActions (actions : List ActionBody) : Nat :=
  8 + (actions.flatMap ActionBody.encode).length

theorem length_encodeIx (actions : List ActionBody) (tail : List UInt8) :
    (encodeIx actions tail).length = endOfActions actions + tail.length := by
  simp only [encodeIx, encVec, endOfActions, List.length_append, length_le32]
  omega

theorem decodeIx_ok {ix : DecodedIx ActionBody} {orig : List UInt8} (hs : ix.signers = []) :
    decodeIx orig n (decodeAction B) = .ok ix ↔
      ∃ tail, ix.actions.length < 2 ^ 32 ∧ (∀ a ∈ ix.actions, a.InBounds B n) ∧
        orig = encodeIx ix.actions tail ∧ ix.endOfActionsInIx = endOfActions ix.actions := by
  obtain ⟨signers, actions, stop⟩ := ix
  obtain rfl : signers = [] := hs
  unfold decodeIx
  dsimp only
  constructor
  · intro h
    cases hsec : decodeSections n (decodeAction B) orig with
    | error e rest =>
      rw [hsec] at h
      cases h
    | ok p tail =>
      obtain ⟨signers, as⟩ := p
      simp only [hsec] at h
      cases hsub : subLen orig.length tail.length with
      | error e =>
        rw [hsub] at h
        cases h
      | ok stop' =>
        rw [hsub] at h
        cases h
        obtain ⟨hlen, hin, rfl⟩ := decodeSections_ok.mp hsec
        rw [length_encodeIx, subLen, if_pos (Nat.le_add_left _ _), Nat.add_sub_cancel] at hsub
        cases hsub
        exact ⟨tail, hlen, hin, rfl, rfl⟩
  · rintro ⟨tail, hlen, hin, rfl, rfl⟩
    simp only [decodeSections_ok.mpr ⟨hlen, hin, rfl⟩, length_encodeIx, subLen,
      if_pos (Nat.le_add_left _ _), Nat.add_sub_cancel]

/-- The bytes after both counts, up to the tail, are the encoded actions. -/
theorem encodeIx_actions (actions : List ActionBody) (tail : List UInt8) :
    ((encodeIx actions tail).take (endOfActions actions)).drop 8
      = actions.flatMap ActionBody.encode := by
  have hcounts : (le32 0 ++ le32 (UInt32.ofNat actions.length)).length = 8 := by
    rw [List.length_append, length_le32, length_le32]
  have hsplit : encodeIx actions tail = (le32 0 ++ le32 (UInt32.ofNat actions.length)) ++
      (actions.flatMap ActionBody.encode ++ tail) := by
    simp only [encodeIx, encVec, List.append_assoc]
  rw [List.drop_take, hsplit, List.drop_left' hcounts, endOfActions, Nat.add_sub_cancel_left,
    List.take_left]

/-- **The codec is exact.** What the encoders write of any in-bounds actions is
decoded to these actions, with the tail left over; what the decoder accepts
without signers is what the encoders write of the actions it returns, so that
two accepted instructions with the same actions have the same actions section. -/
theorem instruction_codec_exact (B : Battery) (n : Nat) :
    (∀ (actions : List ActionBody) (tail : List UInt8), actions.length < 2 ^ 32 →
        (∀ a ∈ actions, a.InBounds B n) →
        decodeIx (encodeIx actions tail) n (decodeAction B) = .ok
          { signers := [], actions, endOfActionsInIx := endOfActions actions } ∧
        (encodeIx actions tail).drop (endOfActions actions) = tail) ∧
      (∀ (orig : List UInt8) (ix : DecodedIx ActionBody),
        decodeIx orig n (decodeAction B) = .ok ix → ix.signers = [] →
        (∀ a ∈ ix.actions, a.InBounds B n) ∧
          (orig.take ix.endOfActionsInIx).drop 8 = ix.actions.flatMap ActionBody.encode ∧
          orig = encodeIx ix.actions (orig.drop ix.endOfActionsInIx)) ∧
      ∀ (orig orig' : List UInt8) (ix ix' : DecodedIx ActionBody),
        decodeIx orig n (decodeAction B) = .ok ix → decodeIx orig' n (decodeAction B) = .ok ix' →
        ix.signers = [] → ix'.signers = [] → ix.actions = ix'.actions →
        orig.take ix.endOfActionsInIx = orig'.take ix'.endOfActionsInIx := by
  have hsplit : ∀ (actions : List ActionBody) (tail : List UInt8),
      encodeIx actions tail = encodeIx actions [] ++ tail := fun actions tail => by
    simp only [encodeIx, List.append_assoc, List.nil_append]
  have hstop : ∀ actions, (encodeIx actions []).length = endOfActions actions := fun actions =>
    length_encodeIx actions []
  refine ⟨fun actions tail hlen hin => ⟨?_, ?_⟩, fun orig ix h hs => ?_,
    fun orig orig' ix ix' h h' hs hs' hactions => ?_⟩
  · exact (decodeIx_ok rfl).mpr ⟨tail, hlen, hin, rfl, rfl⟩
  · rw [hsplit, List.drop_left' (hstop actions)]
  · obtain ⟨tail, -, hin, rfl, hend⟩ := (decodeIx_ok hs).mp h
    refine ⟨hin, ?_, ?_⟩
    · rw [hend]
      exact encodeIx_actions ix.actions tail
    · rw [hend, hsplit ix.actions tail, List.drop_left' (hstop ix.actions), ← hsplit]
  · obtain ⟨tail, -, -, rfl, hend⟩ := (decodeIx_ok hs).mp h
    obtain ⟨tail', -, -, rfl, hend'⟩ := (decodeIx_ok hs').mp h'
    rw [hend, hend', hsplit ix.actions tail, hsplit ix'.actions tail', hactions,
      List.take_left' (hstop _), List.take_left' (hstop _)]

/-- A transfer that creates its destination, then a turn, before a tail of two bytes. -/
theorem instruction_codec_exact_pair :
    decodeIx (encodeIx [.transfer 0 1 5 (some .unlocked), .turn 1 0 8] [7, 7]) 2
        (decodeAction .plain) = .ok
      { signers := [], actions := [.transfer 0 1 5 (some .unlocked), .turn 1 0 8],
        endOfActionsInIx := 25 } := by
  refine ((instruction_codec_exact .plain 2).1 _ [7, 7] (by decide) ?_).1
  intro a ha
  rcases List.mem_cons.mp ha with rfl | ha
  · refine ⟨by decide, by decide, fun l hl => ?_⟩
    cases hl
    rfl
  · obtain rfl := List.mem_singleton.mp ha
    exact ⟨by decide, by decide, by decide⟩

end Actions

end TicTacToe
