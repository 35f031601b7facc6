/-
TicTacToe.Web.Widths — how the lane decoder finds its way through a
payload.

Only two things make it throw: a resource id cut short, and an action tag
that is missing or unknown. Everything else it reads is skipped or taken
as it comes, so what decides is where the actions start; `Skims` computes
that from the counts, kinds, tags and flags alone
(`decodeLanePayload_throws_iff`).

No `sorry`, no `axiom`, no `native_decide`.
-/
import TicTacToe.Web.Carriers

namespace TicTacToe.Web

open Lib Lib.Cursor

/-! ## Where the fields stand -/

section Widths

variable (b : List UInt8)

def shift (k : Nat) (pos : Option Nat) : Option Nat := pos.map (· + k)

/-- The end of a lock whose tag is at `pos`. -/
def lockEnd (pos : Option Nat) : Option Nat :=
  if byteAt b pos 0 = some 0x01 then shift 33 pos
  else if byteAt b pos 0 = some 0x02 then
    (shift 1 pos).bind fun n => (byteAt b (some n) 1).map fun k => n + (2 + 32 * k.toNat)
  else shift 1 pos

def spkEnd (pos : Option Nat) : Option Nat := shift (if byteAt b pos 0 = some 1 then 34 else 33) pos

def signerEnd (pos : Option Nat) : Option Nat :=
  if byteAt b pos 1 = some 0x03 then shift 7 pos
  else if byteAt b pos 1 = some 0x02 ∨ byteAt b pos 1 = some 0x04 then shift 15 pos
  else shift 6 pos

/-- The end of an action of the tag at `pos`. -/
def actionEnd (pos : Option Nat) : ActionTag → Option Nat
  | .turn => shift 4 pos
  | .createGame => shift 13 pos
  | .joinGame | .timeout => shift 3 pos
  | .deposit => lockEnd b (shift 7 pos)
  | .withdraw => spkEnd b (shift 11 pos)
  | .transfer =>
    if byteAt b pos 11 = some 1 then lockEnd b (shift 12 pos) else shift 12 pos
  | .update | .init => lockEnd b (shift 50 pos)
  | .updateUserLock => lockEnd b (shift 2 pos)

/-- A count, where what is missing is zero. -/
def countAt (pos : Option Nat) : Nat :=
  leNat ((List.range 4).map fun i => (byteAt b pos i).getD 0)

/-- From `pos` on, `n` actions start at the byte of a tag. -/
inductive ActionsAt : Nat → Option Nat → Prop
  | nil (pos : Option Nat) : ActionsAt 0 pos
  | cons {n : Nat} {pos : Option Nat} (tag : ActionTag) : byteAt b pos 0 = some tag.toByte →
    ActionsAt n (actionEnd b pos tag) → ActionsAt (n + 1) pos

def signersAt : Option Nat := some (4 + 33 * countAt b (some 0))

def actionsAt : Option Nat := (signerEnd b)^[countAt b (signersAt b)] (shift 4 (signersAt b))

/-- No announced id is cut, and where the widths put the announced actions
there are action tags. -/
structure Skims : Prop where
  ids : countAt b (some 0) = 0 ∨ 4 + 33 * countAt b (some 0) ≤ b.length + 1
  tags : ActionsAt b (countAt b (actionsAt b)) (shift 4 (actionsAt b))

end Widths

/-! ## The decoder goes by the widths -/

section Ends

variable {b : List UInt8} {pos mid stop : Option Nat} {α β : Type}

@[simp] theorem shift_shift (j k : Nat) (pos : Option Nat) :
    shift j (shift k pos) = shift (k + j) pos := by
  cases pos with
  | none => rfl
  | some n => simp [shift, Nat.add_assoc]

/-- The reader does not throw at `pos` and stops at `stop`. -/
def Ends (r : LaneReader α) (b : List UInt8) (pos stop : Option Nat) : Prop :=
  ∃ a, r b pos = .ok a stop

theorem ends_pure (a : α) : Ends (pure a) b pos pos := ⟨a, rfl⟩

theorem Ends.bind {r : LaneReader α} {f : α → LaneReader β} (hr : Ends r b pos mid)
    (hf : ∀ a, Ends (f a) b mid stop) : Ends (r >>= f) b pos stop := by
  obtain ⟨a, ha⟩ := hr
  obtain ⟨c, hc⟩ := hf a
  exact ⟨c, bind_ok.mpr ⟨a, mid, ha, hc⟩⟩

theorem Ends.map {r : LaneReader α} {g : α → β} (hr : Ends r b pos stop) :
    Ends (r >>= fun a => pure (g a)) b pos stop :=
  hr.bind fun _ => ends_pure _

theorem ends_u8 : Ends u8 b pos (shift 1 pos) := ⟨_, rfl⟩

/-- What was read decides how to go on. -/
theorem ends_u8_bind {f : Option UInt8 → LaneReader β}
    (hf : Ends (f (byteAt b pos 0)) b (shift 1 pos) stop) : Ends (u8 >>= f) b pos stop := hf

theorem ends_u32 : Ends u32 b pos (shift 4 pos) := ⟨_, rfl⟩

theorem ends_u64 : Ends u64 b pos (shift 8 pos) := by
  have h : Ends u64 b pos (shift 4 (shift 4 pos)) :=
    ends_u32.bind fun _ => ends_u32.bind fun _ => ends_pure _
  rwa [shift_shift] at h

theorem ends_skip (k : Nat) : Ends (skip (some k)) b pos (shift k pos) := by
  cases pos with
  | none => exact ⟨(), rfl⟩
  | some n => exact ⟨(), rfl⟩

theorem ends_resource (access : List String) : Ends (resource access) b pos (shift 1 pos) :=
  ends_u8.map

theorem Ends.cast {r : LaneReader α} {stop' : Option Nat} (h : Ends r b pos stop)
    (hstop : stop = stop') : Ends r b pos stop' := hstop ▸ h

theorem ends_skipLock : Ends skipLock b pos (lockEnd b pos) := by
  unfold skipLock lockEnd
  refine ends_u8_bind ?_
  split_ifs
  · exact (ends_skip 32).cast (shift_shift 32 1 pos)
  · refine ⟨(), ?_⟩
    cases pos with
    | none => rfl
    | some n =>
      refine bind_ok.mpr ⟨byteAt b (some (n + 1)) 1, some (n + 1), rfl, ?_⟩
      simp [skip, shift]
      rfl
  · exact ends_pure ()

theorem ends_skipSpk : Ends skipSpk b pos (spkEnd b pos) := by
  unfold skipSpk spkEnd
  refine ends_u8_bind ?_
  split_ifs
  · exact (ends_skip 33).cast (shift_shift 33 1 pos)
  · exact (ends_skip 32).cast (shift_shift 32 1 pos)

theorem byteAt_shift (j k : Nat) : byteAt b (shift j pos) k = byteAt b pos (j + k) := by
  cases pos with
  | none => rfl
  | some n => simp [byteAt, shift, Nat.add_assoc]

theorem ends_skipSigner : Ends skipSigner b pos (signerEnd b pos) := by
  unfold skipSigner signerEnd
  refine ends_u8_bind (ends_u8_bind ?_)
  rw [byteAt_shift, shift_shift]
  split_ifs
  · exact (ends_u8.bind fun _ => ends_skip 4).cast (by simp)
  · exact (ends_u8.bind fun _ => ends_skip 12).cast (by simp)
  · exact (ends_skip 4).cast (by simp)

theorem ends_skipConfig : Ends skipConfig b pos (lockEnd b (shift 49 pos)) := by
  have h : Ends skipConfig b pos (lockEnd b (shift 32 (shift 8 (shift 8 (shift 1 pos))))) :=
    ends_u8.bind fun _ => ends_u64.bind fun _ => ends_u64.bind fun _ => (ends_skip 32).bind fun _ =>
      ends_skipLock
  rwa [shift_shift, shift_shift, shift_shift] at h

/-- Behind a known tag nothing throws. -/
theorem ends_readAction {tag : ActionTag} (access : List String)
    (h : byteAt b pos 0 = some tag.toByte) :
    Ends (readAction access) b pos (actionEnd b pos tag) := by
  unfold readAction
  refine ends_u8_bind ?_
  rw [h]
  cases tag with
  | turn =>
    exact ((ends_resource access).bind fun _ => (ends_resource access).bind fun _ =>
      ends_u8.map).cast (by simp [actionEnd])
  | createGame =>
    exact ((ends_resource access).bind fun _ => (ends_resource access).bind fun _ =>
      ends_u64.bind fun _ => ends_u8.bind fun _ => ends_u8.map).cast (by simp [actionEnd])
  | joinGame =>
    exact ((ends_resource access).bind fun _ => (ends_resource access).map).cast
      (by simp [actionEnd])
  | timeout =>
    exact (ends_u8.bind fun _ => ends_u8.map).cast (by simp [actionEnd])
  | deposit =>
    exact ((ends_resource access).bind fun _ => ends_u8.bind fun _ => ends_u32.bind fun _ =>
      ends_skipLock.map).cast (by simp [actionEnd])
  | withdraw =>
    exact ((ends_resource access).bind fun _ => ends_u8.bind fun _ => ends_u64.bind fun _ =>
      ends_skipSpk.map).cast (by simp [actionEnd])
  | transfer =>
    refine (ends_resource access).bind fun _ => (ends_resource access).bind fun _ =>
      ends_u64.bind fun _ => ends_u8_bind ?_
    rw [actionEnd, shift_shift, shift_shift, shift_shift, shift_shift, byteAt_shift]
    split_ifs
    · exact ends_skipLock.map
    · exact ends_pure _
  | update | init =>
    exact ends_skipConfig.map.cast (by simp [actionEnd])
  | updateUserLock =>
    exact (ends_u8.bind fun _ => ends_skipLock.map).cast (by simp [actionEnd])

theorem readAction_throws (access : List String)
    (h : ∀ tag : ActionTag, byteAt b pos 0 ≠ some tag.toByte) {a : LaneAction} :
    readAction access b pos ≠ .ok a stop := by
  intro hok
  obtain ⟨tag, mid, htag, hok⟩ := bind_ok.mp hok
  cases htag
  have hturn : byteAt b pos 0 ≠ some 0x09 := h .turn
  have hcreateGame : byteAt b pos 0 ≠ some 0x07 := h .createGame
  have hjoinGame : byteAt b pos 0 ≠ some 0x08 := h .joinGame
  have hdeposit : byteAt b pos 0 ≠ some 0x05 := h .deposit
  have hwithdraw : byteAt b pos 0 ≠ some 0x06 := h .withdraw
  have htransfer : byteAt b pos 0 ≠ some 0x03 := h .transfer
  have hupdate : byteAt b pos 0 ≠ some 0x01 := h .update
  have hinit : byteAt b pos 0 ≠ some 0x02 := h .init
  have hupdateUserLock : byteAt b pos 0 ≠ some 0x04 := h .updateUserLock
  have htimeout : byteAt b pos 0 ≠ some 0x0a := h .timeout
  rw [if_neg hturn, if_neg hcreateGame, if_neg hjoinGame, if_neg hdeposit, if_neg hwithdraw,
    if_neg htransfer, if_neg hupdate, if_neg hinit, if_neg hupdateUserLock, if_neg htimeout] at hok
  cases hok

end Ends

/-! ## Sections -/

section Sections

variable {b : List UInt8} {pos stop : Option Nat}

theorem countAt_lt : countAt b pos < 2 ^ 32 := by
  have h := leNat_lt ((List.range 4).map fun i => (byteAt b pos i).getD 0)
  rw [List.length_map, List.length_range] at h
  exact h

theorem counted_run {α : Type} (r : LaneReader α) :
    counted r b pos = times (countAt b pos) r b (shift 4 pos) := by
  have hrun : counted r b pos
      = times (UInt32.ofNat (countAt b pos)).toNat r b (shift 4 pos) := rfl
  rw [hrun, count_ofNat countAt_lt]

/-- An access entry throws only for want of its id. -/
theorem readAccess_ok {p : Nat} {id : String} (h : readAccess b (some p) = .ok id stop) :
    p + 32 ≤ b.length ∧ stop = some (p + 33) := by
  obtain ⟨id', mid, hid, h⟩ := bind_ok.mp h
  obtain ⟨bs, mid', hbs, hid⟩ := bind_ok.mp hid
  cases hid
  cases h
  unfold Cursor.bytes at hbs
  dsimp only at hbs
  split_ifs at hbs with hlen
  cases hbs
  rw [List.length_take, List.length_drop] at hlen
  exact ⟨by omega, rfl⟩

theorem ends_readAccess {p : Nat} (h : p + 32 ≤ b.length) :
    Ends readAccess b (some p) (some (p + 33)) := by
  have hlen : ((b.drop p).take 32).length = 32 := by
    rw [List.length_take, List.length_drop]
    omega
  have hbytes : Ends (Cursor.bytes "carrier: truncated resource id" 32) b (some p)
      (some (p + 32)) := by
    refine ⟨(b.drop p).take 32, ?_⟩
    unfold Cursor.bytes
    dsimp only
    rw [if_pos hlen]
    rfl
  exact hbytes.map.bind fun _ => ends_u8.map

theorem times_readAccess_ok {n p : Nat} {ids : List String}
    (h : times n readAccess b (some p) = .ok ids stop) :
    (n = 0 ∨ p + 33 * n ≤ b.length + 1) ∧ stop = some (p + 33 * n) := by
  induction n generalizing p ids with
  | zero =>
    cases h
    exact ⟨.inl rfl, rfl⟩
  | succ n ih =>
    obtain ⟨id, mid, hid, h⟩ := bind_ok.mp h
    obtain ⟨rest, mid', hrest, h⟩ := bind_ok.mp h
    cases h
    obtain ⟨hfits, rfl⟩ := readAccess_ok hid
    obtain ⟨hn, rfl⟩ := ih hrest
    refine ⟨.inr (by omega), congrArg some (by omega)⟩

theorem ends_times_readAccess {n p : Nat} (h : n = 0 ∨ p + 33 * n ≤ b.length + 1) :
    Ends (times n readAccess) b (some p) (some (p + 33 * n)) := by
  induction n generalizing p with
  | zero => exact ends_pure []
  | succ n ih =>
    have hrest : Ends (times n readAccess) b (some (p + 33)) (some (p + 33 + 33 * n)) :=
      ih (by omega)
    have hall : Ends (times (n + 1) readAccess) b (some p) (some (p + 33 + 33 * n)) :=
      (ends_readAccess (by omega)).bind fun _ => hrest.map
    exact hall.cast (congrArg some (by omega))

theorem ends_times_skipSigner (n : Nat) :
    Ends (times n skipSigner) b pos ((signerEnd b)^[n] pos) := by
  induction n generalizing pos with
  | zero => exact ends_pure []
  | succ n ih => exact ends_skipSigner.bind fun _ => ih.map

/-- The actions are read iff each starts at a tag. -/
theorem times_readAction_iff (access : List String) (n : Nat) :
    (∃ lanes stop, times n (readAction access) b pos = .ok lanes stop) ↔ ActionsAt b n pos := by
  induction n generalizing pos with
  | zero =>
    constructor
    · intro _
      exact .nil pos
    · intro _
      exact ⟨[], pos, rfl⟩
  | succ n ih =>
    constructor
    · intro h
      obtain ⟨lanes, stop, h⟩ := h
      obtain ⟨a, mid, ha, h⟩ := bind_ok.mp h
      obtain ⟨rest, mid', hrest, -⟩ := bind_ok.mp h
      by_cases htag : ∃ tag : ActionTag, byteAt b pos 0 = some tag.toByte
      · obtain ⟨tag, htag⟩ := htag
        obtain ⟨a', ha'⟩ := ends_readAction access htag
        rw [ha'] at ha
        cases ha
        exact .cons tag htag (ih.mp ⟨rest, mid', hrest⟩)
      · exact (readAction_throws access (fun tag h => htag ⟨tag, h⟩) ha).elim
    · intro h
      obtain _ | ⟨tag, htag, hrest⟩ := h
      obtain ⟨a, ha⟩ := ends_readAction access htag
      obtain ⟨rest, stop, hrest⟩ := ih.mpr hrest
      exact ⟨a :: rest, stop, bind_ok.mpr ⟨a, _, ha, bind_ok.mpr ⟨rest, stop, hrest, rfl⟩⟩⟩

end Sections

/-! ## Which payloads are skimmed -/

theorem accessSection_ok {raw : List UInt8} {ids : List String} {stop : Option Nat}
    (h : counted readAccess raw (some 0) = .ok ids stop) :
    (countAt raw (some 0) = 0 ∨ 4 + 33 * countAt raw (some 0) ≤ raw.length + 1) ∧
      stop = signersAt raw := by
  have hstart : shift 4 (some 0) = some 4 := rfl
  rw [counted_run, hstart] at h
  exact times_readAccess_ok h

theorem ends_accessSection {raw : List UInt8}
    (h : countAt raw (some 0) = 0 ∨ 4 + 33 * countAt raw (some 0) ≤ raw.length + 1) :
    Ends (counted readAccess) raw (some 0) (signersAt raw) := by
  have hstart : shift 4 (some 0) = some 4 := rfl
  unfold Ends
  rw [counted_run, hstart]
  exact ends_times_readAccess h

theorem ends_signersSection (raw : List UInt8) :
    Ends (counted skipSigner) raw (signersAt raw) (actionsAt raw) := by
  unfold Ends
  rw [counted_run]
  exact ends_times_skipSigner _

theorem actionsSection_iff (raw : List UInt8) (access : List String) :
    (∃ lanes stop, counted (readAction access) raw (actionsAt raw) = .ok lanes stop) ↔
      ActionsAt raw (countAt raw (actionsAt raw)) (shift 4 (actionsAt raw)) := by
  rw [counted_run]
  exact times_readAction_iff access _

theorem readLane_iff {raw : List UInt8} :
    (∃ lanes stop, readLane raw (some 0) = .ok lanes stop) ↔ Skims raw := by
  constructor
  · intro h
    obtain ⟨lanes, stop, h⟩ := h
    obtain ⟨access, mid, haccess, h⟩ := bind_ok.mp h
    obtain ⟨hids, rfl⟩ := accessSection_ok haccess
    obtain ⟨signers, mid', hsigners, hactions⟩ := bind_ok.mp h
    obtain ⟨skipped, hskipped⟩ := ends_signersSection raw
    have hmid := (EStateM.Result.ok.inj (hsigners.symm.trans hskipped)).2
    rw [hmid] at hactions
    exact ⟨hids, (actionsSection_iff raw access).mp ⟨lanes, stop, hactions⟩⟩
  · intro h
    obtain ⟨access, haccess⟩ := ends_accessSection h.ids
    obtain ⟨signers, hsigners⟩ := ends_signersSection raw
    obtain ⟨lanes, stop, hactions⟩ := (actionsSection_iff raw access).mpr h.tags
    exact ⟨lanes, stop, bind_ok.mpr ⟨access, _, haccess, bind_ok.mpr
      ⟨signers, _, hsigners, hactions⟩⟩⟩

theorem decodeLanePayload_throws_iff {raw : List UInt8} :
    (∃ e, decodeLanePayload raw = .error e) ↔ ¬ Skims raw := by
  rw [← readLane_iff]
  unfold decodeLanePayload
  cases readLane raw (some 0) with
  | ok lanes stop =>
    constructor
    · intro h
      obtain ⟨e, he⟩ := h
      cases he
    · intro h
      exact (h ⟨lanes, stop, rfl⟩).elim
  | error e stop =>
    constructor
    · intro _ h
      obtain ⟨lanes, stop', h⟩ := h
      cases h
    · intro _
      exact ⟨e, rfl⟩

end TicTacToe.Web
