/-
TicTacToe.Runtime.Lock — the lock variants, their three wire readers and
writers, and the dispatch of an unlock to the right bucket of the auth
context (`runtime/lock.rs`, `runtime/lock_codec.rs`,
`runtime/auth_context.rs`).

`decodeLockBodyUnchecked` panics on what `validateLockBody` rejects; the
panicking arms are modelled, and `decodeLockBodyUnchecked_ok` shows that
validation excludes them. `decodeLockBody_writeBody` is the round trip
of a lock through its stored body.

No `sorry`, no `axiom`, no `native_decide`.
-/
import TicTacToe.Runtime.Battery

namespace TicTacToe

open Lib

inductive LockEnum where
  | schnorr (pubkey : Bytes32)
  /-- `pubkeys` is the concatenation of the 32-byte keys. -/
  | multisig (threshold : UInt8) (pubkeys : List UInt8)
  | unlocked
  deriving DecidableEq

/-- Resolved unlocker buckets. -/
structure AuthContext where
  schnorr : List (UInt8 × Bytes32)
  multisig : List (UInt8 × List Bytes32)

/-- `AuthContext::default()`. -/
def AuthContext.default : AuthContext := ⟨[], []⟩

namespace LockEnum

def tag : LockEnum → UInt8
  | schnorr _ => 0x01
  | multisig _ _ => 0x02
  | unlocked => 0x03

/-- `MultisigLockView::n_pubkeys`. -/
def nPubkeys (pubkeys : List UInt8) : UInt8 := UInt8.ofNat (pubkeys.length / 32)

/-- The body bytes, as `Lock::encode` and `write_body` lay them out. -/
def body : LockEnum → List UInt8
  | schnorr pubkey => pubkey.val
  | multisig threshold pubkeys => threshold :: nPubkeys pubkeys :: pubkeys
  | unlocked => []

def wireBodyLen : LockEnum → Nat
  | schnorr _ => 32
  | multisig _ pubkeys => 2 + pubkeys.length
  | unlocked => 0

/-- `encode`: `tag || body`. -/
def encode (l : LockEnum) : List UInt8 := l.tag :: l.body

/-- `write_body` into a buffer of `n` bytes. `copy_from_slice` panics when
the lengths differ; the `Unlocked` arm only asserts in debug builds. -/
def writeBody (l : LockEnum) (n : Nat) : Except Fault (List UInt8) :=
  if n = l.wireBodyLen then .ok l.body else .error .panic

/-- Picks the unlocker bucket of the variant. -/
def unlock (B : Battery) (l : LockEnum) (resourceIdx : UInt8) (ctx : AuthContext) : Bool :=
  match l with
  | schnorr pubkey => B.schnorrTryUnlock pubkey resourceIdx ctx.schnorr
  | multisig threshold pubkeys => B.multisigTryUnlock threshold pubkeys resourceIdx ctx.multisig
  | unlocked => B.unlockedTryUnlock resourceIdx

/-- `id_hash`: `SHA-256(domain || tag || body)` under `Domain::LockId`. -/
def idHash (B : Battery) (l : LockEnum) : Bytes32 := B.hashWithDomain 3 l.encode

@[simp] theorem length_body (l : LockEnum) : l.body.length = l.wireBodyLen := by
  cases l with
  | schnorr pubkey => exact pubkey.property
  | multisig threshold pubkeys => simp [body, wireBodyLen]; omega
  | unlocked => rfl

end LockEnum

/-! ## Wire decoding -/

/-- `MultisigLockView::decode`: `threshold || n || n * 32` key bytes, subject
to the battery's rule. -/
def multisigDecode (B : Battery) : Reader LockEnum := do
  let threshold ← Reader.byte "lock.multisig.threshold"
  let n ← Reader.byte "lock.multisig.n_pubkeys"
  let pubkeys ← Reader.take "lock.multisig.pubkeys" (n.toNat * 32)
  if B.multisigValid threshold n pubkeys then
    return .multisig threshold pubkeys
  else
    throw (.decode "lock.multisig: invalid")

def decodeLock (B : Battery) : Reader LockEnum := do
  let tag ← Reader.byte "lock.tag"
  if tag = 0x01 then
    return .schnorr (← Reader.array "lock.schnorr.pubkey" 32)
  else if tag = 0x02 then
    multisigDecode B
  else if tag = 0x03 then
    return .unlocked
  else
    throw (.decode "lock: unknown tag")

/-! ## Stored bodies -/

def validateLockBody (B : Battery) (tag : UInt8) (body : List UInt8) : Except String Unit :=
  if tag = 0x01 then
    if body.length ≠ 32 then .error "lock.schnorr: body must be 32 bytes" else .ok ()
  else if tag = 0x02 then
    match multisigDecode B body with
    | .error _ _ => .error "lock.multisig: invalid body"
    | .ok _ rest => if rest ≠ [] then .error "lock.multisig: body has trailing bytes" else .ok ()
  else if tag = 0x03 then
    if body ≠ [] then .error "lock.unlocked: body must be empty" else .ok ()
  else
    .error "lock: unknown tag"

def decodeLockBodyUnchecked (tag : UInt8) (body : List UInt8) : Except Fault LockEnum :=
  if tag = 0x01 then
    if h : body.length = 32 then .ok (.schnorr ⟨body, h⟩) else .error .panic
  else if tag = 0x02 then
    match body with
    | threshold :: _ :: pubkeys => .ok (.multisig threshold pubkeys)
    | _ => .error .panic
  else if tag = 0x03 then
    .ok .unlocked
  else
    .error .panic

/-- `decode_lock_body`. -/
def decodeLockBody (B : Battery) (tag : UInt8) (body : List UInt8) :
    Except String (Except Fault LockEnum) :=
  match validateLockBody B tag body with
  | .error m => .error m
  | .ok _ => .ok (decodeLockBodyUnchecked tag body)

/-! ## The three readers agree -/

/-- The stored form of the lock validates. -/
def LockEnum.WellFormed (B : Battery) (l : LockEnum) : Prop :=
  validateLockBody B l.tag l.body = .ok ()

theorem multisigDecode_ok {B : Battery} {buf rest : List UInt8} {l : LockEnum} :
    multisigDecode B buf = .ok l rest ↔
      ∃ t n ks, l = .multisig t ks ∧ ks.length = n.toNat * 32 ∧ B.multisigValid t n ks = true ∧
        buf = t :: n :: ks ++ rest := by
  simp only [multisigDecode, Reader.byte, Reader.take, ok_bind, reads_byte _ _ _ _, take_ok]
  constructor
  · rintro ⟨t, _, rfl, n, _, rfl, ks, r, ⟨hl, rfl⟩, h⟩
    split at h
    · rename_i hv
      obtain ⟨rfl, rfl⟩ := ok_pure.mp h
      exact ⟨t, n, ks, rfl, hl, hv, by simp⟩
    · exact (ok_throw.mp h).elim
  · rintro ⟨t, n, ks, rfl, hl, hv, rfl⟩
    refine ⟨t, n :: ks ++ rest, rfl, n, ks ++ rest, rfl, ks, rest, ⟨hl, rfl⟩, ?_⟩
    rw [if_pos hv]
    exact ok_pure.mpr ⟨rfl, rfl⟩

theorem LockEnum.nPubkeys_eq {n : UInt8} {ks : List UInt8} (h : ks.length = n.toNat * 32) :
    nPubkeys ks = n := by
  rw [nPubkeys, h, Nat.mul_div_cancel _ (by decide), UInt8.ofNat_toNat]

theorem LockEnum.wellFormed_multisig {B : Battery} {t n : UInt8} {ks : List UInt8}
    (hl : ks.length = n.toNat * 32) (hv : B.multisigValid t n ks = true) :
    (LockEnum.multisig t ks).WellFormed B := by
  have hdec : multisigDecode B (LockEnum.multisig t ks).body = .ok (.multisig t ks) [] :=
    multisigDecode_ok.mpr ⟨t, n, ks, rfl, hl, hv, by simp [LockEnum.body, nPubkeys_eq hl]⟩
  simp [WellFormed, validateLockBody, LockEnum.tag, hdec]

theorem LockEnum.multisig_of_wellFormed {B : Battery} {t : UInt8} {ks : List UInt8}
    (h : (LockEnum.multisig t ks).WellFormed B) :
    ∃ n : UInt8, ks.length = n.toNat * 32 ∧ B.multisigValid t n ks = true := by
  cases hdec : multisigDecode B (LockEnum.multisig t ks).body with
  | error e rest => simp [WellFormed, validateLockBody, LockEnum.tag, hdec] at h
  | ok l rest =>
    obtain ⟨t', n, ks', -, hl, hv, hbody⟩ := multisigDecode_ok.mp hdec
    have hrest : rest = [] := by
      by_contra hne
      simp [WellFormed, validateLockBody, LockEnum.tag, hdec, hne] at h
    subst hrest
    rw [List.append_nil] at hbody
    obtain ⟨rfl, -, rfl⟩ := by simpa [LockEnum.body] using hbody
    exact ⟨n, hl, hv⟩

theorem LockEnum.wellFormed_schnorr (B : Battery) (pk : Bytes32) :
    (LockEnum.schnorr pk).WellFormed B := by
  simp [WellFormed, validateLockBody, LockEnum.tag, LockEnum.body, pk.property]

theorem LockEnum.wellFormed_unlocked (B : Battery) : LockEnum.unlocked.WellFormed B := rfl

theorem decodes_multisigDecode (B : Battery) :
    Decodes Fault.IsReject (multisigDecode B) (fun l => l.WellFormed B) := by
  refine (Reader.decodes_byte _).bind fun t _ => (Reader.decodes_byte _).bind fun n _ => ?_
  refine (Reader.decodes_take _ _).bind fun ks hl => Decodes.ite (fun hv => ?_) (fun _ => ?_)
  · exact decodes_pure (LockEnum.wellFormed_multisig hl hv)
  · exact decodes_throw trivial

/-- A lock read off the wire can be stored. -/
theorem decodes_decodeLock (B : Battery) :
    Decodes Fault.IsReject (decodeLock B) (fun l => l.WellFormed B) := by
  refine (Reader.decodes_byte _).bind fun tag _ => Decodes.ite (fun _ => ?_) fun _ =>
    Decodes.ite (fun _ => decodes_multisigDecode B) fun _ =>
    Decodes.ite (fun _ => decodes_pure (LockEnum.wellFormed_unlocked B)) fun _ =>
    decodes_throw trivial
  exact (Reader.decodes_array _ _).bind fun pk _ => decodes_pure (LockEnum.wellFormed_schnorr B pk)

/-- A lock on the wire is the encoding of one that can be stored. -/
theorem readsOnly_decodeLock (B : Battery) :
    ReadsOnly (fun l => l.WellFormed B) (decodeLock B) LockEnum.encode := by
  intro buf l rest
  simp only [decodeLock, Reader.byte, ok_bind, reads_byte _ _ _ _]
  constructor
  · rintro ⟨tag, _, rfl, h⟩
    split_ifs at h with h₁ h₂ h₃
    · obtain ⟨pk, _, hpk, hpure⟩ := ok_bind.mp h
      obtain ⟨rfl, rfl⟩ := ok_pure.mp hpure
      rw [(reads_array _ _ _ _ _).mp hpk, h₁]
      exact ⟨LockEnum.wellFormed_schnorr B pk, rfl⟩
    · obtain ⟨t, n, ks, rfl, hl, hv, rfl⟩ := multisigDecode_ok.mp h
      refine ⟨LockEnum.wellFormed_multisig hl hv, ?_⟩
      rw [LockEnum.encode, LockEnum.body, LockEnum.nPubkeys_eq hl, h₂]
      rfl
    · obtain ⟨rfl, rfl⟩ := ok_pure.mp h
      rw [h₃]
      exact ⟨LockEnum.wellFormed_unlocked B, rfl⟩
    · exact (ok_throw.mp h).elim
  · rintro ⟨hwf, rfl⟩
    refine ⟨l.tag, l.body ++ rest, rfl, ?_⟩
    cases l with
    | schnorr pk =>
      exact ok_bind.mpr ⟨pk, rest, (reads_array _ _ _ _ _).mpr rfl, ok_pure.mpr ⟨rfl, rfl⟩⟩
    | multisig t ks =>
      obtain ⟨n, hl, hv⟩ := LockEnum.multisig_of_wellFormed hwf
      refine multisigDecode_ok.mpr ⟨t, n, ks, rfl, hl, hv, ?_⟩
      rw [LockEnum.body, LockEnum.nPubkeys_eq hl]
    | unlocked => exact ok_pure.mpr ⟨rfl, rfl⟩

/-- Validation is the precondition under which the unchecked decoder does
not panic, and then the lock it returns is stored as exactly these bytes. -/
theorem validateLockBody_ok {B : Battery} {tag : UInt8} {body : List UInt8} :
    validateLockBody B tag body = .ok () ↔
      ∃ l : LockEnum, l.WellFormed B ∧ tag = l.tag ∧ body = l.body := by
  constructor
  · intro h
    unfold validateLockBody at h
    split at h
    · rename_i htag
      split at h
      · cases h
      · rename_i hlen
        rw [not_not] at hlen
        exact ⟨.schnorr ⟨body, hlen⟩, LockEnum.wellFormed_schnorr B _, htag, rfl⟩
    · split at h
      · rename_i htag
        split at h
        · cases h
        · rename_i l rest hdec
          split at h
          · cases h
          · rename_i hrest
            rw [not_not] at hrest
            obtain ⟨t, n, ks, rfl, hl, hv, rfl⟩ := multisigDecode_ok.mp hdec
            refine ⟨.multisig t ks, LockEnum.wellFormed_multisig hl hv, htag, ?_⟩
            rw [LockEnum.body, LockEnum.nPubkeys_eq hl, hrest, List.append_nil]
      · split at h
        · rename_i htag
          split at h
          · cases h
          · rename_i hbody
            rw [not_not] at hbody
            exact ⟨.unlocked, LockEnum.wellFormed_unlocked B, htag, hbody⟩
        · cases h
  · rintro ⟨l, hwf, rfl, rfl⟩
    exact hwf

/-- The panicking arms are not reached on a lock's own stored form. -/
@[simp] theorem decodeLockBodyUnchecked_body (l : LockEnum) :
    decodeLockBodyUnchecked l.tag l.body = .ok l := by
  cases l with
  | schnorr pk => simp [decodeLockBodyUnchecked, LockEnum.tag, LockEnum.body, pk.property]
  | multisig t ks => simp [decodeLockBodyUnchecked, LockEnum.tag, LockEnum.body]
  | unlocked => rfl

/-- `write_body` into a buffer of the lock's own size does not panic. -/
@[simp] theorem LockEnum.writeBody_wireBodyLen (l : LockEnum) :
    l.writeBody l.wireBodyLen = .ok l.body := if_pos rfl

end TicTacToe
