/-
TicTacToe.Web.Damage — on which malformed payloads the lane decoder
throws.

The browser names the actions of a payload without checking most of it.
The templates below are the guest's wire format, field for field, with
what the browser lets pass: an index, an amount or a signature offset may
be anything or missing, an unknown lock tag passes for an empty lock. A
payload that is a copy of some guest sections up to such damage
(`Copies`) is decoded to a list of actions however the guest complains of
it; every other one throws (`malformed_throws_iff`). Three complaints of
the guest are the browser's too: an id cut short, an action tag that is
missing, and one that is unknown (`shared_throws`).

No `sorry`, no `axiom`, no `native_decide`.
-/
import TicTacToe.Lib.Template
import TicTacToe.Web.Widths

namespace TicTacToe.Web

open Lib Lib.Cursor

/-! ## Payloads the guest finds malformed -/

/-- Rejections of a field that was there and of the right form. -/
def valueChecks : List String :=
  ["ix.signer: resource_idx not ascending", "lock.multisig: invalid",
    "action.create_game: mark must be X or O",
    "action.turn: cell must be a board position 0..=8"]

/-- The guest rejects the payload with `msg`, for a truncation, an index that
is not below the access count, or an unknown tag, kind or flag. -/
def Malformed (B : Battery) (payload : List UInt8) (msg : String) : Prop :=
  decodePayload B payload = .error (.decode msg) ∧ msg ∉ valueChecks

/-- The rejections of an id that is cut short, of an action tag that is missing
and of one that is unknown. -/
def sharedComplaints : List String :=
  ["access.resource_id", "action.action_tag", "action: unknown tag"]

/-! ## The guest's wire with what the browser lets pass -/

def entryPlaces (_ : AccessEntry) : List Place := List.replicate 32 .filled ++ [.free]

/-- An unknown tag passes for `Unlocked`. -/
def lockPlaces : LockEnum → List Place
  | .schnorr _ => .fixed 0x01 :: List.replicate 32 .free
  | .multisig _ pubkeys =>
    .fixed 0x02 :: .free :: .orCut (LockEnum.nPubkeys pubkeys) ::
      List.replicate (32 * (LockEnum.nPubkeys pubkeys).toNat) .free
  | .unlocked => [.other [0x01, 0x02]]

/-- An unknown tag passes for one of the 32-byte scripts. -/
def spkPlaces : StandardSpk → List Place
  | .pubKeyEcdsa _ => .fixed 1 :: List.replicate 33 .free
  | .pubKey _ | .scriptHash _ => .other [1] :: List.replicate 32 .free

/-- An unknown kind passes for one with a lone signature offset. -/
def signerPlaces (entry : UInt8 × SignerEnum) : List Place :=
  .free :: match entry.2 with
    | .prevTxV1Witness _ => .fixed 0x02 :: List.replicate 13 .free
    | .multisigPrevTxV1Witness _ => .fixed 0x04 :: List.replicate 13 .free
    | .multisigSchnorrSigPtr .. => .fixed 0x03 :: List.replicate 5 .free
    | .schnorrSigPtr _ | .genesisSchnorrSigPtr _ =>
      .other [0x02, 0x03, 0x04] :: List.replicate 4 .free

/-- Any destination flag but 1 passes for none. -/
def bodyPlaces : ActionBody → List Place
  | .turn .. => List.replicate 3 .free
  | .createGame .. => List.replicate 12 .free
  | .joinGame .. | .timeout .. => List.replicate 2 .free
  | .deposit _ _ _ lock => List.replicate 6 .free ++ lockPlaces lock
  | .withdraw _ _ _ dest => List.replicate 10 .free ++ spkPlaces dest
  | .transfer _ _ _ none => List.replicate 10 .free ++ [.other [1]]
  | .transfer _ _ _ (some lock) => List.replicate 10 .free ++ .fixed 1 :: lockPlaces lock
  | .update _ _ _ _ lock | .init _ _ _ _ lock => List.replicate 49 .free ++ lockPlaces lock
  | .updateUserLock _ lock => .free :: lockPlaces lock

def actionPlaces (a : ActionBody) : List Place := .fixed a.tag.toByte :: bodyPlaces a

/-- The payload is what the guest would read as these sections, up to damage
that the browser does not see. -/
structure CopyOf (payload : List UInt8) (access : List AccessEntry)
    (signers : List (UInt8 × SignerEnum)) (actions : List ActionBody) : Prop where
  counts : access.length < 2 ^ 32 ∧ signers.length < 2 ^ 32 ∧ actions.length < 2 ^ 32
  places : Matches payload 0 (countedPlaces entryPlaces access ++
    (countedPlaces signerPlaces signers ++ countedPlaces actionPlaces actions))

/-- A copy of some access list, signers and actions. -/
def Copies (payload : List UInt8) : Prop :=
  ∃ access signers actions, CopyOf payload access signers actions

/-! ## What the guest decodes is a copy without damage -/

section Spelled

variable {B : Battery}

theorem spells_entry (entry : AccessEntry) : Spells (entryPlaces entry) entry.encode :=
  (spells_filled entry.1.property).append (.cons trivial spells_nil)

theorem spells_lock {l : LockEnum} (h : l.WellFormed B) : Spells (lockPlaces l) l.encode := by
  cases l with
  | schnorr pubkey => exact .cons rfl (spells_free pubkey.property)
  | multisig threshold pubkeys =>
    obtain ⟨n, hlen, -⟩ := LockEnum.multisig_of_wellFormed h
    have hn : LockEnum.nPubkeys pubkeys = n := LockEnum.nPubkeys_eq hlen
    have hkeys : pubkeys.length = 32 * (LockEnum.nPubkeys pubkeys).toNat := by
      rw [hn, hlen, Nat.mul_comm]
    exact .cons rfl (.cons trivial (.cons (.inr rfl) (spells_free hkeys)))
  | unlocked => exact .cons (by decide) spells_nil

theorem spells_spk (dest : StandardSpk) : Spells (spkPlaces dest) dest.encode := by
  cases dest with
  | pubKey key => exact .cons (by decide) (spells_free key.property)
  | pubKeyEcdsa key => exact .cons rfl (spells_free key.property)
  | scriptHash hash => exact .cons (by decide) (spells_free hash.property)

theorem spells_signer (entry : UInt8 × SignerEnum) :
    Spells (signerPlaces entry) (encodeSigner entry) := by
  obtain ⟨idx, s⟩ := entry
  refine .cons trivial ?_
  cases s with
  | schnorrSigPtr off => exact .cons (by decide) (spells_free (length_le32 off))
  | prevTxV1Witness w => exact .cons rfl (spells_free (by simp [PrevTxV1Witness.encode]))
  | multisigSchnorrSigPtr i off => exact .cons rfl (spells_free (by simp))
  | multisigPrevTxV1Witness w => exact .cons rfl (spells_free (by simp [PrevTxV1Witness.encode]))
  | genesisSchnorrSigPtr off => exact .cons (by decide) (spells_free (length_le32 off))

theorem spells_body {n : Nat} {a : ActionBody} (h : a.InBounds B n) :
    Spells (bodyPlaces a) a.encodeBody := by
  cases a with
  | turn g u cell => exact spells_free rfl
  | createGame c g stake rounds mark =>
    exact spells_free (by simp [ActionBody.encodeBody, ActionBody.encode, encodeCreateGameAction])
  | joinGame g j => exact spells_free rfl
  | timeout g c => exact spells_free rfl
  | deposit u c output lock =>
    have hfields : (u :: c :: le32 output).length = 6 := by simp
    exact (spells_free hfields).append (spells_lock h.2.2)
  | withdraw u c amount dest =>
    have hfields : (u :: c :: le64 amount).length = 10 := by simp
    exact (spells_free hfields).append (spells_spk dest)
  | transfer s d amount lock =>
    have hfields : (s :: d :: le64 amount).length = 10 := by simp
    cases lock with
    | none => exact (spells_free hfields).append (.cons (by decide) spells_nil)
    | some lock => exact (spells_free hfields).append (.cons rfl (spells_lock (h.2.2 lock rfl)))
  | update i min ttl cov lock | init i min ttl cov lock =>
    have hfields : (i :: (le64 min ++ (le64 ttl ++ cov.val))).length = 49 := by
      simp [cov.property]
    have hbody : (i :: (le64 min ++ (le64 ttl ++ cov.val))) ++ lock.encode
        = encodeConfigFields i min ttl cov lock := by
      simp [encodeConfigFields]
    have hspelled := (spells_free hfields).append (spells_lock h.2)
    rw [hbody] at hspelled
    exact hspelled
  | updateUserLock i lock => exact .cons trivial (spells_lock h.2)

theorem spells_action {n : Nat} {a : ActionBody} (h : a.InBounds B n) :
    Spells (actionPlaces a) a.encode := by
  rw [ActionBody.encode_eq]
  exact .cons rfl (spells_body h)

/-- What the guest decodes is a copy of what it decoded. -/
theorem copyOf_of_ok {payload : List UInt8} {d : DecodedPayload}
    (h : decodePayload B payload = .ok d) : CopyOf payload d.access d.ix.signers d.ix.actions := by
  obtain ⟨hcounts, hin, tail, rfl⟩ := decodePayload_ok h
  refine ⟨hcounts, ?_⟩
  have haccess : Spells (countedPlaces entryPlaces d.access) (encVec AccessEntry.encode d.access) :=
    spells_counted fun entry _ => spells_entry entry
  have hsigners : Spells (countedPlaces signerPlaces d.ix.signers)
      (encVec encodeSigner d.ix.signers) := spells_counted fun entry _ => spells_signer entry
  have hactions : Spells (countedPlaces actionPlaces d.ix.actions)
      (encVec ActionBody.encode d.ix.actions) := spells_counted fun a ha => spells_action (hin a ha)
  have hspelled := haccess.append (hsigners.append hactions)
  have hmatches := hspelled.matches [] tail
  rw [List.nil_append, List.append_assoc, List.append_assoc] at hmatches
  exact hmatches

end Spelled

/-! ## Where the fields of a copy end -/

section Ends

variable {b : List UInt8} {p : Nat}

/-- The position is `p`, or no number and `p` behind the end: the same is
read there. -/
def Meets (b : List UInt8) (pos : Option Nat) (p : Nat) : Prop :=
  pos = some p ∨ pos = none ∧ b.length ≤ p

theorem Meets.byteAt {pos : Option Nat} (h : Meets b pos p) (k : Nat) :
    byteAt b pos k = b[p + k]? := by
  rcases h with rfl | ⟨rfl, hp⟩
  · rfl
  · exact (List.getElem?_eq_none (by omega)).symm

theorem lock_meets {l : LockEnum} (h : Matches b p (lockPlaces l)) :
    Meets b (lockEnd b (some p)) (p + (lockPlaces l).length) := by
  cases l with
  | schnorr pubkey =>
    have htag : byteAt b (some p) 0 = some 0x01 := h.1
    refine .inl ?_
    rw [lockEnd, if_pos htag]
    rfl
  | multisig threshold pubkeys =>
    have htag : byteAt b (some p) 0 = some 0x02 := h.1
    have hend : lockEnd b (some p) = (byteAt b (some (p + 1)) 1).map fun k =>
        p + 1 + (2 + 32 * k.toNat) := by
      rw [lockEnd, if_neg (by rw [htag]; decide), if_pos htag]
      rfl
    rcases h.2.2.1 with hcut | hcount
    · refine .inr ⟨?_, ?_⟩
      · rw [hend]
        exact congrArg _ hcut
      · have hlen := List.getElem?_eq_none_iff.mp hcut
        simp only [lockPlaces, List.length_cons]
        omega
    · refine .inl ?_
      have hbyte : byteAt b (some (p + 1)) 1 = some (LockEnum.nPubkeys pubkeys) := hcount
      rw [hend, hbyte]
      simp only [Option.map_some, lockPlaces, List.length_cons, List.length_replicate]
      exact congrArg some (by omega)
  | unlocked =>
    have htags : byteAt b (some p) 0 ∉ [some 0x01, some 0x02] := h.1
    simp only [List.mem_cons, List.not_mem_nil, or_false, not_or] at htags
    refine .inl ?_
    rw [lockEnd, if_neg htags.1, if_neg htags.2]
    rfl

theorem spk_meets {dest : StandardSpk} (h : Matches b p (spkPlaces dest)) :
    spkEnd b (some p) = some (p + (spkPlaces dest).length) := by
  cases dest with
  | pubKey key | scriptHash hash =>
    have htag : byteAt b (some p) 0 ∉ [some 1] := h.1
    rw [spkEnd, if_neg (List.mem_singleton.not.mp htag)]
    rfl
  | pubKeyEcdsa key =>
    have htag : byteAt b (some p) 0 = some 1 := h.1
    rw [spkEnd, if_pos htag]
    rfl

theorem signer_meets {entry : UInt8 × SignerEnum} (h : Matches b p (signerPlaces entry)) :
    signerEnd b (some p) = some (p + (signerPlaces entry).length) := by
  obtain ⟨idx, s⟩ := entry
  cases s with
  | prevTxV1Witness w =>
    have hkind : byteAt b (some p) 1 = some 0x02 := h.2.1
    rw [signerEnd, if_neg (by rw [hkind]; decide), if_pos (.inl hkind)]
    rfl
  | multisigPrevTxV1Witness w =>
    have hkind : byteAt b (some p) 1 = some 0x04 := h.2.1
    rw [signerEnd, if_neg (by rw [hkind]; decide), if_pos (.inr hkind)]
    rfl
  | multisigSchnorrSigPtr i off =>
    have hkind : byteAt b (some p) 1 = some 0x03 := h.2.1
    rw [signerEnd, if_pos hkind]
    rfl
  | schnorrSigPtr off | genesisSchnorrSigPtr off =>
    have hkinds : byteAt b (some p) 1 ∉ [some 0x02, some 0x03, some 0x04] := h.2.1
    simp only [List.mem_cons, List.not_mem_nil, or_false, not_or] at hkinds
    rw [signerEnd, if_neg hkinds.2.1, if_neg (not_or.mpr ⟨hkinds.1, hkinds.2.2⟩)]
    rfl

theorem length_behind {c : Place} {k : Nat} {t : List Place} :
    (c :: (List.replicate k .free ++ t)).length = k + 1 + t.length := by
  rw [List.length_cons, List.length_append, List.length_replicate]
  omega

/-- A lock behind the tag and `k` bytes of other fields. -/
theorem lock_meets_behind {l : LockEnum} {k : Nat}
    (h : Matches b (p + 1) (List.replicate k .free ++ lockPlaces l)) :
    Meets b (lockEnd b (some (p + (k + 1)))) (p + (k + 1 + (lockPlaces l).length)) := by
  have hlock := lock_meets (matches_free_append.mp h)
  rw [Nat.add_assoc p, Nat.add_comm 1, Nat.add_assoc p] at hlock
  exact hlock

/-- A copy of an action ends where the browser takes it to end. -/
theorem action_meets {a : ActionBody} (h : Matches b p (actionPlaces a)) :
    Meets b (actionEnd b (some p) a.tag) (p + (actionPlaces a).length) := by
  have hbody : Matches b (p + 1) (bodyPlaces a) := h.2
  cases a with
  | turn g u cell | createGame c g stake rounds mark | joinGame g j | timeout g c => exact .inl rfl
  | deposit u c output lock =>
    have hlen : (actionPlaces (.deposit u c output lock)).length = 7 + (lockPlaces lock).length :=
      length_behind
    rw [hlen]
    exact lock_meets_behind hbody
  | withdraw u c amount dest =>
    have hlen : (actionPlaces (.withdraw u c amount dest)).length
        = 11 + (spkPlaces dest).length :=
      length_behind
    have hdest := matches_free_append.mp hbody
    rw [hlen, ← Nat.add_assoc]
    exact .inl (spk_meets hdest)
  | transfer s d amount lock =>
    cases lock with
    | none =>
      have hflag : byteAt b (some p) 11 ∉ [some 1] := (matches_free_append.mp hbody).1
      refine .inl ?_
      show (if byteAt b (some p) 11 = some 1 then _ else _) = _
      rw [if_neg (List.mem_singleton.not.mp hflag)]
      rfl
    | some lock =>
      have hflag : byteAt b (some p) 11 = some 1 := (matches_free_append.mp hbody).1
      have hlen : (actionPlaces (.transfer s d amount (some lock))).length
          = 12 + (lockPlaces lock).length := by
        rw [actionPlaces, bodyPlaces, length_behind, List.length_cons]
        omega
      have hend : actionEnd b (some p) .transfer = lockEnd b (some (p + 12)) := if_pos hflag
      rw [hlen, ← Nat.add_assoc]
      exact hend ▸ lock_meets (matches_free_append.mp hbody).2
  | update i min ttl cov lock =>
    have hlen : (actionPlaces (.update i min ttl cov lock)).length
        = 50 + (lockPlaces lock).length :=
      length_behind
    rw [hlen]
    exact lock_meets_behind hbody
  | init i min ttl cov lock =>
    have hlen : (actionPlaces (.init i min ttl cov lock)).length
        = 50 + (lockPlaces lock).length :=
      length_behind
    rw [hlen]
    exact lock_meets_behind hbody
  | updateUserLock i lock =>
    have hlen : (actionPlaces (.updateUserLock i lock)).length = 2 + (lockPlaces lock).length :=
      length_behind (k := 1)
    rw [hlen]
    exact lock_meets_behind (k := 1) hbody

/-! ## What passes for the fields -/

theorem exists_lock (b : List UInt8) (p : Nat) : ∃ l, Matches b p (lockPlaces l) := by
  by_cases hschnorr : b[p]? = some 0x01
  · exact ⟨.schnorr (padTo 32 []), hschnorr, matches_free 32⟩
  by_cases hmultisig : b[p]? = some 0x02
  · obtain ⟨n, hn⟩ : ∃ n : UInt8, b[p + 1 + 1]? = none ∨ b[p + 1 + 1]? = some n := by
      cases b[p + 1 + 1]? with
      | none => exact ⟨0, .inl rfl⟩
      | some n => exact ⟨n, .inr rfl⟩
    have hkeys : LockEnum.nPubkeys (List.replicate (n.toNat * 32) 0) = n :=
      LockEnum.nPubkeys_eq List.length_replicate
    refine ⟨.multisig 0 (List.replicate (n.toNat * 32) 0), hmultisig, trivial, ?_⟩
    rw [hkeys]
    exact ⟨hn, matches_free _⟩
  · refine ⟨.unlocked, ?_, trivial⟩
    show b[p]? ∉ [some 0x01, some 0x02]
    simp only [List.mem_cons, List.not_mem_nil, or_false, not_or]
    exact ⟨hschnorr, hmultisig⟩

theorem exists_spk (b : List UInt8) (p : Nat) : ∃ dest, Matches b p (spkPlaces dest) := by
  by_cases htag : b[p]? = some 1
  · exact ⟨.pubKeyEcdsa (padTo 33 []), htag, matches_free 33⟩
  · exact ⟨.pubKey (padTo 32 []), List.mem_singleton.not.mpr htag, matches_free 32⟩

theorem exists_signer (b : List UInt8) (p : Nat) : ∃ entry, Matches b p (signerPlaces entry) := by
  by_cases hwitness : b[p + 1]? = some 0x02
  · exact ⟨(0, .prevTxV1Witness ⟨0, 0, 0, 0⟩), trivial, hwitness, matches_free 13⟩
  by_cases hmultisig : b[p + 1]? = some 0x03
  · exact ⟨(0, .multisigSchnorrSigPtr 0 0), trivial, hmultisig, matches_free 5⟩
  by_cases hmultisigWitness : b[p + 1]? = some 0x04
  · exact ⟨(0, .multisigPrevTxV1Witness ⟨0, 0, 0, 0⟩), trivial, hmultisigWitness, matches_free 13⟩
  · refine ⟨(0, .schnorrSigPtr 0), trivial, ?_, matches_free 4⟩
    show b[p + 1]? ∉ [some 0x02, some 0x03, some 0x04]
    simp only [List.mem_cons, List.not_mem_nil, or_false, not_or]
    exact ⟨hwitness, hmultisig, hmultisigWitness⟩

/-- Behind a known tag everything passes for an action of that tag. -/
theorem exists_action {tag : ActionTag} (h : b[p]? = some tag.toByte) :
    ∃ a : ActionBody, a.tag = tag ∧ Matches b p (actionPlaces a) := by
  cases tag with
  | turn => exact ⟨.turn 0 0 0, rfl, h, matches_free 3⟩
  | createGame => exact ⟨.createGame 0 0 0 0 .x, rfl, h, matches_free 12⟩
  | joinGame => exact ⟨.joinGame 0 0, rfl, h, matches_free 2⟩
  | timeout => exact ⟨.timeout 0 0, rfl, h, matches_free 2⟩
  | deposit =>
    obtain ⟨lock, hlock⟩ := exists_lock b (p + 1 + 6)
    exact ⟨.deposit 0 0 0 lock, rfl, h, matches_free_append.mpr hlock⟩
  | withdraw =>
    obtain ⟨dest, hdest⟩ := exists_spk b (p + 1 + 10)
    exact ⟨.withdraw 0 0 0 dest, rfl, h, matches_free_append.mpr hdest⟩
  | transfer =>
    by_cases hflag : b[p + 1 + 10]? = some 1
    · obtain ⟨lock, hlock⟩ := exists_lock b (p + 1 + 10 + 1)
      exact ⟨.transfer 0 0 0 (some lock), rfl, h, matches_free_append.mpr ⟨hflag, hlock⟩⟩
    · have hnone : b[p + 1 + 10]? ∉ [some 1] := List.mem_singleton.not.mpr hflag
      exact ⟨.transfer 0 0 0 none, rfl, h, matches_free_append.mpr ⟨hnone, trivial⟩⟩
  | update =>
    obtain ⟨lock, hlock⟩ := exists_lock b (p + 1 + 49)
    exact ⟨.update 0 0 0 (padTo 32 []) lock, rfl, h, matches_free_append.mpr hlock⟩
  | init =>
    obtain ⟨lock, hlock⟩ := exists_lock b (p + 1 + 49)
    exact ⟨.init 0 0 0 (padTo 32 []) lock, rfl, h, matches_free_append.mpr hlock⟩
  | updateUserLock =>
    obtain ⟨lock, hlock⟩ := exists_lock b (p + 1 + 1)
    exact ⟨.updateUserLock 0 lock, rfl, h, trivial, hlock⟩

end Ends

/-! ## Copies are what the widths skim -/

section Sections

variable {b : List UInt8} {p : Nat}

theorem digits_iff {v : UInt32} :
    Matches b p ((le32 v).map .digit) ↔ countAt b (some p) = v.toNat := by
  have hcount : countAt b (some p) = leNat ((List.range 4).map fun i => b[p + i]?.getD 0) := rfl
  rw [matches_digits, length_le32, hcount]
  constructor
  · intro hbytes
    rw [hbytes, le32, leNat_leBytes]
    exact Nat.mod_eq_of_lt v.toNat_lt
  · intro hn
    rw [← UInt32.ofNat_toNat (x := v), ← hn]
    exact (le32_ofNat_leNat (by simp)).symm

theorem count_iff {n : Nat} (h : n < 2 ^ 32) :
    Matches b p ((le32 (UInt32.ofNat n)).map .digit) ↔ countAt b (some p) = n := by
  rw [digits_iff, count_ofNat h]

theorem length_entries (access : List AccessEntry) :
    (access.flatMap entryPlaces).length = 33 * access.length := by
  induction access with
  | nil => rfl
  | cons entry access ih =>
    rw [List.flatMap_cons, List.length_append, ih, List.length_cons, Nat.mul_succ, Nat.add_comm]
    rfl

/-- The ids are all there. -/
theorem entries_iff {access : List AccessEntry} :
    Matches b p (access.flatMap entryPlaces) ↔
      access.length = 0 ∨ p + 33 * access.length ≤ b.length + 1 := by
  induction access generalizing p with
  | nil => exact iff_of_true trivial (.inl rfl)
  | cons entry access ih =>
    have hlen : (entryPlaces entry).length = 33 := rfl
    have hhead : Matches b p (entryPlaces entry) ↔ p + 32 ≤ b.length := by
      rw [entryPlaces, matches_append, matches_filled]
      constructor
      · intro hplaces
        exact hplaces.1.resolve_left (by decide)
      · intro hfits
        exact ⟨.inr hfits, trivial, trivial⟩
    rw [List.flatMap_cons, matches_append, hhead, hlen, ih, List.length_cons]
    omega

theorem exists_signers (b : List UInt8) (p n : Nat) :
    ∃ signers : List (UInt8 × SignerEnum), signers.length = n ∧
      Matches b p (signers.flatMap signerPlaces) := by
  induction n generalizing p with
  | zero => exact ⟨[], rfl, trivial⟩
  | succ n ih =>
    obtain ⟨entry, hentry⟩ := exists_signer b p
    obtain ⟨signers, hlen, hsigners⟩ := ih (p + (signerPlaces entry).length)
    exact ⟨entry :: signers, congrArg (· + 1) hlen, matches_append.mpr ⟨hentry, hsigners⟩⟩

theorem signers_meet {signers : List (UInt8 × SignerEnum)}
    (h : Matches b p (signers.flatMap signerPlaces)) :
    (signerEnd b)^[signers.length] (some p) = some (p + (signers.flatMap signerPlaces).length) := by
  induction signers generalizing p with
  | nil => rfl
  | cons entry signers ih =>
    rw [List.flatMap_cons, matches_append] at h
    rw [List.length_cons, Function.iterate_succ_apply, signer_meets h.1, ih h.2, List.flatMap_cons,
      List.length_append, Nat.add_assoc]

/-- Actions start at tags iff the bytes pass for that many actions. -/
theorem actionsAt_iff {n : Nat} {pos : Option Nat} (h : Meets b pos p) :
    ActionsAt b n pos ↔ ∃ actions : List ActionBody, actions.length = n ∧
      Matches b p (actions.flatMap actionPlaces) := by
  induction n generalizing pos p with
  | zero =>
    constructor
    · intro _
      exact ⟨[], rfl, trivial⟩
    · intro _
      exact .nil pos
  | succ n ih =>
    constructor
    · intro hat
      obtain _ | ⟨tag, htag, hrest⟩ := hat
      obtain rfl | ⟨rfl, -⟩ := h
      · obtain ⟨a, rfl, ha⟩ := exists_action htag
        obtain ⟨actions, hlen, hactions⟩ := (ih (action_meets ha)).mp hrest
        exact ⟨a :: actions, congrArg (· + 1) hlen, matches_append.mpr ⟨ha, hactions⟩⟩
      · cases htag
    · intro hex
      obtain ⟨_ | ⟨a, actions⟩, hlen, hmatches⟩ := hex
      · cases hlen
      rw [List.flatMap_cons, matches_append] at hmatches
      obtain ⟨ha, hactions⟩ := hmatches
      have htag : b[p]? = some a.tag.toByte := ha.1
      obtain rfl | ⟨-, hp⟩ := h
      · have hrest := (ih (action_meets ha)).mpr ⟨actions, Nat.succ.inj hlen, hactions⟩
        exact .cons a.tag htag hrest
      · rw [List.getElem?_eq_none hp] at htag
        cases htag

/-- A copy, section by section. -/
theorem copyOf_iff {access : List AccessEntry} {signers : List (UInt8 × SignerEnum)}
    {actions : List ActionBody} {start stop : Nat} (hstart : start = 4 + 33 * access.length)
    (hstop : stop = start + 4 + (signers.flatMap signerPlaces).length)
    (hcounts : access.length < 2 ^ 32 ∧ signers.length < 2 ^ 32 ∧ actions.length < 2 ^ 32) :
    CopyOf b access signers actions ↔
      (countAt b (some 0) = access.length ∧
        (access.length = 0 ∨ 4 + 33 * access.length ≤ b.length + 1)) ∧
      (countAt b (some start) = signers.length ∧
        Matches b (start + 4) (signers.flatMap signerPlaces)) ∧
      (countAt b (some stop) = actions.length ∧
        Matches b (stop + 4) (actions.flatMap actionPlaces)) := by
  have hplaces : CopyOf b access signers actions ↔ Matches b 0 (countedPlaces entryPlaces access ++
      (countedPlaces signerPlaces signers ++ countedPlaces actionPlaces actions)) :=
    ⟨CopyOf.places, fun h => ⟨hcounts, h⟩⟩
  have hsigners : 0 + (countedPlaces entryPlaces access).length = start := by
    rw [length_countedPlaces, length_entries, Nat.zero_add, hstart]
  have hactions : start + (countedPlaces signerPlaces signers).length = stop := by
    rw [length_countedPlaces, hstop, Nat.add_assoc]
  rw [hplaces, matches_append, matches_append, hsigners, hactions, matches_counted, matches_counted,
    matches_counted, count_iff hcounts.1, count_iff hcounts.2.1, count_iff hcounts.2.2,
    entries_iff, Nat.zero_add]

/-- The widths skim a payload iff it is a copy of some sections. -/
theorem skims_iff : Skims b ↔ Copies b := by
  constructor
  · intro h
    obtain ⟨signers, hsigners, hplaces⟩ := exists_signers b (4 + 33 * countAt b (some 0) + 4)
      (countAt b (signersAt b))
    have hend : actionsAt b = some (4 + 33 * countAt b (some 0) + 4
        + (signers.flatMap signerPlaces).length) := by
      rw [actionsAt, ← hsigners]
      exact signers_meet hplaces
    have htags := h.tags
    rw [hend] at htags
    obtain ⟨actions, hactions, hbodies⟩ := (actionsAt_iff (.inl rfl)).mp htags
    obtain ⟨access, haccess⟩ : ∃ access : List AccessEntry,
        access.length = countAt b (some 0) :=
      ⟨List.replicate _ (padTo 32 [], 0), List.length_replicate⟩
    have hcounts : access.length < 2 ^ 32 ∧ signers.length < 2 ^ 32 ∧ actions.length < 2 ^ 32 := by
      rw [haccess, hsigners, hactions]
      exact ⟨countAt_lt, countAt_lt, countAt_lt⟩
    refine ⟨access, signers, actions, (copyOf_iff rfl rfl hcounts).mpr ?_⟩
    rw [haccess]
    exact ⟨⟨rfl, h.ids⟩, ⟨hsigners.symm, hplaces⟩, hactions.symm, hbodies⟩
  · intro h
    obtain ⟨access, signers, actions, hcopy⟩ := h
    obtain ⟨⟨haccess, hids⟩, ⟨hsigners, hplaces⟩, hactions, hbodies⟩ :=
      (copyOf_iff rfl rfl hcopy.counts).mp hcopy
    have hstart : signersAt b = some (4 + 33 * access.length) := by rw [signersAt, haccess]
    have hend : actionsAt b = some (4 + 33 * access.length + 4
        + (signers.flatMap signerPlaces).length) := by
      rw [actionsAt, hstart, hsigners]
      exact signers_meet hplaces
    refine ⟨haccess ▸ hids, ?_⟩
    rw [hend, hactions]
    exact (actionsAt_iff (.inl rfl)).mpr ⟨actions, rfl, hbodies⟩

end Sections

/-! ## Complaints the browser shares -/

/-- Not a rejection that the browser shares. -/
def Unshared (e : Fault) : Prop := ∀ msg ∈ sharedComplaints, e ≠ .decode msg

section Unshared

variable {B : Battery} {n : Nat} {field : String}

theorem unshared_decode (h : field ∉ sharedComplaints) : Unshared (.decode field) := by
  intro msg hmsg heq
  cases heq
  exact h hmsg

theorem unshared_byte (h : field ∉ sharedComplaints) :
    Decodes Unshared (Reader.byte field) fun _ => True := decodes_byte (unshared_decode h)

theorem unshared_leU32 (h : field ∉ sharedComplaints) :
    Decodes Unshared (Reader.leU32 field) fun _ => True := decodes_u32 (unshared_decode h)

theorem unshared_leU64 (h : field ∉ sharedComplaints) :
    Decodes Unshared (Reader.leU64 field) fun _ => True := decodes_u64 (unshared_decode h)

theorem unshared_array (h : field ∉ sharedComplaints) (k : Nat) :
    Decodes Unshared (Reader.array field k) fun _ => True := decodes_array (unshared_decode h)

theorem unshared_index (h : field ∉ sharedComplaints) :
    Decodes Unshared (readResourceIdx field n) fun _ => True :=
  (unshared_byte h).bind fun _ _ => Decodes.ite (fun _ => decodes_throw (unshared_decode h))
    fun _ => decodes_pure trivial

theorem unshared_lock : Decodes Unshared (decodeLock B) fun _ => True := by
  refine (unshared_byte (by decide)).bind fun tag _ => Decodes.ite (fun _ => ?_) fun _ =>
    Decodes.ite (fun _ => ?_) fun _ => Decodes.ite (fun _ => decodes_pure trivial) fun _ =>
    decodes_throw (unshared_decode (by decide))
  · exact (unshared_array (by decide) 32).bind fun _ _ => decodes_pure trivial
  · refine (unshared_byte (by decide)).bind fun _ _ => (unshared_byte (by decide)).bind fun _ _ =>
      (decodes_take (unshared_decode (by decide))).bind fun _ _ => Decodes.ite
      (fun _ => decodes_pure trivial) fun _ => decodes_throw (unshared_decode (by decide))

theorem unshared_dest : Decodes Unshared decodeDest fun _ => True := by
  intro buf
  have h := decodes_decodeDest buf
  unfold wp at h ⊢
  unfold decodeDest at h ⊢
  cases hdest : StandardSpk.decode buf with
  | ok dest rest =>
    rw [hdest] at h
    exact h
  | error e rest => exact unshared_decode (by decide)

theorem unshared_destInit : Decodes Unshared (decodeDestInit B) fun _ => True :=
  (unshared_byte (by decide)).bind fun _ _ => Decodes.ite (fun _ => decodes_pure trivial) fun _ =>
    Decodes.ite (fun _ => unshared_lock.bind fun _ _ => decodes_pure trivial) fun _ =>
    decodes_throw (unshared_decode (by decide))

theorem unshared_mark : Decodes Unshared decodeMark fun _ => True :=
  (unshared_byte (by decide)).bind fun _ _ => Decodes.ite (fun _ => decodes_pure trivial) fun _ =>
    Decodes.ite (fun _ => decodes_pure trivial) fun _ =>
    decodes_throw (unshared_decode (by decide))

/-- No complaint of the guest about an action's body is shared. -/
theorem unshared_body (tag : ActionTag) : Decodes Unshared (decodeBody B n tag) fun _ => True := by
  cases tag with
  | update | init =>
    exact (unshared_index (by decide)).bind fun _ _ => (unshared_leU64 (by decide)).bind fun _ _ =>
      (unshared_leU64 (by decide)).bind fun _ _ => (unshared_array (by decide) 32).bind fun _ _ =>
      unshared_lock.bind fun _ _ => decodes_pure trivial
  | transfer =>
    exact (unshared_index (by decide)).bind fun _ _ => (unshared_index (by decide)).bind fun _ _ =>
      (unshared_leU64 (by decide)).bind fun _ _ => unshared_destInit.bind fun _ _ =>
      decodes_pure trivial
  | updateUserLock =>
    exact (unshared_index (by decide)).bind fun _ _ => unshared_lock.bind fun _ _ =>
      decodes_pure trivial
  | deposit =>
    exact (unshared_index (by decide)).bind fun _ _ => (unshared_index (by decide)).bind fun _ _ =>
      (unshared_leU32 (by decide)).bind fun _ _ => unshared_lock.bind fun _ _ =>
      decodes_pure trivial
  | withdraw =>
    exact (unshared_index (by decide)).bind fun _ _ => (unshared_index (by decide)).bind fun _ _ =>
      (unshared_leU64 (by decide)).bind fun _ _ => unshared_dest.bind fun _ _ =>
      decodes_pure trivial
  | createGame =>
    exact (unshared_index (by decide)).bind fun _ _ => (unshared_index (by decide)).bind fun _ _ =>
      (unshared_leU64 (by decide)).bind fun _ _ => (unshared_byte (by decide)).bind fun _ _ =>
      unshared_mark.bind fun _ _ => decodes_pure trivial
  | joinGame | timeout =>
    exact (unshared_index (by decide)).bind fun _ _ => (unshared_index (by decide)).bind fun _ _ =>
      decodes_pure trivial
  | turn =>
    exact (unshared_index (by decide)).bind fun _ _ => (unshared_index (by decide)).bind fun _ _ =>
      (unshared_byte (by decide)).bind fun _ _ => Decodes.ite
      (fun _ => decodes_throw (unshared_decode (by decide))) fun _ => decodes_pure trivial

theorem unshared_witness : Decodes Unshared decodePrevTxV1Witness fun _ => True :=
  (unshared_byte (by decide)).bind fun _ _ => (unshared_leU32 (by decide)).bind fun _ _ =>
    (unshared_leU32 (by decide)).bind fun _ _ => (unshared_leU32 (by decide)).bind fun _ _ =>
    decodes_pure trivial

theorem unshared_signer : Decodes Unshared (decodeSigner n) fun _ => True := by
  refine (unshared_index (by decide)).bind fun _ _ => (unshared_byte (by decide)).bind fun kind _ =>
    Decodes.ite (fun _ => ?_) fun _ => Decodes.ite (fun _ => ?_) fun _ => Decodes.ite
    (fun _ => ?_) fun _ => Decodes.ite (fun _ => ?_) fun _ => Decodes.ite (fun _ => ?_) fun _ =>
    decodes_throw (unshared_decode (by decide))
  · exact (unshared_leU32 (by decide)).bind fun _ _ => decodes_pure trivial
  · exact unshared_witness.bind fun _ _ => decodes_pure trivial
  · exact (unshared_byte (by decide)).bind fun _ _ => (unshared_leU32 (by decide)).bind fun _ _ =>
      decodes_pure trivial
  · exact unshared_witness.bind fun _ _ => decodes_pure trivial
  · exact (unshared_leU32 (by decide)).bind fun _ _ => decodes_pure trivial

theorem unshared_signers : Decodes Unshared
    (Reader.many "ix.signers" none (decodeSignerAscending n)) fun _ => True := by
  have hentry : ∀ prev, Decodes Unshared (decodeSignerAscending n prev) fun _ => True := fun prev =>
    unshared_signer.bind fun _ _ => Decodes.ite
      (fun _ => decodes_throw (unshared_decode (by decide))) fun _ => decodes_pure trivial
  exact (decodes_many (P := fun _ => True) (unshared_decode (by decide)) hentry none).mono
    fun _ _ => trivial

end Unshared

section Shared

variable {B : Battery} {b : List UInt8}

theorem countAt_le32 (pre rest : List UInt8) (n : UInt32) :
    countAt (pre ++ (le32 n ++ rest)) (some pre.length) = n.toNat :=
  digits_iff.mp ((spells_digits (le32 n)).matches pre rest)

/-- Behind actions that are as the guest has them, the next tag is where the
guest looks for it. -/
theorem tag_of_actionsAt {n k : Nat} {pre mid : List UInt8} {done : List ActionBody}
    (hin : ∀ a ∈ done, a.InBounds B n) (hk : done.length < k)
    (h : ActionsAt (pre ++ (done.flatMap ActionBody.encode ++ mid)) k (some pre.length)) :
    ∃ tag : ActionTag, mid[0]? = some tag.toByte := by
  induction done generalizing pre k with
  | nil =>
    obtain _ | ⟨tag, htag, -⟩ := h
    · cases hk
    · refine ⟨tag, ?_⟩
      have hbyte : (pre ++ mid)[pre.length]? = some tag.toByte := htag
      rwa [List.getElem?_append_right (Nat.le_refl _), Nat.sub_self] at hbyte
  | cons a done ih =>
    obtain _ | ⟨tag, htag, hrest⟩ := h
    · cases hk
    · have hread : Scans (readAction (([] : List AccessEntry).map fun entry =>
          hexString entry.1.val)) a.encode (laneAction [] a) :=
        scans_readAction (hin a List.mem_cons_self)
      have hscan := hread pre (done.flatMap ActionBody.encode ++ mid)
      rw [← List.append_assoc a.encode, ← List.flatMap_cons] at hscan
      obtain ⟨lane, hlane⟩ := ends_readAction [] htag
      have hend := (EStateM.Result.ok.inj (hlane.symm.trans hscan)).2
      rw [hend, List.flatMap_cons, List.append_assoc, ← List.append_assoc pre,
        ← List.length_append] at hrest
      exact ih (fun c hc => hin c (List.mem_cons_of_mem a hc)) (Nat.lt_of_succ_lt_succ hk) hrest

/-- A shared complaint about an entry is that its id is cut. -/
theorem decodeAccessEntry_error {mid rest : List UInt8} {e : Fault} (hshared : ¬ Unshared e)
    (h : decodeAccessEntry mid = .error e rest) : mid.length < 32 := by
  obtain hid | ⟨id, s₁, -, h⟩ := error_bind.mp h
  · unfold Reader.array Lib.Reader.array at hid
    split at hid
    · assumption
    · cases hid
  · obtain htype | ⟨t, s₂, -, hpure⟩ := error_bind.mp h
    · exact (hshared ((unshared_byte (by decide)).error htype)).elim
    · cases hpure

/-- A shared complaint about an action is that it has no tag. -/
theorem decodeAction_error {n : Nat} {mid rest : List UInt8} {e : Fault} (hshared : ¬ Unshared e)
    (h : decodeAction B n mid = .error e rest) (tag : ActionTag) : mid[0]? ≠ some tag.toByte := by
  intro htag
  obtain ⟨v, mid, rfl⟩ : ∃ v tail, mid = v :: tail := by
    cases mid with
    | nil => cases htag
    | cons v tail => exact ⟨v, tail, rfl⟩
  have hv : v = tag.toByte := Option.some.inj htag
  have hknown : ActionTag.tryFrom v = some tag := ActionTag.tryFrom_eq_some.mpr hv
  obtain hbyte | ⟨v', s₁, hbyte, h⟩ := error_bind.mp h
  · cases hbyte
  · obtain ⟨rfl, rfl⟩ := List.cons_eq_cons.mp (byte_ok.mp hbyte)
    rw [hknown] at h
    exact hshared ((unshared_body tag).error h)

theorem not_skims_of_cut {n : UInt32} {done : List AccessEntry} {mid : List UInt8}
    (hn : done.length < n.toNat) (hmid : mid.length < 32) :
    ¬ Skims (le32 n ++ (done.flatMap AccessEntry.encode ++ mid)) := by
  intro h
  have hcount : countAt (le32 n ++ (done.flatMap AccessEntry.encode ++ mid)) (some 0) = n.toNat :=
    countAt_le32 [] _ n
  have hdone : (done.flatMap AccessEntry.encode).length = 33 * done.length := by
    rw [← length_entries, ← (spells_flatMap fun entry _ => spells_entry entry).length_eq]
  have hids := h.ids
  rw [hcount, List.length_append, List.length_append, length_le32, hdone] at hids
  omega

theorem not_skims_of_tag {n : Nat} {access : List AccessEntry} {signers : List (UInt8 × SignerEnum)}
    {k : UInt32} {done : List ActionBody} {mid : List UInt8} (haccess : access.length < 2 ^ 32)
    (hsigners : signers.length < 2 ^ 32) (hin : ∀ a ∈ done, a.InBounds B n)
    (hk : done.length < k.toNat) (hmid : ∀ tag : ActionTag, mid[0]? ≠ some tag.toByte) :
    ¬ Skims (encVec AccessEntry.encode access ++ (encVec encodeSigner signers ++
      (le32 k ++ (done.flatMap ActionBody.encode ++ mid)))) := by
  intro h
  have hfirst : Scans (counted readAccess) (encVec AccessEntry.encode access) _ :=
    scans_counted haccess fun entry _ => scans_readAccess entry
  have hsecond : Scans (counted skipSigner) (encVec encodeSigner signers) _ :=
    scans_counted hsigners fun entry _ => scans_skipSigner entry
  have hstart := (accessSection_ok (hfirst.run (encVec encodeSigner signers ++
    (le32 k ++ (done.flatMap ActionBody.encode ++ mid))))).2
  obtain ⟨skipped, hskipped⟩ := ends_signersSection (encVec AccessEntry.encode access ++
    (encVec encodeSigner signers ++ (le32 k ++ (done.flatMap ActionBody.encode ++ mid))))
  rw [← hstart] at hskipped
  have hstop := (EStateM.Result.ok.inj (hskipped.symm.trans (hsecond _ _))).2
  have htags := h.tags
  rw [hstop, ← List.append_assoc, ← List.length_append, countAt_le32] at htags
  have hnext : shift 4 (some (encVec AccessEntry.encode access ++
      encVec encodeSigner signers).length) = some (encVec AccessEntry.encode access ++
        encVec encodeSigner signers ++ le32 k).length :=
    congrArg some (by simp only [List.length_append, length_le32])
  rw [hnext, ← List.append_assoc (encVec AccessEntry.encode access ++ _)] at htags
  obtain ⟨tag, htag⟩ := tag_of_actionsAt hin hk htags
  exact hmid tag htag

/-- Where the guest's complaint is a shared one, the widths do not skim. -/
theorem not_skims_of_shared {payload : List UInt8} {msg : String}
    (h : decodePayload B payload = .error (.decode msg)) (hmsg : msg ∈ sharedComplaints) :
    ¬ Skims payload := by
  have hshared : ¬ Unshared (.decode msg) := fun hun => hun msg hmsg rfl
  unfold decodePayload at h
  cases haccess : Lib.Reader.vec (.decode "access") decodeAccessEntry payload with
  | error e rest =>
    rw [haccess] at h
    cases h
    obtain hcount | ⟨n, s₁, hcount, hloop⟩ := error_bind.mp haccess
    · have hun := (decodes_u32 (unshared_decode (by decide))).error hcount
      exact (hshared hun).elim
    · obtain ⟨done, mid, hlen, -, rfl, hmid⟩ :=
        readsOnly_decodeAccessEntry.manyLoop_error hloop
      rw [(reads_u32 _ _ _ _).mp hcount]
      exact not_skims_of_cut hlen (decodeAccessEntry_error hshared hmid)
  | ok access ixData =>
    rw [haccess] at h
    obtain ⟨⟨hlen, -⟩, rfl⟩ := (readsOnly_decodeAccessEntry.vec _ _ _ _).mp haccess
    dsimp only at h
    unfold decodeIx at h
    cases hsections : decodeSections access.length (decodeAction B) ixData with
    | error e rest =>
      rw [hsections] at h
      cases h
      obtain hsigners | ⟨signers, s₁, hsigners, hrest⟩ := error_bind.mp hsections
      · exact (hshared (unshared_signers.error hsigners)).elim
      obtain ⟨⟨hsignersLen, -⟩, rfl⟩ := signersSection_ok.mp hsigners
      obtain hactions | ⟨actions, s₂, -, hpure⟩ := error_bind.mp hrest
      · obtain hcount | ⟨k, s₂, hcount, hloop⟩ := error_bind.mp hactions
        · have hun := (decodes_u32 (unshared_decode (by decide))).error hcount
          exact (hshared hun).elim
        · obtain ⟨done, mid, hk, hin, rfl, hmid⟩ :=
            (readsOnly_decodeAction B access.length).manyLoop_error hloop
          rw [(reads_u32 _ _ _ _).mp hcount]
          exact not_skims_of_tag hlen hsignersLen hin hk (decodeAction_error hshared hmid)
      · cases hpure
    | ok p tail =>
      rw [hsections] at h
      dsimp only at h
      unfold subLen at h
      split_ifs at h
      cases h

end Shared

/-- On a payload the guest finds malformed, the decoder throws iff the guest
complains of a cut id or of an action's tag, or the payload is no copy of any
sections up to damage that the browser does not see. -/
theorem malformed_throws_iff {B : Battery} {payload : List UInt8} {msg : String}
    (h : Malformed B payload msg) :
    (∃ e, decodeLanePayload payload = .error e) ↔ msg ∈ sharedComplaints ∨ ¬ Copies payload := by
  have hshared : msg ∈ sharedComplaints → ¬ Skims payload := not_skims_of_shared h.1
  rw [decodeLanePayload_throws_iff, ← skims_iff]
  constructor
  · exact .inr
  · intro hdamage
    exact hdamage.elim hshared id

/-- One game in the access list and one action. -/
def Sample.stray (action : List UInt8) : List UInt8 :=
  le32 1 ++ (List.replicate 32 0x11 ++ 1 :: (le32 0 ++ (le32 1 ++ action)))

/-- A turn in the game by user 5. -/
def Sample.strayTurn : List UInt8 := stray [0x09, 0, 5, 4]

theorem Sample.malformed_strayTurn : Malformed .plain strayTurn "action.turn.user_idx" :=
  ⟨rfl, by decide⟩

/-- A turn by a user that is none passes for a turn; an action of no tag does
not pass. -/
theorem malformed_throws_iff_stray :
    (¬ ∃ e, decodeLanePayload Sample.strayTurn = .error e) ∧
      ∃ e, decodeLanePayload (Sample.stray [0x0b]) = .error e := by
  have hcopy : Copies Sample.strayTurn :=
    ⟨[(⟨List.replicate 32 0x11, rfl⟩, 1)], [], [.turn 0 5 4], by decide, by decide +kernel⟩
  have htag : Malformed .plain (Sample.stray [0x0b]) "action: unknown tag" := ⟨rfl, by decide⟩
  refine ⟨fun hthrows => ?_, (malformed_throws_iff htag).mpr (.inl (by decide))⟩
  have hcondition := (malformed_throws_iff Sample.malformed_strayTurn).mp hthrows
  exact hcondition.elim (by decide) fun hno => hno hcopy

/-- A turn in a real game for a user that is none. -/
theorem stray_turn_named :
    Sample.strayTurn ≠ [] ∧ Malformed .plain Sample.strayTurn "action.turn.user_idx" ∧
      decodeLanePayload Sample.strayTurn
        = .ok [.turn (some (hexString (List.replicate 32 0x11))) none (some 4)] :=
  ⟨List.cons_ne_nil _ _, Sample.malformed_strayTurn, rfl⟩

end TicTacToe.Web
