/-
TicTacToe.Runtime.Abi — what the transaction processor hands to the
guest: resources, the transaction, the mergeset clock, and the two sinks.

A resource is its id, the access mode the transaction declared for it and
its data bytes; empty data is a slot nothing was ever written to. The
payload is the access-metadata prefix followed by the instruction data,
so `ixData` is a suffix of `bytes` by construction.

`ExitSink` keeps what was emitted, in order. `DepositSink` holds the one
deposit-address commitment of the journal.

No `sorry`, no `axiom`, no `native_decide`.
-/
import TicTacToe.Runtime.Codec

namespace TicTacToe

open Lib

abbrev ResourceId := Bytes32

/-- `ResourceId::default()`: all zero, the "no joiner" marker of a game. -/
def ResourceId.default : ResourceId := ⟨List.replicate 32 0, List.length_replicate⟩

inductive AccessType where
  | read
  | write
  deriving DecidableEq, Repr

structure Resource where
  id : ResourceId
  accessType : AccessType
  data : List UInt8
  deriving DecidableEq

/-- `Resource::resize`: sets the length, zero-filling what grows. -/
def Resource.resize (r : Resource) (n : Nat) : Resource :=
  { r with data := r.data.take n ++ List.replicate (n - r.data.length) 0 }

@[simp] theorem Resource.length_resize (r : Resource) (n : Nat) :
    (r.resize n).data.length = n := by
  simp only [Resource.resize, List.length_append, List.length_take, List.length_replicate]
  omega

structure Payload where
  accessPrefix : List UInt8
  ixData : List UInt8

/-- `payload.bytes`. -/
def Payload.bytes (p : Payload) : List UInt8 := p.accessPrefix ++ p.ixData

structure Transaction where
  payload : Payload
  restPreimage : List UInt8

/-- The chain-block clock: the only field of the context the guest reads. -/
structure MergesetContext where
  daaScore : UInt64

/-- A typed L1 destination script (tags 0, 1 and 8 on the wire). -/
inductive StandardSpk where
  | pubKey (key : Bytes32)
  | pubKeyEcdsa (key : Bytes 33)
  | scriptHash (hash : Bytes32)
  deriving DecidableEq

/-- `StandardSpk::decode`: the tag implies the payload length. -/
def StandardSpk.decode : Reader StandardSpk := do
  let tag ← Reader.byte "spk.tag"
  if tag = 0 then
    return .pubKey (← Reader.array "spk.pub_key" 32)
  else if tag = 1 then
    return .pubKeyEcdsa (← Reader.array "spk.pub_key_ecdsa" 33)
  else if tag = 8 then
    return .scriptHash (← Reader.array "spk.script_hash" 32)
  else
    throw (.decode "spk: unknown tag")

/-- `StandardSpk::encode`: the tag, then the key or hash. -/
def StandardSpk.encode : StandardSpk → List UInt8
  | pubKey key => 0 :: key.val
  | pubKeyEcdsa key => 1 :: key.val
  | scriptHash hash => 8 :: hash.val

theorem StandardSpk.reads_decode : Reads StandardSpk.decode StandardSpk.encode := by
  intro buf dest rest
  simp only [decode, Reader.byte, Reader.array, ok_bind, reads_byte _ _ _ _]
  constructor
  · rintro ⟨tag, _, rfl, h⟩
    split_ifs at h with h₀ h₁ h₈
    · obtain ⟨key, _, hkey, hpure⟩ := ok_bind.mp h
      obtain ⟨rfl, rfl⟩ := ok_pure.mp hpure
      rw [(reads_array _ _ _ _ _).mp hkey, h₀]
      rfl
    · obtain ⟨key, _, hkey, hpure⟩ := ok_bind.mp h
      obtain ⟨rfl, rfl⟩ := ok_pure.mp hpure
      rw [(reads_array _ _ _ _ _).mp hkey, h₁]
      rfl
    · obtain ⟨hash, _, hhash, hpure⟩ := ok_bind.mp h
      obtain ⟨rfl, rfl⟩ := ok_pure.mp hpure
      rw [(reads_array _ _ _ _ _).mp hhash, h₈]
      rfl
    · exact (ok_throw.mp h).elim
  · rintro rfl
    cases dest with
    | pubKey key | pubKeyEcdsa key | scriptHash key =>
      exact ⟨_, key.val ++ rest, rfl,
        ok_bind.mpr ⟨key, rest, (reads_array _ _ _ _ _).mpr rfl, ok_pure.mpr ⟨rfl, rfl⟩⟩⟩

/-- `StandardSpk::ScriptHash(h).to_script_bytes()`:
`OpBlake2b | OpData32 | hash | OpEqual`. -/
def p2shScript (hash : Bytes32) : List UInt8 := 0xaa :: 0x20 :: (hash.val ++ [0x87])

/-- One L2-to-L1 exit. -/
structure Exit where
  dest : StandardSpk
  amount : UInt64
  deriving DecidableEq

abbrev ExitSink := List Exit

abbrev DepositSink := Option Bytes32

/-- A parsed output of the current transaction. -/
structure Output where
  value : UInt64
  spkVersion : UInt16
  spk : List UInt8

end TicTacToe
