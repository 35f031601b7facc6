/-
TicTacToe.Lib.Cursor — readers with a position that no read checks
against the length.

A read behind the last byte is `undefined`, which counts as zero in a
number, and moves the position all the same. A position can also become
no number, when an undefined byte was counted with; nothing can be read
there. Only `bytes` looks at how much is left.

`Scans` says what a reader does on bytes it was made for, `Local` that a
reader which ended within its bytes read only those, so that more bytes
would not change it. `whole_prefix` draws the conclusion: a format whose
reader is local and which checks at the end that the position is the
length has no truncated members, whatever its numbers read on the way.

Nothing here names the program.

No `sorry`, no `axiom`, no `native_decide`.
-/
import TicTacToe.Lib.Reader

namespace TicTacToe.Lib

/-- A reader of fixed bytes at a position, `none` when it is no number. -/
abbrev Cursor (ε : Type) := ReaderT (List UInt8) (EStateM ε (Option Nat))

namespace Cursor

variable {ε α β : Type}

/-- The byte `k` behind the position. -/
def byteAt (b : List UInt8) (pos : Option Nat) (k : Nat) : Option UInt8 :=
  pos.bind fun n => b[n + k]?

/-- Looks at the byte `k` behind the position. -/
def peek (k : Nat) : Cursor ε (Option UInt8) := fun b pos => .ok (byteAt b pos k) pos

/-- Moves the position, to no number if the distance is none. -/
def skip (distance : Option Nat) : Cursor ε Unit := fun _ pos =>
  .ok () (pos.bind fun n => distance.map (n + ·))

/-- One byte, or undefined. -/
def u8 : Cursor ε (Option UInt8) := fun b pos => .ok (byteAt b pos 0) (pos.map (· + 1))

/-- A little-endian number of `k` bytes, where what is missing is zero. -/
def word (k : Nat) : Cursor ε Nat := fun b pos =>
  .ok (leNat ((List.range k).map fun i => (byteAt b pos i).getD 0)) (pos.map (· + k))

def u16 : Cursor ε UInt16 := do return UInt16.ofNat (← word 2)

def u32 : Cursor ε UInt32 := do return UInt32.ofNat (← word 4)

/-- Two 32-bit halves, the low one first. -/
def u64 : Cursor ε UInt64 := do
  let lo ← u32
  let hi ← u32
  return UInt64.ofNat (lo.toNat + 2 ^ 32 * hi.toNat)

/-- The next `n` bytes, if there are that many. -/
def bytes (e : ε) (n : Nat) : Cursor ε (List UInt8) := fun b pos =>
  let v := match pos with
    | some p => (b.drop p).take n
    | none => []
  if v.length = n then .ok v (pos.map (· + n)) else .error e pos

/-- The reader `n` times. -/
def times : Nat → Cursor ε α → Cursor ε (List α)
  | 0, _ => return []
  | n + 1, r => do
    let a ← r
    let rest ← times n r
    return a :: rest

/-- As many as a `u32` says. -/
def counted (r : Cursor ε α) : Cursor ε (List α) := do times (← u32).toNat r

/-- The reader on all of the bytes, from the start. -/
def whole (trailing : ε) (r : Cursor ε α) (b : List UInt8) : Except ε α :=
  match r b (some 0) with
  | .error e _ => .error e
  | .ok a pos => if pos = some b.length then .ok a else .error trailing

theorem pure_ok {b : List UInt8} {pos pos' : Option Nat} {a c : α} :
    (pure a : Cursor ε α) b pos = .ok c pos' ↔ a = c ∧ pos = pos' :=
  ok_pure

theorem bind_ok {r : Cursor ε α} {f : α → Cursor ε β} {b : List UInt8} {pos pos' : Option Nat}
    {c : β} :
    (r >>= f) b pos = .ok c pos' ↔ ∃ a mid, r b pos = .ok a mid ∧ f a b mid = .ok c pos' :=
  ok_bind

/-! ## Reading what is there -/

/-- At `bs`, wherever it stands, the reader gives `a` and stops behind it. -/
def Scans (r : Cursor ε α) (bs : List UInt8) (a : α) : Prop :=
  ∀ pre rest, r (pre ++ (bs ++ rest)) (some pre.length) = .ok a (some (pre.length + bs.length))

section Scans

variable {r : Cursor ε α} {f : α → Cursor ε β} {xs ys : List UInt8} {a : α} {c : β}

theorem scans_pure (a : α) : Scans (pure a : Cursor ε α) [] a := fun _ _ => rfl

theorem Scans.bind (hr : Scans r xs a) (hf : Scans (f a) ys c) :
    Scans (r >>= f) (xs ++ ys) c := by
  intro pre rest
  refine bind_ok.mpr ⟨a, some (pre.length + xs.length), ?_, ?_⟩
  · rw [List.append_assoc xs]
    exact hr pre (ys ++ rest)
  · have h := hf (pre ++ xs) rest
    rw [List.length_append, List.append_assoc, ← List.append_assoc xs] at h
    rw [h, List.length_append, Nat.add_assoc]

/-- The last reader of a block. -/
theorem Scans.map {g : α → β} (hr : Scans r xs a) :
    Scans (r >>= fun a => pure (g a)) xs (g a) := by
  have h : Scans (r >>= fun a => pure (g a)) (xs ++ []) (g a) := hr.bind (scans_pure (g a))
  rwa [List.append_nil] at h

theorem byteAt_append {pre rest : List UInt8} {i : Nat} (h : i < xs.length) :
    byteAt (pre ++ (xs ++ rest)) (some pre.length) i = xs[i]? := by
  unfold byteAt
  rw [Option.bind_some, List.getElem?_append_right (Nat.le_add_right _ _),
    Nat.add_sub_cancel_left, List.getElem?_append_left h]

theorem scans_u8 (x : UInt8) : Scans (u8 : Cursor ε _) [x] (some x) := by
  intro pre rest
  unfold u8
  rw [byteAt_append (Nat.zero_lt_one)]
  rfl

theorem scans_word (xs : List UInt8) : Scans (word xs.length : Cursor ε _) xs (leNat xs) := by
  intro pre rest
  have hbytes : ((List.range xs.length).map fun i =>
      (byteAt (pre ++ (xs ++ rest)) (some pre.length) i).getD 0) = xs := by
    refine List.ext_getElem (by simp) fun i hi hx => ?_
    rw [List.getElem_map, List.getElem_range, byteAt_append hx, List.getElem?_eq_getElem hx]
    rfl
  unfold word
  rw [hbytes]
  rfl

theorem scans_u16 (v : UInt16) : Scans (u16 : Cursor ε _) (le16 v) v := by
  have h : Scans (word 2 : Cursor ε _) (le16 v) (leNat (le16 v)) := scans_word (le16 v)
  have hmap : Scans (u16 : Cursor ε _) (le16 v) _ := h.map
  rwa [ofNat_leNat_le16] at hmap

theorem scans_u32_bytes (h : xs.length = 4) :
    Scans (u32 : Cursor ε _) xs (UInt32.ofNat (leNat xs)) := by
  have hword : Scans (word 4 : Cursor ε _) xs (leNat xs) := h ▸ scans_word xs
  exact hword.map

theorem scans_u32 (v : UInt32) : Scans (u32 : Cursor ε _) (le32 v) v := by
  have h : Scans (u32 : Cursor ε _) (le32 v) _ := scans_u32_bytes (length_le32 v)
  rwa [ofNat_leNat_le32] at h

/-- The two halves of a number are its low and its high bytes. -/
theorem scans_u64 (v : UInt64) : Scans (u64 : Cursor ε _) (le64 v) v := by
  have hsplit : le64 v = leBytes 4 v.toNat ++ leBytes 4 (v.toNat / 256 ^ 4) := leBytes_add 4 4 _
  have hlo : Scans (u32 : Cursor ε _) (leBytes 4 v.toNat) _ :=
    scans_u32_bytes (length_leBytes 4 _)
  have hhi : Scans (u32 : Cursor ε _) (leBytes 4 (v.toNat / 256 ^ 4)) _ :=
    scans_u32_bytes (length_leBytes 4 _)
  have h : Scans (u64 : Cursor ε _) (leBytes 4 v.toNat ++ leBytes 4 (v.toNat / 256 ^ 4)) _ :=
    hlo.bind hhi.map
  rw [← hsplit] at h
  have hval : UInt64.ofNat ((UInt32.ofNat (leNat (leBytes 4 v.toNat))).toNat
      + 2 ^ 32 * (UInt32.ofNat (leNat (leBytes 4 (v.toNat / 256 ^ 4)))).toNat) = v := by
    have hlt : v.toNat < 2 ^ 64 := v.toNat_lt
    rw [leNat_leBytes, leNat_leBytes, UInt32.toNat_ofNat', UInt32.toNat_ofNat']
    have hsum : v.toNat % 256 ^ 4 % 2 ^ 32 + 2 ^ 32 * (v.toNat / 256 ^ 4 % 256 ^ 4 % 2 ^ 32)
        = v.toNat := by omega
    rw [hsum, UInt64.ofNat_toNat]
  rwa [hval] at h

theorem scans_skip {n : Nat} (h : xs.length = n) :
    Scans (skip (some n) : Cursor ε _) xs () := by
  subst h
  exact fun _ _ => rfl

theorem Scans.peek {f : Option UInt8 → Cursor ε β} {k : Nat} (hk : k < xs.length)
    (hf : Scans (f xs[k]?) xs c) : Scans (Cursor.peek k >>= f) xs c := by
  intro pre rest
  refine bind_ok.mpr ⟨xs[k]?, some pre.length, ?_, hf pre rest⟩
  unfold Cursor.peek
  rw [byteAt_append hk]

theorem scans_bytes (e : ε) (xs : List UInt8) : Scans (bytes e xs.length) xs xs := by
  intro pre rest
  unfold bytes
  dsimp only
  rw [List.drop_left, List.take_left, if_pos rfl]
  rfl

theorem scans_array {n : Nat} (e : ε) (v : Bytes n) : Scans (bytes e n) v.val v.val := by
  have h := scans_bytes e v.val
  rwa [v.property] at h

theorem scans_times {γ : Type} {r : Cursor ε α} {enc : γ → List UInt8} {val : γ → α}
    {l : List γ} (h : ∀ x ∈ l, Scans r (enc x) (val x)) :
    Scans (times l.length r) (l.flatMap enc) (l.map val) := by
  induction l with
  | nil => exact scans_pure []
  | cons x l ih =>
    have hrest := ih fun y hy => h y (List.mem_cons_of_mem x hy)
    exact (h x List.mem_cons_self).bind hrest.map

theorem count_ofNat {n : Nat} (h : n < 2 ^ 32) : (UInt32.ofNat n).toNat = n := by
  rw [UInt32.toNat_ofNat', Nat.mod_eq_of_lt h]

theorem scans_counted {γ : Type} {r : Cursor ε α} {enc : γ → List UInt8} {val : γ → α}
    {l : List γ} (hlen : l.length < 2 ^ 32) (h : ∀ x ∈ l, Scans r (enc x) (val x)) :
    Scans (counted r) (encVec enc l) (l.map val) := by
  have htimes := scans_times h
  rw [← count_ofNat hlen] at htimes
  exact (scans_u32 _).bind htimes

end Scans

/-! ## Reading within the bytes -/

/-- A reader that ended within the bytes started there, and does the same
when more bytes follow. -/
def Local (r : Cursor ε α) : Prop :=
  ∀ b ext pos a n, r b pos = .ok a (some n) → n ≤ b.length →
    (∃ m, pos = some m ∧ m ≤ n) ∧ r (b ++ ext) pos = .ok a (some n)

section Local

variable {r : Cursor ε α} {f : α → Cursor ε β}

theorem local_pure (a : α) : Local (pure a : Cursor ε α) := by
  intro b ext pos c n h _
  obtain ⟨rfl, rfl⟩ := pure_ok.mp h
  exact ⟨⟨n, rfl, Nat.le_refl n⟩, rfl⟩

theorem Local.bind (hr : Local r) (hf : ∀ a, Local (f a)) : Local (r >>= f) := by
  intro b ext pos c n h hn
  obtain ⟨a, mid, hra, hfa⟩ := bind_ok.mp h
  obtain ⟨⟨m, rfl, hmn⟩, hext⟩ := hf a b ext mid c n hfa hn
  obtain ⟨⟨k, rfl, hkm⟩, hrext⟩ := hr b ext pos a m hra (Nat.le_trans hmn hn)
  exact ⟨⟨k, rfl, Nat.le_trans hkm hmn⟩, bind_ok.mpr ⟨a, some m, hrext, hext⟩⟩

theorem byteAt_append_ext {b ext : List UInt8} {n k : Nat} (h : n + k < b.length) :
    byteAt (b ++ ext) (some n) k = byteAt b (some n) k :=
  List.getElem?_append_left h

theorem local_u8 : Local (u8 : Cursor ε _) := by
  intro b ext pos a n h hn
  cases pos with
  | none => cases h
  | some m =>
    cases h
    refine ⟨⟨m, rfl, Nat.le_succ m⟩, ?_⟩
    unfold u8
    rw [byteAt_append_ext hn]
    rfl

theorem local_word (k : Nat) : Local (word k : Cursor ε _) := by
  intro b ext pos a n h hn
  cases pos with
  | none => cases h
  | some m =>
    cases h
    refine ⟨⟨m, rfl, Nat.le_add_right m k⟩, ?_⟩
    have hbytes : ∀ i ∈ List.range k, (byteAt (b ++ ext) (some m) i).getD 0
        = (byteAt b (some m) i).getD 0 := by
      intro i hi
      have hik := List.mem_range.mp hi
      have hmk : m + k ≤ b.length := hn
      rw [byteAt_append_ext (by omega)]
    unfold word
    rw [List.map_congr_left hbytes]
    rfl

theorem local_u16 : Local (u16 : Cursor ε _) := (local_word 2).bind fun _ => local_pure _

theorem local_u32 : Local (u32 : Cursor ε _) := (local_word 4).bind fun _ => local_pure _

theorem local_u64 : Local (u64 : Cursor ε _) :=
  local_u32.bind fun _ => local_u32.bind fun _ => local_pure _

theorem local_bytes (e : ε) (n : Nat) : Local (bytes e n) := by
  intro b ext pos a q h hq
  unfold bytes at h ⊢
  cases pos with
  | none =>
    dsimp only at h
    split_ifs at h
    cases h
  | some m =>
    dsimp only at h ⊢
    split_ifs at h with hlen
    cases h
    have hmn : m + n ≤ b.length := hq
    have htake : ((b ++ ext).drop m).take n = (b.drop m).take n := by
      rw [List.drop_append_of_le_length (by omega), List.take_append_of_le_length]
      rw [List.length_drop]
      omega
    rw [htake, if_pos hlen]
    exact ⟨⟨m, rfl, Nat.le_add_right m n⟩, rfl⟩

theorem local_times (hr : Local r) (n : Nat) : Local (times n r) := by
  induction n with
  | zero => exact local_pure []
  | succ n ih => exact hr.bind fun _ => ih.bind fun _ => local_pure _

theorem local_counted (hr : Local r) : Local (counted r) :=
  local_u32.bind fun _ => local_times hr _

theorem Local.ite {p : Prop} [Decidable p] {r r' : Cursor ε α} (h : Local r) (h' : Local r') :
    Local (if p then r else r') := by
  split
  · exact h
  · exact h'

end Local

/-! ## Reading all -/

section Whole

variable {r : Cursor ε α} {bs : List UInt8} {a : α}

theorem whole_ok {trailing : ε} {b : List UInt8} :
    whole trailing r b = .ok a ↔ r b (some 0) = .ok a (some b.length) := by
  unfold whole
  cases r b (some 0) with
  | ok c pos =>
    constructor
    · intro h
      dsimp only at h
      split_ifs at h with hpos
      cases h
      rw [hpos]
    · intro h
      cases h
      exact if_pos rfl
  | error e pos =>
    constructor
    · intro h
      cases h
    · intro h
      cases h

theorem Scans.run (h : Scans r bs a) (ext : List UInt8) :
    r (bs ++ ext) (some 0) = .ok a (some bs.length) := by
  have hrun := h [] ext
  rwa [List.nil_append, List.length_nil, Nat.zero_add] at hrun

theorem Scans.whole (h : Scans r bs a) (trailing : ε) :
    Cursor.whole trailing r bs = .ok a := by
  have hrun := h.run []
  rw [List.append_nil] at hrun
  exact whole_ok.mpr hrun

/-- Nothing may follow. -/
theorem Scans.whole_append (h : Scans r bs a) (trailing : ε) {ext : List UInt8}
    (hext : ext ≠ []) : Cursor.whole trailing r (bs ++ ext) = .error trailing := by
  have hpos := List.length_pos_iff.mpr hext
  unfold Cursor.whole
  rw [h.run ext]
  dsimp only
  rw [if_neg]
  intro heq
  have hlen := Option.some.inj heq
  rw [List.length_append] at hlen
  omega

/-- Nothing may be missing: what ends within a part of the bytes would end
there on all of them. -/
theorem Scans.whole_prefix (h : Scans r bs a) (hr : Local r) (trailing : ε)
    {b ext : List UInt8} (hbs : bs = b ++ ext) (hext : ext ≠ []) :
    ∃ e, Cursor.whole trailing r b = .error e := by
  cases hb : Cursor.whole trailing r b with
  | error e => exact ⟨e, rfl⟩
  | ok c =>
    have hpos := List.length_pos_iff.mpr hext
    obtain ⟨-, hall⟩ := hr b ext (some 0) c b.length (whole_ok.mp hb) (Nat.le_refl _)
    have hrun := h.run []
    rw [List.append_nil, hbs, hall] at hrun
    injection hrun with _ hlen
    rw [Option.some.injEq, List.length_append] at hlen
    omega

end Whole

end Cursor

end TicTacToe.Lib
