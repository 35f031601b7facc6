/-
TicTacToe.Lib.Reader — self-advancing byte readers, and what it means for
a reader and a writer to be one format.

A `Reader` consumes a prefix of its buffer or fails. `Reads r enc` says
that `r` accepts exactly the buffers that start with `enc a` for some
`a`, returning `a` and the rest: both halves of a round trip in one
equivalence, so a record's format follows from its fields' formats by
rewriting with `ok_bind` and the `Reads` facts, in either direction.

Nothing here names the program; the error type and the errors themselves
are parameters.

No `sorry`, no `axiom`, no `native_decide`.
-/
import Mathlib.Data.Fintype.Vector
import Mathlib.Data.FinEnum
import Mathlib.Data.UInt
import Mathlib.Data.List.OfFn
import TicTacToe.Lib.Wp
import TicTacToe.Lib.LittleEndian

namespace TicTacToe.Lib

variable {ε α β : Type}

/-- A fixed-size array of bytes. -/
abbrev Bytes (n : Nat) := { bs : List UInt8 // bs.length = n }

instance (n : Nat) : Finite (Bytes n) := inferInstanceAs (Finite (List.Vector UInt8 n))

/-- Classical on purpose: a sum over all byte strings is never evaluated. -/
noncomputable instance (n : Nat) : Fintype (Bytes n) := Fintype.ofFinite _

/-- `bytes`, cut or filled with zeros to `n`. -/
def padTo (n : Nat) (bytes : List UInt8) : Bytes n :=
  ⟨(bytes ++ List.replicate n 0).take n, by simp⟩

theorem padTo_append {n : Nat} (v : Bytes n) (rest : List UInt8) : padTo n (v.val ++ rest) = v := by
  refine Subtype.ext ?_
  show ((v.val ++ rest) ++ List.replicate n 0).take n = v.val
  rw [List.append_assoc]
  exact List.take_left' v.property

abbrev Reader (ε α : Type) := EStateM ε (List UInt8) α

namespace Reader

/-- The next `n` bytes, or `e` when fewer are left. -/
def take (e : ε) (n : Nat) : Reader ε (List UInt8) := fun buf =>
  if buf.length < n then .error e buf else .ok (buf.take n) (buf.drop n)

def byte (e : ε) : Reader ε UInt8 := fun buf =>
  match buf with
  | [] => .error e []
  | b :: rest => .ok b rest

def array (e : ε) (n : Nat) : Reader ε (Bytes n) := fun buf =>
  if h : buf.length < n then .error e buf
  else .ok ⟨buf.take n, by rw [List.length_take]; omega⟩ (buf.drop n)

def u32 (e : ε) : Reader ε UInt32 := do
  return UInt32.ofNat (leNat (← take e 4))

def u64 (e : ε) : Reader ε UInt64 := do
  return UInt64.ofNat (leNat (← take e 8))

/-- Everything that is left. -/
def rest : Reader ε (List UInt8) := fun buf => .ok buf []

/-- `n` items, as a function of their position. -/
def fn (item : Reader ε α) : (n : Nat) → Reader ε (Fin n → α)
  | 0 => return Fin.elim0
  | n + 1 => do
    let a ← item
    let f ← fn item n
    return Fin.cons a f

/-- `n` items in a row; `item` threads a state of its own. -/
def manyLoop {S : Type} (item : S → Reader ε (α × S)) : Nat → S → Reader ε (List α)
  | 0, _ => return []
  | n + 1, st => do
    let (a, st') ← item st
    let as ← manyLoop item n st'
    return a :: as

/-- A `u32` count followed by that many items. -/
def many {S : Type} (e : ε) (st : S) (item : S → Reader ε (α × S)) : Reader ε (List α) := do
  let n ← u32 e
  manyLoop item n.toNat st

/-- A `u32` count followed by that many items, each on its own. -/
def vec (e : ε) (item : Reader ε α) : Reader ε (List α) :=
  many e () fun _ => do
    let a ← item
    return (a, ())

/-- A whole buffer, read to its end. -/
def whole (r : Reader ε α) (buf : List UInt8) : Option α :=
  match r buf with
  | .ok a [] => some a
  | _ => none

end Reader

/-! ## Runs -/

theorem ok_bind {σ : Type} {x : EStateM ε σ α} {f : α → EStateM ε σ β} {s s' : σ} {b : β} :
    (x >>= f) s = .ok b s' ↔ ∃ a s₁, x s = .ok a s₁ ∧ f a s₁ = .ok b s' := by
  simp only [bind, EStateM.bind]
  cases h : x s with
  | ok a s₁ => simp
  | error e s₁ => simp

theorem error_bind {σ : Type} {x : EStateM ε σ α} {f : α → EStateM ε σ β} {s s' : σ} {e : ε} :
    (x >>= f) s = .error e s' ↔
      x s = .error e s' ∨ ∃ a s₁, x s = .ok a s₁ ∧ f a s₁ = .error e s' := by
  simp only [bind, EStateM.bind]
  cases h : x s with
  | ok a s₁ => simp
  | error e s₁ => simp

theorem ok_pure {σ : Type} {a b : α} {s s' : σ} :
    (pure a : EStateM ε σ α) s = .ok b s' ↔ a = b ∧ s = s' := by
  simp [pure, EStateM.pure]

theorem ok_throw {σ : Type} {e : ε} {b : α} {s s' : σ} :
    (throw e : EStateM ε σ α) s = .ok b s' ↔ False := by
  constructor
  · intro h
    cases h
  · exact False.elim

theorem length_manyLoop {S : Type} {item : S → Reader ε (α × S)} {n : Nat} {st : S}
    {buf rest : List UInt8} {as : List α} (h : Reader.manyLoop item n st buf = .ok as rest) :
    as.length = n := by
  induction n generalizing st buf as with
  | zero =>
    obtain ⟨rfl, -⟩ := ok_pure.mp h
    rfl
  | succ n ih =>
    obtain ⟨p, _, -, h⟩ := ok_bind.mp h
    obtain ⟨as', _, hrest, h⟩ := ok_bind.mp h
    obtain ⟨rfl, rfl⟩ := ok_pure.mp h
    rw [List.length_cons, ih hrest]

/-- When each item is checked against a state that remembers the last one,
the items are ordered: `ok st a` says that `a` may follow `st`. -/
theorem pairwise_manyLoop {S : Type} {item : S → Reader ε (α × S)} (ok : S → α → Prop)
    {r : α → α → Prop}
    (hitem : ∀ {st st' buf rest a}, item st buf = .ok (a, st') rest →
      ok st a ∧ ∀ b, ok st' b → ok st b ∧ r a b)
    {n : Nat} {st : S} {buf rest : List UInt8} {as : List α}
    (h : Reader.manyLoop item n st buf = .ok as rest) :
    as.Pairwise r ∧ ∀ a ∈ as, ok st a := by
  induction n generalizing st buf as with
  | zero =>
    obtain ⟨rfl, -⟩ := ok_pure.mp h
    exact ⟨List.Pairwise.nil, fun _ ha => absurd ha List.not_mem_nil⟩
  | succ n ih =>
    obtain ⟨⟨a, st'⟩, _, hone, h⟩ := ok_bind.mp h
    obtain ⟨as', _, hrest, h⟩ := ok_bind.mp h
    obtain ⟨rfl, rfl⟩ := ok_pure.mp h
    obtain ⟨hok, hnext⟩ := hitem hone
    obtain ⟨hpair, hall⟩ := ih hrest
    refine ⟨List.pairwise_cons.mpr ⟨fun b hb => (hnext b (hall b hb)).2, hpair⟩, fun b hb => ?_⟩
    rcases List.mem_cons.mp hb with rfl | hb
    · exact hok
    · exact (hnext b (hall b hb)).1

/-- A vector that was read has a count that fits. -/
theorem length_vec_lt {e : ε} {item : Reader ε α} {buf rest : List UInt8} {as : List α}
    (h : Reader.vec e item buf = .ok as rest) : as.length < 2 ^ 32 := by
  obtain ⟨n, _, -, hloop⟩ := ok_bind.mp h
  rw [length_manyLoop hloop]
  exact n.toNat_lt

/-! ## Formats -/

/-- `r` reads exactly what `enc` writes. -/
def Reads (r : Reader ε α) (enc : α → List UInt8) : Prop :=
  ∀ buf a rest, r buf = .ok a rest ↔ buf = enc a ++ rest

theorem reads_byte (e : ε) : Reads (Reader.byte e) (fun b => [b]) := by
  intro buf a rest
  cases buf with
  | nil => simp [Reader.byte]
  | cons b bs => simp [Reader.byte]

theorem take_ok {e : ε} {n : Nat} {buf bs rest : List UInt8} :
    Reader.take e n buf = .ok bs rest ↔ bs.length = n ∧ buf = bs ++ rest := by
  unfold Reader.take
  split
  · rename_i h
    constructor
    · intro h'; cases h'
    · rintro ⟨rfl, rfl⟩; simp at h
  · rename_i h
    rw [EStateM.Result.ok.injEq]
    constructor
    · rintro ⟨rfl, rfl⟩
      exact ⟨by rw [List.length_take]; omega, (List.take_append_drop n buf).symm⟩
    · rintro ⟨rfl, rfl⟩
      exact ⟨List.take_left, List.drop_left⟩

theorem reads_array (e : ε) (n : Nat) :
    Reads (Reader.array e n) (fun v => v.val) := by
  intro buf a rest
  unfold Reader.array
  split
  · rename_i h
    constructor
    · intro h'; cases h'
    · rintro rfl
      rw [List.length_append, a.property] at h
      omega
  · rw [EStateM.Result.ok.injEq]
    constructor
    · rintro ⟨rfl, rfl⟩
      exact (List.take_append_drop n buf).symm
    · rintro rfl
      exact ⟨Subtype.ext (List.take_left' a.property), List.drop_left' a.property⟩

theorem reads_u32 (e : ε) : Reads (Reader.u32 e) le32 := by
  intro buf a rest
  simp only [Reader.u32, ok_bind, ok_pure, take_ok]
  constructor
  · rintro ⟨bs, r, ⟨hl, rfl⟩, rfl, rfl⟩
    rw [le32_ofNat_leNat hl]
  · rintro rfl
    exact ⟨le32 a, rest, ⟨length_le32 a, rfl⟩, ofNat_leNat_le32 a, rfl⟩

theorem reads_u64 (e : ε) : Reads (Reader.u64 e) le64 := by
  intro buf a rest
  simp only [Reader.u64, ok_bind, ok_pure, take_ok]
  constructor
  · rintro ⟨bs, r, ⟨hl, rfl⟩, rfl, rfl⟩
    rw [le64_ofNat_leNat hl]
  · rintro rfl
    exact ⟨le64 a, rest, ⟨length_le64 a, rfl⟩, ofNat_leNat_le64 a, rfl⟩

theorem reads_fn {item : Reader ε α} {enc : α → List UInt8} (h : Reads item enc) (n : Nat) :
    Reads (Reader.fn item n) (fun f => (List.ofFn f).flatMap enc) := by
  induction n with
  | zero =>
    intro buf f rest
    simp only [Reader.fn, ok_pure, List.ofFn_zero, List.flatMap_nil, List.nil_append]
    exact ⟨fun hf => hf.2, fun hf => ⟨funext fun i => i.elim0, hf⟩⟩
  | succ n ih =>
    intro buf f rest
    simp only [Reader.fn, ok_bind, ok_pure, h _ _ _, ih _ _ _, List.ofFn_succ, List.flatMap_cons]
    constructor
    · rintro ⟨a, _, rfl, g, _, rfl, rfl, rfl⟩
      simp
    · intro hbuf
      refine ⟨f 0, _, by rw [hbuf, List.append_assoc], fun i => f i.succ, rest, rfl, ?_, rfl⟩
      funext i
      refine Fin.cases ?_ (fun j => ?_) i <;> simp

/-- A reader that maps the bytes of another one through a decoding. -/
theorem reads_decode {r : Reader ε α} {enc : α → List UInt8} (h : Reads r enc)
    {dec : α → Option β} {enc' : β → α} (hdec : ∀ a b, dec a = some b ↔ a = enc' b) (e : ε) :
    Reads (do let a ← r; okOr e (dec a)) (fun b => enc (enc' b)) := by
  intro buf b rest
  simp only [ok_bind, h _ _ _]
  constructor
  · rintro ⟨a, s₁, rfl, hb⟩
    cases hd : dec a with
    | none => rw [hd] at hb; exact (ok_throw.mp hb).elim
    | some b' =>
      rw [hd] at hb
      obtain ⟨rfl, rfl⟩ := ok_pure.mp hb
      rw [(hdec a b').mp hd]
  · rintro rfl
    refine ⟨enc' b, rest, rfl, ?_⟩
    rw [(hdec _ b).mpr rfl]
    exact ok_pure.mpr ⟨rfl, rfl⟩

/-- A whole buffer of a format is the encoding of what was read. -/
theorem Reads.whole_eq_some {r : Reader ε α} {enc : α → List UInt8} (h : Reads r enc)
    {buf : List UInt8} {a : α} : Reader.whole r buf = some a ↔ buf = enc a := by
  have hr := h buf a []
  rw [List.append_nil] at hr
  rw [← hr]
  unfold Reader.whole
  cases r buf with
  | error e rest => simp
  | ok b rest =>
    cases rest with
    | nil => simp
    | cons c cs => simp

/-! ## Reading back what was written -/

/-- `r` reads back what `enc` wrote of a value in `P`. -/
def ReadsBack (P : α → Prop) (r : Reader ε α) (enc : α → List UInt8) : Prop :=
  ∀ a rest, P a → r (enc a ++ rest) = .ok a rest

section ReadsBack

variable {P : α → Prop} {r : Reader ε α} {enc : α → List UInt8}

theorem Reads.readsBack (h : Reads r enc) : ReadsBack (fun _ => True) r enc :=
  fun a rest _ => (h _ a rest).mpr rfl

theorem bind_of_ok {σ : Type} {x : EStateM ε σ α} {f : α → EStateM ε σ β} {s s' : σ} {a : α}
    (h : x s = .ok a s') : (x >>= f) s = f a s' := by
  simp only [bind, EStateM.bind, h]

/-- The bytes written for a list: a `u32` count, then the items. -/
def encVec (enc : α → List UInt8) (as : List α) : List UInt8 :=
  le32 (UInt32.ofNat as.length) ++ as.flatMap enc

theorem ReadsBack.manyLoop (h : ReadsBack P r enc) {as : List α} (has : ∀ a ∈ as, P a)
    (rest : List UInt8) :
    Reader.manyLoop (fun _ : Unit => do let a ← r; return (a, ())) as.length ()
      (as.flatMap enc ++ rest) = .ok as rest := by
  induction as with
  | nil => rfl
  | cons a as ih =>
    have hitem : (do let a ← r; return (a, ()) : Reader ε (α × Unit))
        (enc a ++ (as.flatMap enc ++ rest)) = .ok (a, ()) (as.flatMap enc ++ rest) := by
      rw [bind_of_ok (h a _ (has a List.mem_cons_self))]
      rfl
    rw [List.length_cons, List.flatMap_cons, List.append_assoc]
    unfold Reader.manyLoop
    rw [bind_of_ok hitem]
    dsimp only
    rw [bind_of_ok (ih fun b hb => has b (List.mem_cons_of_mem a hb))]
    rfl

theorem ReadsBack.vec (h : ReadsBack P r enc) (e : ε) :
    ReadsBack (fun as => as.length < 2 ^ 32 ∧ ∀ a ∈ as, P a) (Reader.vec e r) (encVec enc) := by
  rintro as rest ⟨hlen, has⟩
  have hcount : (UInt32.ofNat as.length).toNat = as.length := by
    rw [UInt32.toNat_ofNat', Nat.mod_eq_of_lt hlen]
  have hn := (reads_u32 e).readsBack (UInt32.ofNat as.length) (as.flatMap enc ++ rest) trivial
  unfold Reader.vec Reader.many encVec
  rw [List.append_assoc, bind_of_ok hn, hcount]
  exact h.manyLoop has rest

theorem ReadsBack.whole (h : ReadsBack P r enc) {a : α} (ha : P a) :
    Reader.whole r (enc a) = some a := by
  have hr := h a [] ha
  rw [List.append_nil] at hr
  simp only [Reader.whole, hr]

end ReadsBack

/-! ## Formats on a domain -/

/-- `r` reads exactly what `enc` writes of the values in `P`, and nothing else. -/
def ReadsOnly (P : α → Prop) (r : Reader ε α) (enc : α → List UInt8) : Prop :=
  ∀ buf a rest, r buf = .ok a rest ↔ P a ∧ buf = enc a ++ rest

section ReadsOnly

variable {P : α → Prop} {r : Reader ε α} {enc : α → List UInt8}

theorem ReadsOnly.ok (h : ReadsOnly P r enc) {buf rest : List UInt8} {a : α} :
    r buf = .ok a rest ↔ P a ∧ buf = enc a ++ rest := h buf a rest

/-- `n` items read are `n` values of the domain, their bytes in a row. -/
theorem ReadsOnly.manyLoop (h : ReadsOnly P r enc) {n : Nat} {buf rest : List UInt8}
    {as : List α} :
    Reader.manyLoop (fun _ : Unit => do let a ← r; return (a, ())) n () buf = .ok as rest ↔
      as.length = n ∧ (∀ a ∈ as, P a) ∧ buf = as.flatMap enc ++ rest := by
  induction n generalizing buf as with
  | zero =>
    simp only [Reader.manyLoop, ok_pure, List.length_eq_zero_iff]
    constructor
    · rintro ⟨rfl, rfl⟩
      exact ⟨rfl, fun _ ha => absurd ha List.not_mem_nil, rfl⟩
    · rintro ⟨rfl, -, rfl⟩
      exact ⟨rfl, rfl⟩
  | succ n ih =>
    simp only [Reader.manyLoop, ok_bind, ok_pure, h.ok]
    constructor
    · rintro ⟨p, _, ⟨a, _, ⟨ha, rfl⟩, rfl, rfl⟩, as, _, has, rfl, rfl⟩
      obtain ⟨rfl, hP, rfl⟩ := ih.mp has
      refine ⟨rfl, fun b hb => ?_, by rw [List.flatMap_cons, List.append_assoc]⟩
      rcases List.mem_cons.mp hb with rfl | hb
      · exact ha
      · exact hP b hb
    · rintro ⟨hlen, hP, rfl⟩
      cases as with
      | nil => cases hlen
      | cons a as =>
        refine ⟨(a, ()), as.flatMap enc ++ rest, ⟨a, _, ⟨hP a List.mem_cons_self, ?_⟩, rfl, rfl⟩,
          as, rest, ih.mpr ⟨Nat.succ.inj hlen, fun b hb => hP b (List.mem_cons_of_mem a hb), rfl⟩,
          rfl, rfl⟩
        rw [List.flatMap_cons, List.append_assoc]

/-- A loop that failed read some of the items, and failed at the next. -/
theorem ReadsOnly.manyLoop_error (h : ReadsOnly P r enc) {n : Nat} {buf rest : List UInt8} {e : ε}
    (hrun : Reader.manyLoop (fun _ : Unit => do let a ← r; return (a, ())) n () buf
      = .error e rest) :
    ∃ (done : List α) (mid : List UInt8), done.length < n ∧ (∀ a ∈ done, P a) ∧
      buf = done.flatMap enc ++ mid ∧ r mid = .error e rest := by
  induction n generalizing buf with
  | zero => cases hrun
  | succ n ih =>
    unfold Reader.manyLoop at hrun
    obtain hitem | ⟨⟨a, st⟩, s₁, hitem, hrest⟩ := error_bind.mp hrun
    · obtain hr | ⟨a, s₁, -, hpure⟩ := error_bind.mp hitem
      · exact ⟨[], buf, Nat.succ_pos n, fun _ ha => absurd ha List.not_mem_nil, rfl, hr⟩
      · cases hpure
    · obtain ⟨a', s₂, ha, hpure⟩ := ok_bind.mp hitem
      obtain ⟨hpair, rfl⟩ := ok_pure.mp hpure
      cases hpair
      obtain ⟨hP, rfl⟩ := h.ok.mp ha
      dsimp only at hrest
      obtain hloop | ⟨as, s₃, -, hpure⟩ := error_bind.mp hrest
      · obtain ⟨done, mid, hlen, hdone, rfl, hmid⟩ := ih hloop
        refine ⟨a :: done, mid, Nat.succ_lt_succ hlen, ?_, ?_, hmid⟩
        · exact List.forall_mem_cons.mpr ⟨hP, hdone⟩
        · rw [List.flatMap_cons, List.append_assoc]
      · cases hpure

/-- Reading a counted list gives the empty list on a zero count only. -/
theorem many_nil_ok {S : Type} {e : ε} {st : S} {item : S → Reader ε (α × S)}
    {buf rest : List UInt8} :
    Reader.many e st item buf = .ok [] rest ↔ buf = le32 0 ++ rest := by
  simp only [Reader.many, ok_bind, reads_u32 e _ _ _]
  constructor
  · rintro ⟨n, _, rfl, h⟩
    cases hn : n.toNat with
    | zero =>
      rw [hn] at h
      obtain ⟨-, rfl⟩ := ok_pure.mp h
      rw [UInt32.toNat_inj.mp (hn.trans UInt32.toNat_zero.symm)]
    | succ k =>
      rw [hn] at h
      obtain ⟨p, _, _, h⟩ := ok_bind.mp h
      obtain ⟨as, _, _, h⟩ := ok_bind.mp h
      cases (ok_pure.mp h).1
  · rintro rfl
    exact ⟨0, rest, rfl, rfl⟩

/-- A counted list is a format on the lists whose length a `u32` holds. -/
theorem ReadsOnly.vec (h : ReadsOnly P r enc) (e : ε) :
    ReadsOnly (fun as => as.length < 2 ^ 32 ∧ ∀ a ∈ as, P a) (Reader.vec e r) (encVec enc) := by
  intro buf as rest
  simp only [Reader.vec, Reader.many, ok_bind, reads_u32 e _ _ _, h.manyLoop, encVec]
  constructor
  · rintro ⟨n, _, rfl, hlen, hP, rfl⟩
    refine ⟨⟨hlen ▸ n.toNat_lt, hP⟩, ?_⟩
    rw [hlen, UInt32.ofNat_toNat, List.append_assoc]
  · rintro ⟨⟨hlen, hP⟩, rfl⟩
    have hcount : (UInt32.ofNat as.length).toNat = as.length := by
      rw [UInt32.toNat_ofNat', Nat.mod_eq_of_lt hlen]
    exact ⟨UInt32.ofNat as.length, as.flatMap enc ++ rest, List.append_assoc _ _ _, hcount.symm,
      hP, rfl⟩

end ReadsOnly

/-! ## What a decoder guarantees -/

/-- Every exit of `r`: a value in `P` with what is left of the buffer a
suffix of it, or an error in `ok`. -/
def Decodes (ok : ε → Prop) (r : Reader ε α) (P : α → Prop) : Prop :=
  ∀ buf, wp r (fun a rest => P a ∧ rest <:+ buf) (fun e _ => ok e) buf

section Decodes

variable {ok : ε → Prop} {P : α → Prop} {Q : β → Prop} {e : ε}

theorem decodes_pure {a : α} (h : P a) : Decodes ok (pure a : Reader ε α) P :=
  fun buf => ⟨h, List.suffix_refl buf⟩

theorem decodes_throw (h : ok e) : Decodes ok (throw e : Reader ε α) P := fun _ => h

theorem Decodes.bind {r : Reader ε α} {f : α → Reader ε β} (hr : Decodes ok r P)
    (hf : ∀ a, P a → Decodes ok (f a) Q) : Decodes ok (r >>= f) Q := by
  intro buf
  rw [wp_bind]
  refine wp_mono (hr buf) (fun a rest h => ?_) (fun _ _ h => h)
  exact wp_mono (hf a h.1 rest) (fun b rest' h' => ⟨h'.1, h'.2.trans h.2⟩) (fun _ _ h' => h')

theorem Decodes.ite {c : Prop} [Decidable c] {r r' : Reader ε α} (hr : c → Decodes ok r P)
    (hr' : ¬ c → Decodes ok r' P) : Decodes ok (if c then r else r') P := by
  by_cases h : c
  · rw [if_pos h]
    exact hr h
  · rw [if_neg h]
    exact hr' h

theorem Decodes.mono {P' : α → Prop} {r : Reader ε α} (hr : Decodes ok r P)
    (h : ∀ a, P a → P' a) : Decodes ok r P' :=
  fun buf => wp_mono (hr buf) (fun a _ ha => ⟨h a ha.1, ha.2⟩) (fun _ _ he => he)

theorem Decodes.error {r : Reader ε α} (h : Decodes ok r P) {buf rest : List UInt8} {e : ε}
    (he : r buf = .error e rest) : ok e := by
  have hbuf := h buf
  unfold wp at hbuf
  rw [he] at hbuf
  exact hbuf

theorem decodes_byte (h : ok e) : Decodes ok (Reader.byte e) (fun _ => True) := by
  intro buf
  cases buf with
  | nil => exact h
  | cons b bs => exact ⟨trivial, List.suffix_cons b bs⟩

theorem decodes_take {n : Nat} (h : ok e) :
    Decodes ok (Reader.take e n) (fun bs => bs.length = n) := by
  intro buf
  simp only [wp, Reader.take]
  by_cases hlen : buf.length < n
  · rw [if_pos hlen]
    exact h
  · rw [if_neg hlen]
    exact ⟨by rw [List.length_take]; omega, List.drop_suffix n buf⟩

theorem decodes_array {n : Nat} (h : ok e) :
    Decodes ok (Reader.array e n) (fun _ => True) := by
  intro buf
  simp only [wp, Reader.array]
  by_cases hlen : buf.length < n
  · rw [dif_pos hlen]
    exact h
  · rw [dif_neg hlen]
    exact ⟨trivial, List.drop_suffix n buf⟩

theorem decodes_u32 (h : ok e) : Decodes ok (Reader.u32 e) (fun _ => True) :=
  (decodes_take h).bind fun _ _ => decodes_pure trivial

theorem decodes_u64 (h : ok e) : Decodes ok (Reader.u64 e) (fun _ => True) :=
  (decodes_take h).bind fun _ _ => decodes_pure trivial

theorem decodes_manyLoop {S : Type} {item : S → Reader ε (α × S)}
    (h : ∀ st, Decodes ok (item st) (fun p => P p.1)) (n : Nat) (st : S) :
    Decodes ok (Reader.manyLoop item n st) (fun as => ∀ a ∈ as, P a) := by
  induction n generalizing st with
  | zero => exact decodes_pure fun _ ha => absurd ha List.not_mem_nil
  | succ n ih =>
    refine (h st).bind fun p hp => (ih p.2).bind fun as has => decodes_pure ?_
    intro a ha
    rcases List.mem_cons.mp ha with rfl | ha
    · exact hp
    · exact has a ha

theorem decodes_many {S : Type} {item : S → Reader ε (α × S)} (he : ok e)
    (h : ∀ st, Decodes ok (item st) (fun p => P p.1)) (st : S) :
    Decodes ok (Reader.many e st item) (fun as => ∀ a ∈ as, P a) :=
  (decodes_u32 he).bind fun n _ => decodes_manyLoop h n.toNat st

end Decodes

end TicTacToe.Lib
