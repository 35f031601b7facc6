/-
TicTacToe.Web.Da — the server's game and account endpoints
(`node/src/da.rs`) and what the browser fetches from them
(`web/src/da.ts`).

The handlers read the latest body of a resource and the status index, each
on its own; nothing says that an id the index lists has a body, or that it
is in the bucket it is listed under. `games_listed` is that it is so at any
moment of a node that follows a rollup, so that a client which pages with
the last id it saw gets the stored games of a status. `listed_games_resolve`
is that what a page names can be asked for.

`faster_hex::hex_decode` is `hexDecode` here; all that is used of it is
that it reads what `hex_string` wrote.

No `sorry`, no `axiom`, no `native_decide`.
-/
import TicTacToe.Index.Reorg
import TicTacToe.Invariants.Binding
import TicTacToe.Web.Match

namespace TicTacToe.Web

open Lib

/-! ## The handlers -/

/-- A JSON body, or a status code. -/
inductive Response (α : Type) where
  | json (body : α)
  | badRequest
  | notFound
  | internalServerError

def Response.status {α : Type} : Response α → Nat
  | .json _ => 200
  | .badRequest => 400
  | .notFound => 404
  | .internalServerError => 500

/-- What the handlers read: the latest data of each resource, the index and the
versions of the canonical chain. -/
structure DaState where
  store : Store
  index : IndexStore
  isCanonical : UInt64 → Bool

structure GamesQuery where
  status : Option String
  after : Option String
  limit : Option Nat

/-- `AccountResponse`; only `exists` when absent. -/
structure DaAccount where
  «exists» : Bool
  balance : Option Nat
  gamesStarted : Option Nat
  gamesWon : Option Nat
  gamesFinished : Option Nat
  lockHash : Option String

/-- The value of the `status` parameter. -/
def statusParam : GameStatus → String
  | .open => "open"
  | .playing => "playing"
  | .finished => "finished"

/-- Open games where nothing is asked for. -/
def statusOfParam : Option String → Option GameStatus
  | none => some .open
  | some status =>
    if status = "open" then some .open
    else if status = "playing" then some .playing
    else if status = "finished" then some .finished
    else none

namespace DaState

section Handlers

variable (hexDecode : String → Option ResourceId) (da : DaState)

/-- `latest_body`: the latest committed data, if there is any. -/
def latestBody (id : ResourceId) : Option (List UInt8) :=
  if (da.store id).isEmpty then none else some (da.store id)

/-- The game JSON of an id under the hex it is shown with. -/
def gameAt (idHex : String) (id : ResourceId) : Option DaGame :=
  (da.latestBody id).bind fun bytes =>
    (GameBody.fromBytes bytes).toOption.map (gameJson idHex)

/-- `get_games`. -/
def getGames (q : GamesQuery) : Except Fault (Response (List DaGame)) :=
  match statusOfParam q.status with
  | none => .ok .badRequest
  | some status => do
    let after := q.after.bind hexDecode
    let limit := min (q.limit.getD 50) 200
    let ids ← scanGamesByStatus da.index da.isCanonical status after limit
    return .json (ids.filterMap fun id => da.gameAt (hexString id.val) id)

/-- `get_game`. -/
def getGame (idHex : String) : Response DaGame :=
  match hexDecode idHex with
  | none => .badRequest
  | some id =>
    match da.gameAt idHex id with
    | some json => .json json
    | none => .notFound

/-- `get_account`. -/
def getAccount (B : Battery) (idHex : String) : Response DaAccount :=
  match hexDecode idHex with
  | none => .badRequest
  | some id =>
    match da.latestBody id with
    | none => .json ⟨false, none, none, none, none, none⟩
    | some bytes =>
      match UserBody.fromBytes B bytes with
      | .ok body =>
        .json ⟨true, some body.balance.toNat, some body.gamesStarted.toNat,
          some body.gamesWon.toNat, some body.gamesFinished.toNat,
          some (hexString body.initialLockHash.val)⟩
      | .error _ => .internalServerError

end Handlers

end DaState

/-! ## The client -/

/-- `get`: throws unless the answer is ok. -/
def get {α : Type} (path : String) : Response α → Except Fault α
  | .json body => .ok body
  | resp => .error (.decode (path ++ ": HTTP " ++ toString resp.status))

def gamesPath (status : GameStatus) (after : Option String) (limit : Option Nat) : String :=
  "/api/games?status=" ++ statusParam status ++ (after.map fun a => "&after=" ++ a).getD "" ++
    (limit.map fun n => "&limit=" ++ toString n).getD ""

/-- `fetchGames`, with the 64-bit numbers as served: beyond 2^53 the browser has
the nearest double in their place. -/
def fetchGames (hexDecode : String → Option ResourceId) (da : DaState) (status : GameStatus)
    (after : Option String) (limit : Option Nat) : Except Fault (List DaGame) := do
  let resp ← da.getGames hexDecode ⟨some (statusParam status), after, limit⟩
  get (gamesPath status after limit) resp

/-! ## Pages -/

section Pages

variable {hexDecode : String → Option ResourceId} {da : DaState} {status : GameStatus}

theorem statusOfParam_param (status : GameStatus) :
    statusOfParam (some (statusParam status)) = some status := by
  cases status <;> decide

/-- A fetch is a scan, shown. -/
theorem fetchGames_eq (after : Option String) (limit : Option Nat) :
    fetchGames hexDecode da status after limit =
      (scanGamesByStatus da.index da.isCanonical status (after.bind hexDecode)
        (min (limit.getD 50) 200)).map
        (List.filterMap fun id => da.gameAt (hexString id.val) id) := by
  unfold fetchGames DaState.getGames
  simp only [statusOfParam_param]
  cases scanGamesByStatus da.index da.isCanonical status (after.bind hexDecode)
    (min (limit.getD 50) 200) <;> rfl

theorem DaState.gameAt_eq_some {id : ResourceId} {idHex : String} {game : DaGame} :
    da.gameAt idHex id = some game ↔
      ∃ g, GameBody.fromBytes (da.store id) = .ok g ∧ game = gameJson idHex g := by
  unfold DaState.gameAt DaState.latestBody
  cases hbytes : da.store id with
  | nil =>
    refine iff_of_false (by simp) ?_
    rintro ⟨g, hg, -⟩
    cases hg
  | cons b bytes =>
    simp only [List.isEmpty_cons, Bool.false_eq_true, if_false, Option.bind_some]
    cases GameBody.fromBytes (b :: bytes) with
    | error e => simp [Except.toOption]
    | ok g => simp [Except.toOption, eq_comm]

theorem forall₂_filterMap {α β : Type} {R : α → β → Prop} {f : α → Option β} {l : List α}
    (h : ∀ a ∈ l, ∃ b, f a = some b ∧ R a b) : List.Forall₂ R l (l.filterMap f) := by
  induction l with
  | nil => exact .nil
  | cons a l ih =>
    obtain ⟨b, hb, hR⟩ := h a List.mem_cons_self
    rw [List.filterMap_cons_some hb]
    exact .cons hR (ih fun a' ha' => h a' (List.mem_cons_of_mem a ha'))

end Pages

section Listing

variable {B : Battery} {P : DepositPolicy} {T : ExitBackend} {chain : BatchChain}
  {index : IndexStore} {isCanonical : UInt64 → Bool} {status : GameStatus}

/-- Where the versions that stand are canonical, a status lists its stored games. -/
theorem mem_gamesByStatus_tip (h : ServesChain chain index)
    (hcan : ∀ b ∈ chain, isCanonical b.version = true) {id : ResourceId} :
    id ∈ gamesByStatus index isCanonical status ↔
      ∃ g, GameBody.fromBytes (chain.tip.store id) = .ok g ∧ statusOf g.state = status := by
  have hbucket : bucketOf (chain.body id) = some status ↔
      ∃ g, GameBody.fromBytes (chain.tip.store id) = .ok g ∧ statusOf g.state = status := by
    unfold bucketOf
    rw [Option.map_eq_some_iff]
    simp only [BatchChain.body_eq_some]
  rw [mem_gamesByStatus, ← hbucket, ← h.status]
  constructor
  · rintro ⟨version, hval, -⟩
    rw [hval]
    rfl
  · intro hsome
    obtain ⟨val, hval⟩ := Option.isSome_iff_exists.mp hsome
    obtain ⟨b, hb, -, rfl⟩ := h.standing id status val hval
    exact ⟨b.version, hval, hcan b hb⟩

/-- **The games of a status.** At any moment of a node that follows a rollup
through batches and reorgs, a client that asks for games of a status,
behind the id of the last game it got, until a page is empty, gets the
games stored in that state, each once and by id, with their bodies. -/
theorem games_listed (h : Indexed B P T chain index) (isCanonical : UInt64 → Bool)
    (hcan : ∀ b ∈ chain, isCanonical b.version = true) {hexDecode : String → Option ResourceId}
    (hhex : ∀ id : ResourceId, hexDecode (hexString id.val) = some id) (status : GameStatus)
    {limit : Option Nat} (hlimit : limit ≠ some 0) :
    ∃ (ids : List ResourceId) (games : List DaGame),
      (ids.Pairwise fun a b => a.val < b.val) ∧
      (∀ id g, GameBody.fromBytes (chain.tip.store id) = .ok g → statusOf g.state = status →
        id ∈ ids) ∧
      List.Forall₂ (fun id game => ∃ g, GameBody.fromBytes (chain.tip.store id) = .ok g ∧
        statusOf g.state = status ∧ game = gameJson (hexString id.val) g) ids games ∧
      ∀ fuel, ids.length < fuel →
        readAll .diverged (fun after => fetchGames hexDecode
          ⟨chain.tip.store, index, isCanonical⟩ status (after.map DaGame.id) limit) fuel none
          = .ok games := by
  have hserves := h.serves
  have hasc : (gamesByStatus index isCanonical status).Pairwise fun g h =>
      gameStatusKey status g < gameStatusKey status h :=
    listing_ascending fun e g hg => (gameOfStatus_eq_some.mp hg).1
  have hshown : ∀ id ∈ gamesByStatus index isCanonical status, ∃ game,
      DaState.gameAt ⟨chain.tip.store, index, isCanonical⟩ (hexString id.val) id = some game ∧
      ∃ g, GameBody.fromBytes (chain.tip.store id) = .ok g ∧ statusOf g.state = status ∧
        game = gameJson (hexString id.val) g := by
    intro id hid
    obtain ⟨g, hg, hs⟩ := (mem_gamesByStatus_tip hserves hcan).mp hid
    exact ⟨_, DaState.gameAt_eq_some.mpr ⟨g, hg, rfl⟩, g, hg, hs, rfl⟩
  refine ⟨gamesByStatus index isCanonical status, _,
    hasc.imp fun hlt => gameStatusKey_lt_iff.mp hlt,
    fun id g hg hs => (mem_gamesByStatus_tip hserves hcan).mpr ⟨g, hg, hs⟩,
    forall₂_filterMap hshown, fun fuel hfuel => ?_⟩
  have hpage : ∀ after limit, scanGamesByStatus index isCanonical status after limit =
      .ok ((behind (fun g h => gameStatusKey status g < gameStatusKey status h)
        (gamesByStatus index isCanonical status) after).take limit) :=
    scanGamesByStatus_ok hserves.keyed
  have hall : readAll .diverged (fun after => scanGamesByStatus index isCanonical status after
      (min (limit.getD 50) 200)) fuel none = .ok (gamesByStatus index isCanonical status) := by
    refine readAll_ok (fun a b hab hba => Std.lt_irrefl (Std.lt_trans hab hba)) ?_ hasc
      (fun after => hpage after _) hfuel
    cases limit with
    | none => decide
    | some n =>
      have hn : n ≠ 0 := fun e => hlimit (by rw [e])
      simp only [Option.getD_some]
      omega
  have hread : readAll .diverged (fun after => fetchGames hexDecode
        ⟨chain.tip.store, index, isCanonical⟩ status (after.map DaGame.id) limit) fuel none =
      (readAll .diverged (fun after => scanGamesByStatus index isCanonical status after
        (min (limit.getD 50) 200)) fuel none).map (List.filterMap fun id =>
          DaState.gameAt ⟨chain.tip.store, index, isCanonical⟩ (hexString id.val) id) := by
    refine readAll_filterMap (fun after entries hentries id hid => ?_) (fetchGames_eq none limit)
      (fun id game hgame => ?_) fuel
    · have hscan := hpage after (min (limit.getD 50) 200)
      rw [hscan] at hentries
      cases hentries
      obtain ⟨game, hgame, -⟩ := hshown id (List.mem_filter.mp (List.mem_of_mem_take hid)).1
      exact Option.isSome_iff_exists.mpr ⟨game, hgame⟩
    · obtain ⟨g, -, rfl⟩ := DaState.gameAt_eq_some.mp hgame
      show fetchGames _ _ _ (some (hexString id.val)) limit = _
      rw [fetchGames_eq, Option.bind_some, hhex]
  rw [hread, hall]
  rfl

end Listing

namespace Sample

def hexNibble (c : Char) : Option Nat :=
  if 48 ≤ c.toNat ∧ c.toNat ≤ 57 then some (c.toNat - 48)
  else if 97 ≤ c.toNat ∧ c.toNat ≤ 102 then some (c.toNat - 87)
  else if 65 ≤ c.toNat ∧ c.toNat ≤ 70 then some (c.toNat - 55)
  else none

def hexBytes : List Char → Option (List UInt8)
  | [] => some []
  | [_] => none
  | a :: b :: rest => do
    let high ← hexNibble a
    let low ← hexNibble b
    return UInt8.ofNat (16 * high + low) :: (← hexBytes rest)

/-- A decoder of 64 digits of either case. -/
def hexDecode (s : String) : Option ResourceId :=
  (hexBytes s.toList).bind fun bytes => if h : bytes.length = 32 then some ⟨bytes, h⟩ else none

theorem hexNibble_hexDigit {n : Nat} (hn : n < 16) : hexNibble (hexDigit n) = some n := by
  have hall : ∀ x : Fin 16, hexNibble (hexDigit x.val) = some x.val := by decide
  exact hall ⟨n, hn⟩

theorem hexDecode_hexString (id : ResourceId) : hexDecode (hexString id.val) = some id := by
  have hbytes : ∀ bs : List UInt8,
      hexBytes (bs.flatMap fun b => [hexDigit (b.toNat / 16), hexDigit (b.toNat % 16)])
        = some bs := by
    intro bs
    induction bs with
    | nil => rfl
    | cons b bs ih =>
      have hb := b.toNat_lt
      have hhigh := hexNibble_hexDigit (n := b.toNat / 16) (by omega)
      have hlow := hexNibble_hexDigit (n := b.toNat % 16) (by omega)
      simp only [List.flatMap_cons, List.cons_append, List.nil_append, hexBytes, hhigh, hlow, ih,
        Option.bind_eq_bind, Option.bind_some, Nat.div_add_mod, UInt8.ofNat_toNat]
      rfl
  unfold hexDecode hexString
  rw [String.toList_ofList, hbytes, Option.bind_some, dif_pos id.property]

end Sample

/-- The game is listed still when the batch that finished it is taken back. -/
theorem games_listed_reorged :
    ∃ (index : IndexStore) (ids : List ResourceId) (games : List DaGame),
      Sample.gameId ∈ ids ∧
      ∀ fuel, ids.length < fuel → readAll .diverged (fun after => fetchGames Sample.hexDecode
        ⟨Sample.opened.store, index, fun version => version == 1⟩ .playing (after.map DaGame.id)
        (some 1)) fuel none = .ok games := by
  obtain ⟨index, h⟩ := Sample.indexed_opened
  obtain ⟨g, hg, hplaying⟩ := Sample.opened_game
  have hlimit : some 1 ≠ some 0 := by decide
  obtain ⟨ids, games, -, hids, -, hread⟩ := games_listed h (fun version => version == 1)
    (Sample.versions_singleton _ _) Sample.hexDecode_hexString .playing hlimit
  rw [Sample.tip_singleton] at hids hread
  exact ⟨index, ids, games, hids Sample.gameId g hg (by rw [hplaying]; rfl), hread⟩

section Resolving

variable {B : Battery} {P : DepositPolicy} {R : Rollup} {index : IndexStore}
  {isCanonical : UInt64 → Bool} {hexDecode : String → Option ResourceId}

/-- A user that is stored has an account. -/
theorem getAccount_user (hhex : ∀ id : ResourceId, hexDecode (hexString id.val) = some id)
    {id : ResourceId} {u : UserBody} (hu : UserBody.fromBytes B (R.store id) = .ok u) :
    ∃ account, DaState.getAccount hexDecode ⟨R.store, index, isCanonical⟩ B (hexString id.val)
      = .json account ∧ account.«exists» = true := by
  have hne : (R.store id).isEmpty = false := by
    cases hbytes : R.store id with
    | nil =>
      rw [hbytes] at hu
      cases hu
    | cons b bytes => rfl
  unfold DaState.getAccount DaState.latestBody
  simp [hhex, hne, hu]

theorem joined_of_joiner {g : GameBody} {log : List PlyEvent} (h : GameRun g log)
    {j : ResourceId} (hj : g.joiner = some j) : g.state ≠ .open := by
  cases gameRun_phase h with
  | started mark u _ hs _ => exact hs.state_ne_open
  | unjoined mark hu _ =>
    have hnone : g.joiner = none := by
      rw [hu.eq_fresh]
      rfl
    rw [hnone] at hj
    cases hj

/-- **What a page names can be asked for.** In every reachable rollup, whatever
the index says, each game of an answered page is the one its id is served
with, and its players have accounts. -/
theorem listed_games_resolve (hR : Reachable B P R)
    (hhex : ∀ id : ResourceId, hexDecode (hexString id.val) = some id) {q : GamesQuery}
    {games : List DaGame}
    (hq : DaState.getGames hexDecode ⟨R.store, index, isCanonical⟩ q = .ok (.json games))
    {game : DaGame} (hgame : game ∈ games) :
    DaState.getGame hexDecode ⟨R.store, index, isCanonical⟩ game.id = .json game ∧
      ∀ player, player = game.players.1 ∨ some player = game.players.2 →
        ∃ account, DaState.getAccount hexDecode ⟨R.store, index, isCanonical⟩ B player
          = .json account ∧ account.«exists» = true := by
  obtain ⟨id, g, hg, rfl⟩ : ∃ id g, GameBody.fromBytes (R.store id) = .ok g ∧
      game = gameJson (hexString id.val) g := by
    unfold DaState.getGames at hq
    cases hstatus : statusOfParam q.status with
    | none =>
      simp only [hstatus] at hq
      cases hq
    | some status =>
      simp only [hstatus] at hq
      cases hscan : scanGamesByStatus index isCanonical status (q.after.bind hexDecode)
          (min (q.limit.getD 50) 200) with
      | error e =>
        simp only [hscan] at hq
        cases hq
      | ok ids =>
        simp only [hscan] at hq
        cases hq
        obtain ⟨id, -, hat⟩ := List.mem_filterMap.mp hgame
        obtain ⟨g, hg, he⟩ := DaState.gameAt_eq_some.mp hat
        exact ⟨id, g, hg, he⟩
  have hrun := hR.refines.1
  have hbound := bound_of_run hrun
  have hslot : R.store.ledger B id = .game g := Slot.parse_eq_game.mpr hg
  refine ⟨?_, ?_⟩
  · have hat : DaState.gameAt ⟨R.store, index, isCanonical⟩ (hexString id.val) id
        = some (gameJson (hexString id.val) g) := DaState.gameAt_eq_some.mpr ⟨g, hg, rfl⟩
    show DaState.getGame hexDecode _ (hexString id.val) = _
    unfold DaState.getGame
    simp only [hhex, hat]
  · rintro player (rfl | hjoiner)
    · obtain ⟨u, _, hu, -⟩ := hbound.game hslot
      exact getAccount_user hhex (Slot.parse_eq_user.mp hu)
    · obtain ⟨j, hj, rfl⟩ := Option.map_eq_some_iff.mp hjoiner.symm
      obtain ⟨log, hlog⟩ := sound_of_run hrun id g hslot
      obtain ⟨u, hu⟩ := hbound.joiner hslot (joined_of_joiner hlog hj)
      rw [GameBody.joiner_eq_some hj] at hu
      exact getAccount_user hhex (Slot.parse_eq_user.mp hu)

end Resolving

namespace Sample

/-- A server of the opened game. -/
def serving : DaState where
  store := TicTacToe.Sample.opened.store
  index := (∅ : IndexStore).commit (indexDiff TicTacToe.Sample.gameId none
    (some (TicTacToe.Sample.opened.store TicTacToe.Sample.gameId)) 1)
  isCanonical := fun version => version == 1

/-- What the server's answer to a query is made of, if it is a list. -/
def listed (q : GamesQuery) : List DaGame :=
  match serving.getGames hexDecode q with
  | .ok (.json games) => games
  | _ => []

theorem listed_playing :
    serving.getGames hexDecode ⟨some "playing", none, none⟩
        = .ok (.json (listed ⟨some "playing", none, none⟩)) ∧
      (listed ⟨some "playing", none, none⟩).map (fun game => (game.id, game.players))
        = [(hexString TicTacToe.Sample.gameId.val, hexString TicTacToe.Sample.aliceId.val,
          some (hexString TicTacToe.Sample.bobId.val))] := by
  have hlisted : (listed ⟨some "playing", none, none⟩).map (fun game => (game.id, game.players))
      = [(hexString TicTacToe.Sample.gameId.val, hexString TicTacToe.Sample.aliceId.val,
        some (hexString TicTacToe.Sample.bobId.val))] := by
    decide +kernel
  refine ⟨?_, hlisted⟩
  cases h : serving.getGames hexDecode ⟨some "playing", none, none⟩ with
  | error e =>
    rw [listed, h] at hlisted
    cases hlisted
  | ok resp =>
    cases resp with
    | json games => rw [listed, h]
    | badRequest | notFound | internalServerError =>
      rw [listed, h] at hlisted
      cases hlisted

end Sample

/-- The opened game is listed, and both of its players have accounts. -/
theorem listed_games_resolve_opened :
    ∃ game, Sample.serving.getGames Sample.hexDecode ⟨some "playing", none, none⟩
        = .ok (.json [game]) ∧
      game.id = hexString TicTacToe.Sample.gameId.val ∧
      Sample.serving.getGame Sample.hexDecode game.id = .json game ∧
      ∃ alice bob,
        Sample.serving.getAccount Sample.hexDecode .plain
          (hexString TicTacToe.Sample.aliceId.val) = .json alice ∧ alice.«exists» = true ∧
        Sample.serving.getAccount Sample.hexDecode .plain
          (hexString TicTacToe.Sample.bobId.val) = .json bob ∧ bob.«exists» = true := by
  obtain ⟨hgames, hnames⟩ := Sample.listed_playing
  obtain ⟨game, hone, hname⟩ := List.map_eq_singleton_iff.mp hnames
  obtain ⟨hid, hplayers⟩ := Prod.mk.inj hname
  rw [hone] at hgames
  obtain ⟨hgame, haccounts⟩ := listed_games_resolve TicTacToe.Sample.reachable_opened
    Sample.hexDecode_hexString hgames (List.mem_singleton_self game)
  rw [hplayers] at haccounts
  obtain ⟨alice, halice, hexists⟩ := haccounts _ (.inl rfl)
  obtain ⟨bob, hbob, hexists'⟩ := haccounts _ (.inr rfl)
  exact ⟨game, hgames, hid, hgame, alice, bob, halice, hexists, hbob, hexists'⟩

end TicTacToe.Web
