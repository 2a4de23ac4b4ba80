/- GID: Sqe/TrinoCompat/Paging
   generality: G
   digest: Pages pulled from a result stream on demand, and what a client gets of them. -/

import Mathlib.Data.List.Range
import Sqe.Library.Transition

/-!
One query, its cursor and one client. Requests hold the cursor's lock, so they are handled one
after another; the handling of a request stands at an await whenever another event can come in
between. A dropped handling loses its local buffers and leaves the cursor as it is.
-/

set_option autoImplicit false

namespace Sqe.TrinoCompat.Paging

open List Option

variable {α : Type}

inductive Item (α : Type)
  | batch (rows : List α)
  | error

structure ReadyPage (α : Type) where
  token : Nat
  rows : List α
  processedRows : Nat
  isLast : Bool
  deriving DecidableEq

structure ResultCursor (α : Type) where
  stream : Option (List (Item α))
  carry : Option (List α)
  pageSize : Nat
  nextToken : Nat
  served : Option (ReadyPage α)
  rowsServed : Nat

def ResultCursor.new (stream : List (Item α)) (pageSize : Nat) : ResultCursor α :=
  ⟨some stream, none, max pageSize 1, 0, none, 0⟩

structure Buffer (α : Type) where
  batches : List (List α)
  rows : Nat

inductive Located (α : Type)
  | page (page : ReadyPage α)
  | outOfRange (expected : Nat)
  | pull

def ResultCursor.locate (c : ResultCursor α) (token : Nat) : Located α :=
  match c.served with
  | some page =>
    if page.token = token then .page page
    else if page.isLast || token ≠ c.nextToken then .outOfRange c.nextToken
    else .pull
  | none => if token ≠ c.nextToken then .outOfRange c.nextToken else .pull

/-- Append the batch to the page and carry what overruns it. -/
def ResultCursor.takeInto (c : ResultCursor α) (page : Buffer α) (batch : List α) :
    ResultCursor α × Buffer α :=
  let room := c.pageSize - page.rows
  if batch.length ≤ room then (c, ⟨page.batches ++ [batch], page.rows + batch.length⟩)
  else ({ c with carry := some (batch.drop room) },
    ⟨page.batches ++ [batch.take room], page.rows + room⟩)

/-- `pull_page`, up to its loop. -/
def ResultCursor.startPage (c : ResultCursor α) : ResultCursor α × Buffer α :=
  match c.carry with
  | none => (c, ⟨[], 0⟩)
  | some carry => ({ c with carry := none } : ResultCursor α).takeInto ⟨[], 0⟩ carry

inductive Handling (α : Type)
  | idle
  /-- It awaits the stream. -/
  | pulling (page : Buffer α)
  /-- It awaits the conversion of the page. -/
  | converting (page : Buffer α) (isLast : Bool)

/-- The top of the loop of `pull_page`. -/
def ResultCursor.loopTop (c : ResultCursor α) (page : Buffer α) : Handling α :=
  if (decide (c.pageSize ≤ page.rows) && c.carry.isSome) || c.stream.isNone then
    .converting page (c.stream.isNone && c.carry.isNone)
  else .pulling page

/-- The loop goes on with what the stream yielded; `none` is its error. -/
def ResultCursor.pulled (c : ResultCursor α) (page : Buffer α) :
    List (Item α) → Option (ResultCursor α × Buffer α)
  | [] => some ({ c with stream := none }, page)
  | .error :: _ => none
  | .batch batch :: rest =>
    let c := { c with stream := some rest }
    some (if c.pageSize ≤ page.rows then
      (if batch.length > 0 then { c with carry := some batch } else c, page)
      else c.takeInto page batch)

/-- The page is retained and the token advances. -/
def ResultCursor.serve (c : ResultCursor α) (page : Buffer α) (isLast : Bool) :
    ResultCursor α × ReadyPage α :=
  let rows := page.batches.flatten
  let ready := ⟨c.nextToken, rows, c.rowsServed + rows.length, isLast⟩
  ({ c with rowsServed := ready.processedRows, nextToken := c.nextToken + 1, served := some ready },
    ready)

structure State (α : Type) where
  source : List (Item α)
  /-- It is released on a failure. -/
  cursor : Option (ResultCursor α)
  handling : Handling α
  failed : Bool
  /-- The pages the client has, and the token it asked for last. -/
  received : List (ReadyPage α)
  requested : Option Nat
  produced : List (ReadyPage α)

inductive Event
  /-- The client asks for a page; an answer that needs no pull may get lost. -/
  | request (token : Nat) (arrives : Bool)
  | next
  /-- The conversion and the reservation come back, and the answer may get lost. -/
  | converted (converts reserves arrives : Bool)
  /-- The handling is dropped at its await. -/
  | drop
  | cancel

/-- A page that comes again takes the place of the one before. -/
def receive (received : List (ReadyPage α)) (page : ReadyPage α) : List (ReadyPage α) :=
  match received.getLast? with
  | none => [page]
  | some last => if last.token = page.token then received.dropLast ++ [page] else received ++ [page]

variable (s : State α)

def State.answer (page : ReadyPage α) (arrives : Bool) : State α :=
  if arrives then { s with received := receive s.received page } else s

def State.fail : State α :=
  { s with cursor := none, handling := .idle, failed := true }

/-- The token after the last page received, or the one asked for last. -/
def State.mayRequest (token : Nat) : Bool :=
  token = (s.received.getLast?.map fun p => p.token + 1).getD 0 || s.requested = some token

def step : Event → Option (State α)
  | .request token arrives =>
    if !s.mayRequest token then none
    else match s.handling with
      | .idle =>
        let s := { s with requested := some token }
        match s.cursor with
        | none => some s
        | some c => match c.locate token with
            | .page page => some (s.answer page arrives)
            | .outOfRange _ => some s
            | .pull => some { s with
                cursor := some c.startPage.1
                handling := c.startPage.1.loopTop c.startPage.2 }
      | _ => none
  | .next => match s.handling, s.cursor with
      | .pulling page, some c => match c.pulled page (c.stream.getD []) with
          | none => some s.fail
          | some (c, page) => some { s with cursor := some c, handling := c.loopTop page }
      | _, _ => none
  | .converted converts reserves arrives => match s.handling, s.cursor with
      | .converting page isLast, some c =>
        if !converts || !reserves then some s.fail
        else some (({ s with
          cursor := some (c.serve page isLast).1
          handling := .idle
          produced := s.produced ++ [(c.serve page isLast).2] } : State α).answer
            (c.serve page isLast).2 arrives)
      | _, _ => none
  | .drop => match s.handling with
      | .idle => none
      | _ => some { s with handling := .idle }
  | .cancel => some s.fail

def Start : Prop :=
  ∃ source pageSize, s = ⟨source, some (.new source pageSize), .idle, false, [], none, []⟩

def rowsOf : List (Item α) → List α
  | [] => []
  | .error :: _ => []
  | .batch rows :: rest => rows ++ rowsOf rest

def errorFree : List (Item α) → Bool
  | [] => true
  | .error :: _ => false
  | .batch _ :: rest => errorFree rest

def rowsIn (pages : List (ReadyPage α)) : List α := pages.flatMap ReadyPage.rows

/-- The rows that a dropped handling would lose. -/
def Handling.page : Handling α → Buffer α
  | .idle => ⟨[], 0⟩
  | .pulling page => page
  | .converting page _ => page

/-- A handling is dropped only before it has taken rows over from the carry or the stream. -/
def Careful : Event → Prop
  | .drop => s.handling.page.rows = 0
  | _ => True

variable {c : ResultCursor α} {token : Nat}

theorem served_of_locate {page : ReadyPage α}
    (found : c.locate token = .page page) : c.served = some page := by
  unfold ResultCursor.locate at found
  cases served : c.served with
  | none => simp only [served] at found; split at found <;> cases found
  | some p =>
    simp only [served] at found
    split at found
    · rw [Located.page.inj found]
    · split at found <;> cases found

theorem pull_of_locate (pulls : c.locate token = .pull) :
    token = c.nextToken ∧ ∀ p, c.served = some p → p.isLast = false := by
  unfold ResultCursor.locate at pulls
  cases served : c.served with
  | none =>
    simp only [served] at pulls
    split at pulls
    · cases pulls
    next same => exact ⟨by simpa using same, nofun⟩
  | some p =>
    simp only [served] at pulls
    split at pulls
    · cases pulls
    · split at pulls
      · cases pulls
      next goes =>
        simp only [ne_eq, Bool.or_eq_true, decide_eq_true_eq, not_or, Bool.not_eq_true,
          not_not] at goes
        exact ⟨goes.2, fun q same => some.inj same ▸ goes.1⟩

/-- The rows that are on the way: in the buffer, carried, or still to come. -/
def held (c : ResultCursor α) (page : Buffer α) : List α :=
  page.batches.flatten ++ c.carry.getD [] ++ rowsOf (c.stream.getD [])

structure BufferSound (c : ResultCursor α) (page : Buffer α) : Prop where
  counted : page.rows = page.batches.flatten.length
  /-- Rows are carried only past a full page. -/
  full : c.carry.isSome = true → c.pageSize ≤ page.rows

structure Same (c c' : ResultCursor α) : Prop where
  nextToken : c'.nextToken = c.nextToken
  served : c'.served = c.served

/-- What one call of `take_into` does, with nothing carried before. -/
structure Taken (c : ResultCursor α) (page : Buffer α) (batch : List α)
    (result : ResultCursor α × Buffer α) : Prop where
  same : Same c result.1
  stream : result.1.stream = c.stream
  rows : result.2.batches.flatten ++ result.1.carry.getD [] = page.batches.flatten ++ batch
  sound : BufferSound result.1 result.2

theorem taken {page : Buffer α} (batch : List α) (empty : c.carry = none)
    (counted : page.rows = page.batches.flatten.length) :
    Taken c page batch (c.takeInto page batch) := by
  unfold ResultCursor.takeInto
  dsimp only
  split
  next fits =>
    refine ⟨⟨rfl, rfl⟩, rfl, ?_, ?_, ?_⟩
    · simp [empty]
    · simp [counted]
    · simp [empty]
  next overruns =>
    refine ⟨⟨rfl, rfl⟩, rfl, ?_, ?_, fun _ => ?_⟩
    · simp
    · simp only [flatten_append, flatten_cons, flatten_nil, append_nil,
        length_append, length_take, counted]
      omega
    · dsimp only
      omega

theorem startPage_spec :
    Same c c.startPage.1 ∧ held c.startPage.1 c.startPage.2 = held c ⟨[], 0⟩ ∧
      c.startPage.1.stream = c.stream ∧ BufferSound c.startPage.1 c.startPage.2 := by
  unfold ResultCursor.startPage
  cases carried : c.carry with
  | none => exact ⟨⟨rfl, rfl⟩, rfl, rfl, rfl, by simp [carried]⟩
  | some carry =>
    have result : Taken { c with carry := none } ⟨[], 0⟩ carry _ := taken carry rfl rfl
    refine ⟨⟨result.same.nextToken, result.same.served⟩, ?_, result.stream, result.sound⟩
    unfold held
    rw [result.rows, result.stream]
    simp [carried]

theorem pulled_spec {c' : ResultCursor α} {page page' : Buffer α} {items : List (Item α)}
    (sound : BufferSound c page) (empty : c.carry = none) (there : c.stream = some items)
    (went : c.pulled page items = some (c', page')) :
    Same c c' ∧ held c' page' = held c page ∧ BufferSound c' page' ∧
      (errorFree (c'.stream.getD []) = true → errorFree items = true) := by
  cases items with
  | nil =>
    obtain ⟨rfl, rfl⟩ := Prod.mk.inj (some.inj went)
    exact ⟨⟨rfl, rfl⟩, by simp [held, there], ⟨sound.counted, sound.full⟩, id⟩
  | cons item rest =>
    cases item with
    | error => cases went
    | batch batch =>
      have turned := some.inj went
      split at turned
      next full =>
        obtain ⟨rfl, rfl⟩ := Prod.mk.inj turned
        split
        next => exact ⟨⟨rfl, rfl⟩, by simp [held, there, empty, rowsOf],
          ⟨sound.counted, fun _ => full⟩, id⟩
        next none =>
          have nothing : batch = [] := by simpa using none
          exact ⟨⟨rfl, rfl⟩, by simp [held, there, empty, rowsOf, nothing],
            ⟨sound.counted, sound.full⟩, id⟩
      next room =>
        have result := taken (c := { c with stream := some rest }) batch empty sound.counted
        rw [turned] at result
        refine ⟨⟨result.same.nextToken, result.same.served⟩, ?_, result.sound, ?_⟩
        · unfold held
          rw [result.rows, result.stream]
          simp [there, empty, rowsOf]
        · rw [result.stream]
          exact id

def HandlingSound (c : ResultCursor α) : Handling α → Prop
  | .idle => True
  | .pulling page => BufferSound c page ∧ c.carry = none ∧ c.stream.isSome = true
  | .converting page isLast => BufferSound c page ∧ isLast = (c.stream.isNone && c.carry.isNone)

theorem handlingSound_loopTop {page : Buffer α} (sound : BufferSound c page) :
    HandlingSound c (c.loopTop page) ∧ (c.loopTop page).page = page := by
  unfold ResultCursor.loopTop
  split
  · exact ⟨⟨sound, rfl⟩, rfl⟩
  next goes =>
    refine ⟨⟨sound, ?_, ?_⟩, rfl⟩
    · cases carried : c.carry with
      | none => rfl
      | some carry => simp [carried, sound.full] at goes
    · cases there : c.stream with
      | none => simp [there] at goes
      | some items => rfl

def Tokened (pages : List (ReadyPage α)) : Prop :=
  pages.map ReadyPage.token = List.range pages.length

structure CursorSound (c : ResultCursor α) : Prop where
  nextToken : c.nextToken = s.produced.length
  served : c.served = s.produced.getLast?
  conserved : rowsIn s.produced ++ held c s.handling.page = rowsOf s.source
  errors : errorFree (c.stream.getD []) = true → errorFree s.source = true
  handling : HandlingSound c s.handling

structure Sound : Prop where
  tokens : Tokened s.produced
  cursor : ∀ c, s.cursor = some c → CursorSound s c
  released : s.cursor = none → s.handling = .idle
  failed : s.failed = true → s.cursor = none
  within : rowsIn s.produced <+: rowsOf s.source
  last : ∀ p, s.produced.getLast? = some p → p.isLast = true →
    rowsIn s.produced = rowsOf s.source ∧ errorFree s.source = true ∧ s.handling = .idle
  only : ∀ p ∈ s.produced.dropLast, p.isLast = false
  received : s.received = s.produced ∨ s.handling = .idle ∧ s.received = s.produced.dropLast
  requested : ∀ token, s.requested = some token → token ≤ s.received.length

section Tokens

variable {pages : List (ReadyPage α)} {page : ReadyPage α}

theorem tokened_concat : Tokened (pages ++ [page]) ↔ Tokened pages ∧ page.token = pages.length := by
  unfold Tokened
  rw [length_append, length_singleton, range_succ, map_append, map_singleton]
  constructor
  · intro same
    obtain ⟨front, last⟩ := append_inj' same rfl
    exact ⟨front, singleton_inj.mp last⟩
  · rintro ⟨front, last⟩
    rw [front, last]

theorem token_of_getLast? (tokened : Tokened pages) (last : pages.getLast? = some page) :
    page.token + 1 = pages.length := by
  obtain ⟨front, rfl⟩ := getLast?_eq_some_iff.mp last
  rw [(tokened_concat.mp tokened).2, length_append, length_singleton]

theorem nextOf_getLast? (tokened : Tokened pages) :
    (pages.getLast?.map fun p => p.token + 1).getD 0 = pages.length := by
  cases last : pages.getLast? with
  | none => simp [getLast?_eq_none_iff.mp last]
  | some p => exact token_of_getLast? tokened last

theorem receive_new (tokened : Tokened pages) (token : page.token = pages.length) :
    receive pages page = pages ++ [page] := by
  unfold receive
  cases last : pages.getLast? with
  | none => simp [getLast?_eq_none_iff.mp last]
  | some p =>
    have earlier := token_of_getLast? tokened last
    exact if_neg (by omega)

theorem receive_again (last : pages.getLast? = some page) : receive pages page = pages := by
  obtain ⟨-, rfl⟩ := getLast?_eq_some_iff.mp last
  simp [receive]

theorem receive_last {received : List (ReadyPage α)} (tokened : Tokened pages)
    (last : pages.getLast? = some page) (has : received = pages ∨ received = pages.dropLast) :
    receive received page = pages := by
  rcases has with rfl | rfl
  · exact receive_again last
  · obtain ⟨front, rfl⟩ := getLast?_eq_some_iff.mp last
    obtain ⟨before, token⟩ := tokened_concat.mp tokened
    rw [dropLast_concat]
    exact receive_new before token

end Tokens

variable {s s' : State α}

section

variable (sound : Sound s)
include sound

theorem Sound.has : s.received = s.produced ∨ s.received = s.produced.dropLast :=
  sound.received.imp_right And.right

theorem Sound.getLast?_of_isLast {p : ReadyPage α} (member : p ∈ s.produced)
    (isLast : p.isLast = true) : s.produced.getLast? = some p := by
  cases final : s.produced.getLast? with
  | none => simp [getLast?_eq_none_iff.mp final] at member
  | some q =>
    obtain ⟨front, shape⟩ := getLast?_eq_some_iff.mp final
    have only := sound.only
    rw [shape, dropLast_concat] at only
    rw [shape] at member
    rcases mem_append.mp member with early | late
    · rw [only p early] at isLast
      cases isLast
    · rw [mem_singleton.mp late]

theorem Sound.tokened_received : Tokened s.received := by
  rcases sound.has with same | same
  · exact same ▸ sound.tokens
  · rw [same]
    cases last : s.produced.getLast? with
    | none => simpa [getLast?_eq_none_iff.mp last] using sound.tokens
    | some p =>
      obtain ⟨front, shape⟩ := getLast?_eq_some_iff.mp last
      rw [shape, dropLast_concat]
      exact (tokened_concat.mp (shape ▸ sound.tokens)).1

theorem Sound.length_le : s.received.length ≤ s.produced.length := by
  rcases sound.has with same | same
  · rw [same]
  · rw [same, length_dropLast]
    exact Nat.sub_le _ _

theorem Sound.le_of_mayRequest (may : s.mayRequest token = true) : token ≤ s.received.length := by
  simp only [State.mayRequest, nextOf_getLast? sound.tokened_received, Bool.or_eq_true,
    decide_eq_true_eq] at may
  rcases may with rfl | again
  · exact Nat.le_refl _
  · exact sound.requested token again

theorem Sound.fail : Sound s.fail where
  tokens := sound.tokens
  cursor _ there := nomatch there
  released _ := rfl
  failed _ := rfl
  within := sound.within
  last p last isLast := ⟨(sound.last p last isLast).1, (sound.last p last isLast).2.1, rfl⟩
  only := sound.only
  received := sound.received.imp_right fun has => ⟨rfl, has.2⟩
  requested := sound.requested

theorem Sound.ask (may : s.mayRequest token = true) : Sound { s with requested := some token } where
  tokens := sound.tokens
  cursor c there :=
    let this := sound.cursor c there
    ⟨this.nextToken, this.served, this.conserved, this.errors, this.handling⟩
  released := sound.released
  failed := sound.failed
  within := sound.within
  last := sound.last
  only := sound.only
  received := sound.received
  requested _ same := some.inj same ▸ sound.le_of_mayRequest may

theorem Sound.replay {page : ReadyPage α}
    (last : s.produced.getLast? = some page) (arrives : Bool) : Sound (s.answer page arrives) := by
  unfold State.answer
  split
  · have all := receive_last sound.tokens last sound.has
    exact { sound with
      cursor := fun c there =>
        let this := sound.cursor c there
        ⟨this.nextToken, this.served, this.conserved, this.errors, this.handling⟩
      received := .inl all
      requested := fun token asked => by
        rw [all]
        exact (sound.requested token asked).trans sound.length_le }
  · exact sound

theorem Sound.pull (idle : s.handling = .idle)
    (there : s.cursor = some c) (all : s.received = s.produced)
    (more : ∀ p, s.produced.getLast? = some p → p.isLast = false) :
    Sound { s with
      cursor := some c.startPage.1
      handling := c.startPage.1.loopTop c.startPage.2 } := by
  have before := sound.cursor c there
  obtain ⟨same, kept, stream, buffer⟩ := startPage_spec (c := c)
  obtain ⟨under, page⟩ := handlingSound_loopTop buffer
  refine { sound with
    cursor := fun c' there' => ?_
    released := nofun
    failed := fun failed => ?_
    last := fun p last isLast => ?_
    received := .inl all }
  · obtain rfl := some.inj there'
    refine ⟨same.nextToken.trans before.nextToken, same.served.trans before.served, ?_, ?_, under⟩
    · dsimp only
      rw [page, kept]
      simpa [idle, Handling.page] using before.conserved
    · rw [stream]
      exact before.errors
  · rw [sound.failed failed] at there
    cases there
  · rw [more p last] at isLast
    cases isLast

theorem Sound.turn {c' : ResultCursor α} {page page' : Buffer α}
    (under : s.handling = .pulling page) (there : s.cursor = some c)
    (went : c.pulled page (c.stream.getD []) = some (c', page')) :
    Sound { s with cursor := some c', handling := c'.loopTop page' } := by
  have before := sound.cursor c there
  have pulling := before.handling
  rw [under] at pulling
  obtain ⟨buffer, empty, present⟩ := pulling
  obtain ⟨items, stream⟩ := isSome_iff_exists.mp present
  rw [stream, getD_some] at went
  obtain ⟨same, kept, buffer', errors⟩ := pulled_spec buffer empty stream went
  obtain ⟨under', shape⟩ := handlingSound_loopTop buffer'
  refine { sound with
    cursor := fun c'' there' => ?_
    released := nofun
    failed := fun failed => ?_
    last := fun p last isLast => ?_
    received := sound.received.imp_right fun has => ?_ }
  · obtain rfl := some.inj there'
    refine ⟨same.nextToken.trans before.nextToken, same.served.trans before.served, ?_, ?_, under'⟩
    · dsimp only
      rw [shape, kept]
      simpa [under, Handling.page] using before.conserved
    · intro free
      refine before.errors ?_
      rw [stream]
      exact errors free
  · rw [sound.failed failed] at there
    cases there
  · simp [(sound.last p last isLast).2.2] at under
  · simp [has.1] at under

theorem Sound.serve {page : Buffer α} {isLast : Bool}
    (under : s.handling = .converting page isLast) (there : s.cursor = some c) :
    Sound { s with
      cursor := some (c.serve page isLast).1
      handling := .idle
      produced := s.produced ++ [(c.serve page isLast).2] } := by
  have before := sound.cursor c there
  have converting := before.handling
  rw [under] at converting
  obtain ⟨-, ends⟩ := converting
  have conserved := before.conserved
  rw [under] at conserved
  have token : (c.serve page isLast).2.token = s.produced.length := before.nextToken
  have served : rowsIn (s.produced ++ [(c.serve page isLast).2]) =
      rowsIn s.produced ++ page.batches.flatten := by
    simp [rowsIn, ResultCursor.serve]
  have whole : rowsIn (s.produced ++ [(c.serve page isLast).2]) ++
      (c.carry.getD [] ++ rowsOf (c.stream.getD [])) = rowsOf s.source := by
    rw [served, ← conserved]
    simp [held, Handling.page]
  have all : s.received = s.produced := by
    rcases sound.received with all | ⟨idle, -⟩
    · exact all
    · rw [idle] at under
      cases under
  refine
    { tokens := tokened_concat.mpr ⟨sound.tokens, token⟩
      cursor := fun c' there' => ?_
      released := fun _ => rfl
      failed := fun failed => ?_
      within := ⟨_, whole⟩
      last := fun p last isLast => ?_
      only := fun p member => ?_
      received := .inr ⟨rfl, by simpa using all⟩
      requested := sound.requested }
  · obtain rfl := some.inj there'
    refine ⟨by simp [ResultCursor.serve, before.nextToken], by simp [ResultCursor.serve], ?_,
      before.errors, trivial⟩
    simpa [held, Handling.page, ResultCursor.serve] using whole
  · rw [sound.failed failed] at there
    cases there
  · -- the stream is through and nothing is carried
    obtain rfl : (c.serve page _).2 = p := by simpa using last
    have ended : (c.stream.isNone && c.carry.isNone) = true := ends ▸ isLast
    rw [Bool.and_eq_true, isNone_iff_eq_none, isNone_iff_eq_none] at ended
    have free := before.errors
    rw [ended.1] at free whole
    rw [ended.2] at whole
    exact ⟨by simpa [rowsOf] using whole, free rfl, rfl⟩
  · rw [dropLast_concat] at member
    by_contra isLast
    rw [Bool.not_eq_false] at isLast
    have final := sound.getLast?_of_isLast member isLast
    simp [(sound.last p final isLast).2.2] at under

theorem Sound.drop (careful : s.handling.page.rows = 0) : Sound { s with handling := .idle } := by
  refine { sound with
    cursor := fun c there => ?_
    released := fun _ => rfl
    last := fun p last isLast => ⟨(sound.last p last isLast).1, (sound.last p last isLast).2.1, rfl⟩
    received := sound.received.imp_right fun has => ⟨rfl, has.2⟩ }
  have before := sound.cursor c there
  refine ⟨before.nextToken, before.served, ?_, before.errors, trivial⟩
  have empty : s.handling.page.batches.flatten = [] := by
    have under := before.handling
    cases shape : s.handling with
    | idle => rfl
    | pulling page =>
      rw [shape] at under careful
      exact length_eq_zero_iff.mp (under.1.counted ▸ careful)
    | converting page isLast =>
      rw [shape] at under careful
      exact length_eq_zero_iff.mp (under.1.counted ▸ careful)
  have conserved := before.conserved
  rw [held, empty] at conserved
  simpa [held, Handling.page] using conserved

end

theorem sound_step {e : Event} (sound : Sound s) (careful : Careful s e)
    (taken : step s e = some s') : Sound s' := by
  have may {token : Nat} (may : ¬ (!s.mayRequest token) = true) : s.mayRequest token = true := by
    simpa using may
  revert taken
  -- the steps that are taken, in the order of `step`
  fun_cases step s e <;> intro taken
  all_goals first | cases taken | obtain rfl := some.inj taken
  next asks _ _ _ => exact sound.ask (may asks)
  next token arrives asks _ asked c there page found =>
    have last := (sound.cursor c there).served.symm.trans (served_of_locate found)
    exact (sound.ask (may asks)).replay last arrives
  next asks _ _ _ _ _ _ => exact sound.ask (may asks)
  next token arrives asks under asked c there found =>
    obtain ⟨next, more⟩ := pull_of_locate found
    have before := sound.cursor c there
    have all : s.received = s.produced := by
      have asks := sound.le_of_mayRequest (may asks)
      rw [next, before.nextToken] at asks
      rcases sound.has with all | few
      · exact all
      · rw [few, length_dropLast] at asks
        have none : s.produced = [] := length_eq_zero_iff.mp (by omega)
        rw [few, none, dropLast_nil]
    refine (sound.ask (may asks)).pull under there all fun p last => ?_
    exact more p (before.served.trans last)
  · exact sound.fail
  next there under c' page' went => exact sound.turn under there went
  · exact sound.fail
  next arrives _ _ _ there under _ =>
    exact (sound.serve under there).replay (by simp) arrives
  · exact sound.drop careful
  · exact sound.fail

theorem sound_of_start (start : Start s) : Sound s := by
  obtain ⟨-, -, rfl⟩ := start
  refine ⟨rfl, fun c there => ?_, nofun, nofun, nil_prefix, nofun, nofun, .inl rfl, nofun⟩
  obtain rfl := some.inj there
  exact ⟨rfl, rfl, rfl, id, trivial⟩

theorem no_page_after_failure {e : Event} (sound : Sound s) (failed : s.failed = true)
    (taken : step s e = some s') : s'.produced = s.produced ∧ s'.received = s.received := by
  have gone := sound.failed failed
  have idle := sound.released gone
  cases e with
  | request token arrives =>
    dsimp only [step] at taken
    split at taken
    · cases taken
    · simp only [idle, gone, some.injEq] at taken
      exact taken ▸ ⟨rfl, rfl⟩
  | next => simp [step, idle] at taken
  | converted converts reserves arrives => simp [step, idle] at taken
  | drop => simp [step, idle] at taken
  | cancel => exact some.inj taken ▸ ⟨rfl, rfl⟩

/-- If no handling is dropped that has taken rows over, the client has a part of the rows from the
first on, all of them once it has a page marked last, and no page comes after a failure. -/
theorem pages_deliver_rows (reached : Library.Transition.Reachable Start step Careful s) :
    rowsIn s.received <+: rowsOf s.source ∧
    (∀ p ∈ s.received, p.isLast = true →
      rowsIn s.received = rowsOf s.source ∧ errorFree s.source = true) ∧
    (s.failed = true → ∀ e s', step s e = some s' →
      s'.produced = s.produced ∧ s'.received = s.received) := by
  have sound : Sound s := reached.invariant (fun _ => sound_of_start)
    fun _ _ _ sound careful taken => sound_step sound careful taken
  refine ⟨?_, fun p member isLast => ?_, fun failed e s' => no_page_after_failure sound failed⟩
  · rcases sound.has with same | same
    · exact same ▸ sound.within
    · obtain ⟨rest, whole⟩ := dropLast_prefix s.produced
      refine List.IsPrefix.trans ⟨rowsIn rest, ?_⟩ sound.within
      rw [same, rowsIn, rowsIn, ← flatMap_append, whole]
      rfl
  · rcases sound.has with same | same
    · rw [same] at member ⊢
      obtain ⟨all, free, -⟩ := sound.last p (sound.getLast?_of_isLast member isLast) isLast
      exact ⟨all, free⟩
    · rw [same] at member
      rw [sound.only p member] at isLast
      cases isLast

instance (s : State α) : (e : Event) → Decidable (Careful s e)
  | .drop => inferInstanceAs (Decidable (s.handling.page.rows = 0))
  | .request _ _ => .isTrue trivial
  | .next => .isTrue trivial
  | .converted _ _ _ => .isTrue trivial
  | .cancel => .isTrue trivial

/-- Two batches of one row, in pages of two rows. -/
def twoBatches : State Nat :=
  ⟨[.batch [1], .batch [2]], some (.new [.batch [1], .batch [2]] 2), .idle, false, [], none, []⟩

/-- The first request is dropped after the first batch. The page it gets when it asks again is
marked last and has the second row only. -/
theorem dropped_request_loses_row :
    (Library.Transition.follow step (fun _ _ => True) twoBatches
      [.request 0 true, .next, .drop, .request 0 true, .next, .next,
        .converted true true true]).map (fun s => s.received) =
      some [⟨0, [2], 1, true⟩] ∧ rowsOf twoBatches.source = [1, 2] := by
  constructor <;> decide +kernel

/-- Dropped before the stream yields, it loses nothing. -/
theorem early_drop_loses_nothing : ∃ s : State Nat, s.received = [⟨0, [1, 2], 2, true⟩] ∧
    rowsIn s.received <+: rowsOf s.source ∧
    (∀ p ∈ s.received, p.isLast = true →
      rowsIn s.received = rowsOf s.source ∧ errorFree s.source = true) ∧
    (s.failed = true → ∀ e s', step s e = some s' →
      s'.produced = s.produced ∧ s'.received = s.received) := by
  have first : Library.Transition.Reachable Start step Careful twoBatches := .start ⟨_, 2, rfl⟩
  have last := first.follow [.request 0 true, .drop, .request 0 true, .next, .next, .next,
    .converted true true true] rfl
  exact ⟨_, rfl, pages_deliver_rows last⟩

section Sizes

variable {size : Nat} {page : Buffer α}

/-- The page is within the size, and full when it is converted and is not the last. -/
structure Fits (size : Nat) (c : ResultCursor α) (h : Handling α) : Prop where
  sized : c.pageSize = size
  sound : HandlingSound c h
  within : h.page.rows ≤ size
  full : ∀ page, h = .converting page false → size ≤ page.rows

theorem takeInto_within (page : Buffer α) (batch : List α) (within : page.rows ≤ c.pageSize) :
    (c.takeInto page batch).1.pageSize = c.pageSize ∧
      (c.takeInto page batch).2.rows ≤ c.pageSize := by
  unfold ResultCursor.takeInto
  dsimp only
  split <;> exact ⟨rfl, by dsimp only; omega⟩

theorem fits_loopTop (sized : c.pageSize = size) (sound : BufferSound c page)
    (within : page.rows ≤ size) : Fits size c (c.loopTop page) := by
  obtain ⟨under, shape⟩ := handlingSound_loopTop sound
  refine ⟨sized, under, shape.symm ▸ within, fun page' converts => ?_⟩
  -- a page is converted past its size or at the end of the stream; only a full one has a carry
  have full := sound.full
  unfold ResultCursor.loopTop at converts
  split at converts
  next ready =>
    obtain ⟨rfl, more⟩ := Handling.converting.inj converts
    rw [← sized]
    simp only [Bool.or_eq_true, Bool.and_eq_true, decide_eq_true_eq] at ready
    rcases ready with ⟨reached, -⟩ | ended
    · exact reached
    · exact full (by simpa [ended, isSome_iff_ne_none] using more)
  next => cases converts

theorem fits_startPage (sized : c.pageSize = size) :
    Fits size c.startPage.1 (c.startPage.1.loopTop c.startPage.2) := by
  have within : c.startPage.1.pageSize = c.pageSize ∧ c.startPage.2.rows ≤ c.pageSize := by
    unfold ResultCursor.startPage
    cases c.carry with
    | none => exact ⟨rfl, Nat.zero_le _⟩
    | some carry =>
      exact takeInto_within (c := { c with carry := none }) ⟨[], 0⟩ carry (Nat.zero_le _)
  exact fits_loopTop (within.1.trans sized) startPage_spec.2.2.2 (sized ▸ within.2)

theorem fits_pulled {c' : ResultCursor α} {page' : Buffer α} (fits : Fits size c (.pulling page))
    (went : c.pulled page (c.stream.getD []) = some (c', page')) :
    Fits size c' (c'.loopTop page') := by
  obtain ⟨sized, ⟨sound, empty, present⟩, within, -⟩ := fits
  change page.rows ≤ size at within
  obtain ⟨items, stream⟩ := isSome_iff_exists.mp present
  rw [stream, getD_some] at went
  have kept := (pulled_spec sound empty stream went).2.2.1
  have fits : c'.pageSize = size ∧ page'.rows ≤ size := by
    rcases items with _ | ⟨batch | _, rest⟩
    · cases went
      exact ⟨sized, within⟩
    · have turned := some.inj went
      split at turned
      · split at turned <;> cases turned <;> exact ⟨sized, within⟩
      · have taken := takeInto_within (c := { c with stream := some rest }) page batch
          (sized ▸ within)
        rw [turned] at taken
        exact sized ▸ taken
    · cases went
  exact fits_loopTop fits.1 kept fits.2

variable {s s' : State α}

structure Sized (size : Nat) (s : State α) : Prop where
  cursor : ∀ c, s.cursor = some c → Fits size c s.handling
  pages : ∀ p ∈ s.produced, p.rows.length ≤ size ∧ (p.isLast = false → p.rows.length = size)

theorem Sized.idle (sized : Sized size s) : Sized size { s with handling := .idle } where
  cursor c there := ⟨(sized.cursor c there).sized, trivial, Nat.zero_le _, nofun⟩
  pages := sized.pages

theorem Sized.answer (sized : Sized size s) (p : ReadyPage α) (arrives : Bool) :
    Sized size (s.answer p arrives) := by
  unfold State.answer
  split
  · exact ⟨sized.cursor, sized.pages⟩
  · exact sized

theorem sized_step {e : Event} (sized : Sized size s) (taken : step s e = some s') :
    Sized size s' := by
  have failed : Sized size s.fail := ⟨nofun, sized.pages⟩
  have asked token : Sized size { s with requested := some token } := ⟨sized.cursor, sized.pages⟩
  revert taken
  fun_cases step s e <;> intro taken
  all_goals first | cases taken | obtain rfl := some.inj taken
  next => exact asked _
  next page _ => exact (asked _).answer page _
  next => exact asked _
  next there _ =>
    refine ⟨fun c' same => ?_, sized.pages⟩
    obtain rfl := some.inj same
    exact fits_startPage (sized.cursor _ there).sized
  · exact failed
  next there under c' page' went =>
    refine ⟨fun c'' same => ?_, sized.pages⟩
    obtain rfl := some.inj same
    exact fits_pulled (under ▸ sized.cursor _ there) went
  · exact failed
  next arrives page isLast c there under _ =>
    obtain ⟨sized', sound, within, full⟩ := sized.cursor c there
    rw [under] at sound within full
    refine Sized.answer ⟨fun c' same => ?_, forall_mem_append.mpr ⟨sized.pages, ?_⟩⟩ _ arrives
    · obtain rfl := some.inj same
      exact ⟨sized', trivial, Nat.zero_le _, nofun⟩
    · have counted : (c.serve page isLast).2.rows.length = page.rows := sound.1.counted.symm
      refine forall_mem_singleton.mpr ⟨counted ▸ within, fun more => ?_⟩
      obtain rfl : isLast = false := more
      exact counted.trans (Nat.le_antisymm within (full page rfl))
  · exact sized.idle
  · exact failed

/-- However requests are repeated, lost, dropped and cancelled, no page has more rows than the page
size, and only the page marked last has fewer. -/
theorem pages_full (source : List (Item α)) (pageSize : Nat)
    (reached : Library.Transition.Reachable
      (· = ⟨source, some (.new source pageSize), .idle, false, [], none, []⟩) step
      (fun _ _ => True) s) :
    ∀ p ∈ s.produced, p.rows.length ≤ max pageSize 1 ∧
      (p.isLast = false → p.rows.length = max pageSize 1) := by
  have sized : Sized (max pageSize 1) s := by
    refine reached.invariant ?_ fun s e s' sized _ taken => sized_step sized taken
    rintro _ rfl
    refine ⟨fun c there => ?_, nofun⟩
    obtain rfl := some.inj there
    exact ⟨rfl, trivial, Nat.zero_le _, nofun⟩
  exact sized.pages

theorem twoBatches_page : ∃ s : State Nat, s.produced = [⟨0, [1, 2], 2, true⟩] ∧
    ∀ p ∈ s.produced, p.rows.length ≤ 2 ∧ (p.isLast = false → p.rows.length = 2) := by
  have first : Library.Transition.Reachable (· = twoBatches) step (fun _ _ => True) twoBatches :=
    .start rfl
  exact ⟨_, rfl, pages_full _ 2 (first.follow [.request 0 true, .next, .next, .next,
    .converted true true true] rfl)⟩

end Sizes

end Sqe.TrinoCompat.Paging
