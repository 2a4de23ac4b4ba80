/- GID: Sqe/Quack/ResultPaging
   generality: G
   digest: Quack results sent in pages: what a client receives when fetches are dropped. -/

import Sqe.Library.Traverse
import Sqe.Library.Transition
import Mathlib.Data.List.Flatten
import Mathlib.Algebra.Order.Ring.Nat

set_option autoImplicit false

namespace Sqe.Quack.ResultPaging

open List Library.Traverse Library.Transition

variable {Row T E : Type}

/-- A record batch with its Arrow size and the logical types the bridge stamps on its columns:
an ENUM type lists the batch's own dictionary, and none stands for a column it rejects. -/
structure Batch (Row T : Type) where
  rows : List Row
  bytes : Nat
  types : Option (List T)

structure DataChunk (Row T : Type) where
  types : List T
  rows : List Row
  deriving DecidableEq

def recordBatchToDataChunk (batch : Batch Row T) : Option (DataChunk Row T) :=
  batch.types.map fun types => ⟨types, batch.rows⟩

def encodePage (batches : List (Batch Row T)) : Option (List (DataChunk Row T)) :=
  batches.mapM recordBatchToDataChunk

def bytesOf (batches : List (Batch Row T)) : Nat := (batches.map Batch.bytes).sum

/-- The unread rest of a stream: batches and query errors. -/
abbrev Stream (E Row T : Type) := List (Except E (Batch Row T))

structure QueryStream (E Row T : Type) where
  /-- The schema's logical types; none when it has a dictionary column. -/
  schemaTypes : Option (List T)
  batches : Stream E Row T

structure Limits where
  maxResponseBytes : Nat
  maxResultBytes : Nat

inductive Pulled (E Row T : Type)
  | page (batches : List (Batch Row T)) (bytes : Nat) (exhausted : Bool) (rest : Stream E Row T)
  | failed (error : E)
  /-- The handler was dropped at an await, with the batches it had pulled so far. -/
  | dropped (lost : List (Batch Row T)) (rest : Stream E Row T)

def Pulled.push (batch : Batch Row T) : Pulled E Row T → Pulled E Row T
  | .page batches bytes exhausted rest => .page (batch :: batches) bytes exhausted rest
  | .failed error => .failed error
  | .dropped lost rest => .dropped (batch :: lost) rest

/-- The patience is how many items arrive before the handler is dropped, if it ever is. -/
def pullPage (maxResponseBytes : Nat) : Option Nat → Nat → Stream E Row T → Pulled E Row T
  | some 0, _, items => .dropped [] items
  | _, bytes, [] => .page [] bytes true []
  | _, _, .error error :: _ => .failed error
  | patience, bytes, .ok batch :: rest =>
    if maxResponseBytes ≤ bytes + batch.bytes then .page [batch] (bytes + batch.bytes) false rest
    else (pullPage maxResponseBytes (patience.map (· - 1)) (bytes + batch.bytes) rest).push batch

/-- A pull accounts for the items it has taken, in order and with their size. -/
def Pulled.Of (bytes : Nat) (items : Stream E Row T) : Pulled E Row T → Prop
  | .page batches total exhausted rest => items = batches.map .ok ++ rest ∧
      total = bytes + bytesOf batches ∧ (exhausted = true ∨ batches = [] → rest = [])
  | .failed _ => True
  | .dropped lost rest => items = lost.map .ok ++ rest

theorem Pulled.Of.push {bytes : Nat} {items : Stream E Row T} {batch : Batch Row T}
    {pulled : Pulled E Row T} (later : pulled.Of (bytes + batch.bytes) items) :
    (pulled.push batch).Of bytes (.ok batch :: items) := by
  cases pulled with
  | failed error => trivial
  | dropped lost rest => exact congrArg (.ok batch :: ·) later
  | page batches total exhausted rest =>
    obtain ⟨items, sum, done⟩ := later
    refine ⟨congrArg (.ok batch :: ·) items, by simp [sum, bytesOf, Nat.add_assoc], ?_⟩
    exact fun ended => done (ended.imp_right fun none => by cases none)

theorem pullPage_of (maxResponseBytes : Nat) (patience : Option Nat) (bytes : Nat)
    (items : Stream E Row T) : (pullPage maxResponseBytes patience bytes items).Of bytes items := by
  induction items generalizing patience bytes with
  | nil => rcases patience with _ | _ | n <;> simp [pullPage, Pulled.Of, bytesOf]
  | cons item rest ih =>
    by_cases now : patience = some 0
    · simp [now, pullPage, Pulled.Of]
    rcases item with - | -
    · simp [pullPage, Pulled.Of]
    · rw [pullPage.eq_4 _ _ _ _ _ now]
      split
      · simp [Pulled.Of, bytesOf]
      · exact (ih _ _).push

structure PendingResult (E Row T : Type) where
  connectionId : String
  /-- None once the stream has ended. -/
  stream : Option (Stream E Row T)
  bytesSent : Nat

structure PrepareResponse (E Row T : Type) where
  resultTypes : List T
  batches : List (Batch Row T)
  results : List (DataChunk Row T)
  /-- The entry parked under the result's uuid when more has to be fetched. -/
  pending : Option (PendingResult E Row T)

def resultTypesFor (schemaTypes : Option (List T)) (chunks : List (DataChunk Row T)) :
    Option (List T) :=
  schemaTypes <|> chunks.head?.map DataChunk.types

variable (limits : Limits) (client : String) (query : QueryStream E Row T)

/-- None stands for an error response. -/
def handlePrepareRequest : Option (PrepareResponse E Row T) :=
  match pullPage limits.maxResponseBytes none 0 query.batches with
  | .page batches bytes exhausted rest =>
    if limits.maxResultBytes < bytes then none
    else do
      let chunks ← encodePage batches
      let types ← resultTypesFor query.schemaTypes chunks
      return ⟨types, batches, chunks, if exhausted then none else some ⟨client, some rest, bytes⟩⟩
  | _ => none

inductive Reply (Row T : Type)
  | unknown
  | error
  | dropped (lost : List (Batch Row T))
  | page (batches : List (Batch Row T)) (results : List (DataChunk Row T))

/-- The entry after a fetch, and the reply. A drained entry answers as an empty stream does. -/
def handleFetchRequest (entry : Option (PendingResult E Row T)) (connectionId : String)
    (patience : Option Nat) : Option (PendingResult E Row T) × Reply Row T :=
  match entry with
  | none => (none, .unknown)
  | some pending =>
    if pending.connectionId ≠ connectionId then (some pending, .unknown)
    else match pullPage limits.maxResponseBytes patience 0 (pending.stream.getD []) with
      | .failed _ => (none, .error)
      | .dropped lost rest =>
        (some { pending with stream := pending.stream.map fun _ => rest }, .dropped lost)
      | .page batches bytes exhausted rest =>
        if limits.maxResultBytes < pending.bytesSent + bytes then (none, .error)
        else if batches.isEmpty then (none, .page [] [])
        else match encodePage batches with
          | none => (none, .error)
          | some chunks => (some { pending with
              stream := if exhausted then none else some rest
              bytesSent := pending.bytesSent + bytes }, .page batches chunks)

/-- One result: its entry on the server, what its client has seen of it, the batches behind that
and those its dropped fetches had pulled, and the connections that were answered. -/
structure Run (E Row T : Type) where
  entry : Option (PendingResult E Row T)
  announced : List T
  received : List (DataChunk Row T)
  delivered : List (Batch Row T)
  lost : List (Batch Row T)
  failed : Bool
  ended : Bool
  answered : List String

def Run.prepared (response : PrepareResponse E Row T) : Run E Row T :=
  ⟨response.pending, response.resultTypes, response.results, response.batches, [], false,
    response.pending.isNone, [client]⟩

variable (run : Run E Row T)

def Run.observe : Reply Row T → Run E Row T
  | .unknown | .error => { run with failed := true }
  | .dropped lost => { run with lost := run.lost ++ lost }
  | .page batches results => { run with
      received := run.received ++ results
      delivered := run.delivered ++ batches
      ended := results.isEmpty }

def answering (connectionId : String) : Reply Row T → List String
  | .error | .page .. => [connectionId]
  | .unknown | .dropped _ => []

inductive Event
  | fetch (connectionId : String) (patience : Option Nat)
  /-- The entry is idle too long, crowded out, or its session expires. -/
  | evict

/-- The client fetches until it has an error or the end; other connections may ask at any time. -/
def step : Event → Option (Run E Row T)
  | .evict => some { run with entry := none }
  | .fetch connectionId patience =>
    let (entry, reply) := handleFetchRequest limits run.entry connectionId patience
    let answered := answering connectionId reply ++ run.answered
    if connectionId ≠ client then some { run with entry, answered }
    else if run.failed || run.ended then none
    else some { run.observe reply with entry, answered }

/-- The types a first page announces, in terms of the query alone. -/
def QueryStream.types : Option (List T) :=
  query.schemaTypes <|> match query.batches with
    | .ok batch :: _ => batch.types
    | _ => none

/-- The stream is accounted for: what was delivered and what was lost, then what is still parked. -/
structure Accounted : Prop where
  types : query.types = some run.announced
  sent : encodePage run.delivered = some run.received
  within : bytesOf run.delivered ≤ limits.maxResultBytes
  answered : ∀ connectionId ∈ run.answered, connectionId = client
  stream : ∃ pulled rest, query.batches = pulled.map .ok ++ rest ∧ run.delivered <+ pulled ∧
    pulled ~ run.delivered ++ run.lost ∧ (run.ended = true → rest = []) ∧
    ∀ pending ∈ run.entry, pending.connectionId = client ∧ pending.stream.getD [] = rest ∧
      pending.bytesSent = bytesOf run.delivered

/-- The states of every run that starts with a prepare the server has answered. -/
def Reached : Run E Row T → Prop :=
  Reachable (fun run => ∃ response, handlePrepareRequest limits client query = some response ∧
    run = .prepared client response) (step limits client) fun _ _ => True

/-- Only the client was answered, and once it has seen the end it has the whole stream. -/
def Lossless : Prop :=
  (∀ connectionId ∈ run.answered, connectionId = client) ∧ (run.ended = true →
    ∃ stream, query.batches = stream.map .ok ∧
      run.received.flatMap DataChunk.rows = stream.flatMap Batch.rows ∧
      (∀ chunk ∈ run.received, chunk.types = run.announced) ∧
      bytesOf stream ≤ limits.maxResultBytes)

variable {limits client query} {run next : Run E Row T}
  {batches : List (Batch Row T)} {chunks : List (DataChunk Row T)} {types : List T}

theorem QueryStream.types_of {rest : Stream E Row T}
    (first : query.batches = batches.map .ok ++ rest) (sent : encodePage batches = some chunks)
    (found : resultTypesFor query.schemaTypes chunks = some types) : query.types = some types := by
  unfold QueryStream.types
  cases known : query.schemaTypes with
  | some types => rwa [known] at found
  | none =>
    rw [known] at found
    cases mapM_eq_some_iff.mp sent with
    | nil => cases found
    | cons head _ =>
      obtain ⟨own, stamped, rfl⟩ := Option.map_eq_some_iff.mp head
      rw [first]
      exact stamped.trans found

theorem prepared_accounted {response : PrepareResponse E Row T}
    (done : handlePrepareRequest limits client query = some response) :
    Accounted limits client query (.prepared client response) := by
  have spec := pullPage_of limits.maxResponseBytes none 0 query.batches
  unfold handlePrepareRequest at done
  split at done
  next batches bytes exhausted rest pulled =>
    rw [pulled] at spec
    obtain ⟨items, sum, ended⟩ := spec
    rw [Nat.zero_add] at sum
    split at done
    · cases done
    next small =>
    simp only [Option.bind_eq_bind, Option.bind_eq_some_iff, Option.pure_def,
      Option.some.injEq] at done
    obtain ⟨chunks, sent, types, found, rfl⟩ := done
    refine ⟨QueryStream.types_of items sent found, sent, sum ▸ Nat.not_lt.mp small,
      by simp [Run.prepared], batches, rest, items, .refl _, by simp [Run.prepared], ?_, ?_⟩
    all_goals cases exhausted <;> simp_all [Run.prepared]
  · cases done

theorem Accounted.without {failed : Bool} {answered : List String}
    (kept : Accounted limits client query run)
    (own : ∀ connectionId ∈ answered, connectionId = client) :
    Accounted limits client query { run with entry := none, failed, answered } := by
  obtain ⟨types, sent, within, -, pulled, rest, items, order, parts, ended, -⟩ := kept
  exact ⟨types, sent, within, own, pulled, rest, items, order, parts, ended, by simp⟩

theorem step_accounted {event : Event} (kept : Accounted limits client query run)
    (taken : step limits client run event = some next) : Accounted limits client query next := by
  obtain ⟨types, sent, within, answered, pulled, rest, items, order, parts, ended, parked⟩ :=
    id kept
  cases event with
  | evict => exact Option.some.inj taken ▸ kept.without answered
  | fetch connectionId patience =>
    simp only [step] at taken
    by_cases own : connectionId = client
    · subst own
      have known : ∀ id ∈ connectionId :: run.answered, id = connectionId := by simpa using answered
      rw [if_neg (not_not.mpr rfl)] at taken
      split at taken
      · cases taken
      cases taken
      unfold handleFetchRequest
      split
      · exact kept.without answered
      next pending present =>
      obtain ⟨owner, left, paid⟩ := parked pending present
      have spec := pullPage_of limits.maxResponseBytes patience 0 (pending.stream.getD [])
      rw [if_neg (not_not.mpr owner)]
      split
      · exact kept.without known
      next lost rest' took =>
        rw [took, left] at spec
        obtain rfl : rest = lost.map Except.ok ++ rest' := spec
        refine ⟨types, sent, within, answered, pulled ++ lost, rest', by simp [items],
          order.trans (sublist_append_left ..), ?_, ?_, ?_⟩
        · simpa [Run.observe] using parts.append_right lost
        · exact fun last => (append_eq_nil_iff.mp (ended last)).2
        · rintro after ⟨⟩
          refine ⟨owner, ?_, paid⟩
          cases drained : pending.stream with
          | none => exact (append_eq_nil_iff.mp (by rw [← left, drained]; rfl)).2.symm
          | some items => rfl
      next batches bytes exhausted rest' took =>
        rw [took, left] at spec
        obtain ⟨rfl, rfl, done⟩ := spec
        split
        · exact kept.without known
        next small =>
        split
        next none =>
          simp only [Run.observe, append_nil]
          obtain rfl := isEmpty_iff.mp none
          exact ⟨types, sent, within, known, pulled, rest', items, order, parts,
            fun _ => done (.inr rfl), by simp⟩
        split
        · exact kept.without known
        next chunks encoded =>
        rw [Nat.zero_add, paid] at small
        rw [encodePage, mapM_eq_some_iff] at sent encoded
        refine ⟨types, mapM_eq_some_iff.mpr (rel_append sent encoded),
          by simpa [Run.observe, bytesOf] using small, known, pulled ++ batches, rest',
          by simp [items], order.append_right _, ?_, ?_, ?_⟩
        · calc
            pulled ++ batches ~ run.delivered ++ run.lost ++ batches := parts.append_right _
            _ ~ run.delivered ++ batches ++ run.lost := by
              simpa [append_assoc] using perm_append_comm.append_left run.delivered
        · intro last
          cases encoded <;> simp_all [Run.observe]
        · rintro after ⟨⟩
          refine ⟨owner, ?_, by simp [Run.observe, paid, bytesOf]⟩
          cases exhausted <;> simp_all
    · -- Another connection is refused whether or not the entry exists.
      have refused : handleFetchRequest limits run.entry connectionId patience =
          (run.entry, .unknown) := by
        cases present : run.entry with
        | none => rfl
        | some pending =>
          have owner := (parked pending present).1
          exact if_pos fun same => own (same.symm.trans owner)
      rw [if_pos own, refused] at taken
      exact Option.some.inj taken ▸ kept

variable (types) in
theorem encodePage_rows (sent : encodePage batches = some chunks) :
    chunks.flatMap DataChunk.rows = batches.flatMap Batch.rows ∧
      ((∀ chunk ∈ chunks, chunk.types = types) ↔ ∀ batch ∈ batches, batch.types = some types) := by
  rw [encodePage, mapM_eq_some_iff] at sent
  induction sent with
  | nil => simp
  | cons head _ ih =>
    obtain ⟨own, stamped, rfl⟩ := Option.map_eq_some_iff.mp head
    simp [ih, stamped]

/-- Dropped fetches are what loses rows and bytes; dictionaries are what changes types. -/
theorem lossless_iff (reached : Reached limits client query run) :
    Lossless limits client query run ↔ (run.ended = true → (∀ batch ∈ run.lost, batch.rows = []) ∧
      (∀ batch ∈ run.delivered, batch.types = query.types) ∧
      bytesOf run.lost ≤ limits.maxResultBytes - bytesOf run.delivered) := by
  have kept : Accounted limits client query run :=
    Reachable.invariant (fun _ ⟨_, done, same⟩ => same ▸ prepared_accounted done)
      (fun _ _ _ kept _ taken => step_accounted kept taken) reached
  obtain ⟨types, sent, within, answered, pulled, rest, items, order, parts, ended, -⟩ := kept
  obtain ⟨rows, stamps⟩ := encodePage_rows run.announced sent
  -- The delivered rows are a sublist of the stream's, so only their number can differ.
  have all : run.delivered.flatMap Batch.rows = pulled.flatMap Batch.rows ↔
      ∀ batch ∈ run.lost, batch.rows = [] := by
    have count := (parts.flatMap_right Batch.rows).length_eq
    rw [flatMap_append, length_append] at count
    rw [← flatMap_eq_nil_iff, ← length_eq_zero_iff]
    constructor
    · intro same
      rw [same] at count
      omega
    · intro none
      exact (order.flatMap _).eq_of_length (by omega)
  have bytes : bytesOf pulled = bytesOf run.delivered + bytesOf run.lost := by
    simpa [bytesOf] using (parts.map Batch.bytes).sum_nat
  refine (and_iff_right answered).trans (imp_congr_right fun last => ?_)
  rw [ended last, append_nil] at items
  rw [types, ← stamps]
  constructor
  · rintro ⟨stream, whole, same, stamped, small⟩
    obtain rfl := map_injective_iff.mpr (fun _ _ => Except.ok.inj) (items.symm.trans whole)
    exact ⟨all.mp (rows.symm.trans same), stamped, by omega⟩
  · rintro ⟨none, stamped, small⟩
    exact ⟨pulled, items, rows.trans (all.mpr none), stamped, by omega⟩

def twoBatches : QueryStream Unit Nat Nat :=
  ⟨some [0], [.ok ⟨[1], 8, some [0]⟩, .ok ⟨[2], 4, some [0]⟩]⟩

theorem undropped_fetches_lossless : ∃ run : Run Unit Nat Nat, run.ended = true ∧
    Lossless ⟨8, 12⟩ "a" twoBatches run := by
  refine ⟨_, rfl, (lossless_iff (Reachable.follow (.start ⟨_, rfl, rfl⟩)
    [.fetch "b" none, .fetch "a" none, .fetch "a" none] rfl)).mpr fun _ => ?_⟩
  exact ⟨nofun, by decide, by decide⟩

/-- The first fetch pulls the last batch and is dropped at its next poll: the second finds the
stream at its end, and the client has half the result and no error. -/
theorem dropped_fetch_loses_rows : ∃ run : Run Unit Nat Nat,
    Reached ⟨8, 12⟩ "a" twoBatches run ∧ run.ended = true ∧ run.failed = false ∧
      ¬ Lossless ⟨8, 12⟩ "a" twoBatches run := by
  refine ⟨_, Reachable.follow (.start ⟨_, rfl, rfl⟩) [.fetch "a" (some 1), .fetch "a" none] rfl,
    rfl, rfl, ?_⟩
  rintro ⟨-, whole⟩
  obtain ⟨stream, same, rows, -⟩ := whole rfl
  match stream, same, rows with
  | [_, _], rfl, rows => cases rows

end Sqe.Quack.ResultPaging
