/- GID: Sqe/Quack/RoundTrip
   generality: G
   digest: A well formed message whose row counts fit is decoded as the message that was encoded. -/

import Sqe.Quack.Message
import Sqe.Quack.VectorRoundTrip

set_option autoImplicit false

namespace Sqe.Quack

open Sqe.Library.Reading List

def DataChunk.WellFormed (chunk : DataChunk) : Prop :=
  ∀ column ∈ chunk.columns, column.logicalType.depth ≤ 15 ∧
    column.WellFormed chunk.rowCount.toNat

/-- The row counts inside the columns are `usize` values. -/
def DataChunk.Fits (chunk : DataChunk) : Prop :=
  ∀ column ∈ chunk.columns, column.Fits chunk.rowCount.toNat

/-- The types, chunks and indices of a body are as the protocol has them. -/
def QuackMessage.WellFormed : QuackMessage → Prop
  | .prepareResponse body =>
    (∀ type ∈ body.resultTypes, type.depth ≤ 15) ∧ ∀ chunk ∈ body.results, chunk.WellFormed
  | .fetchResponse body =>
    (∀ chunk ∈ body.results, chunk.WellFormed) ∧
      body.batchIndex ≠ some (UInt64.ofNat optionalIdxInvalid)
  | _ => True

def QuackMessage.Fits : QuackMessage → Prop
  | .prepareResponse body => ∀ chunk ∈ body.results, chunk.Fits
  | .fetchResponse body => ∀ chunk ∈ body.results, chunk.Fits
  | _ => True

theorem takes_typeObject {type : LogicalType} (shallow : type.depth ≤ 15)
    (fits : (encodeTypeObject type).length < 2 ^ 64) (tail : Bytes) :
    Takes decodeTypeObject (encodeTypeObject type) type tail := by
  rw [encodeTypeObject, length_append] at fits
  have deep : 2 * type.depth + 2 ≤ maxDecodeDepth := by
    rw [maxDecodeDepth]
    omega
  exact takes_closed (type.takes deep (by omega) tail)

theorem takes_column {rowCount : UInt32} {column : Vector}
    (shallow : column.logicalType.depth ≤ 15) (formed : column.WellFormed rowCount.toNat)
    (fit : column.Fits rowCount.toNat) (fits : (encodeColumn rowCount column).length < 2 ^ 64)
    (tail : Bytes) :
    Takes (decodeColumn rowCount column.logicalType) (encodeColumn rowCount column) column
      tail := by
  rw [encodeColumn, length_append] at fits
  have deep : column.logicalType.depth + 1 ≤ maxDecodeDepth := by
    rw [maxDecodeDepth]
    omega
  have rows := rowCount.toNat_lt
  exact takes_closed (column.takes deep formed fit (by omega) (by omega) _)

theorem DataChunk.takes {chunk : DataChunk} (formed : chunk.WellFormed) (fit : chunk.Fits)
    (fits : chunk.encode.length < 2 ^ 64) (tail : Bytes) :
    Takes DataChunk.decode chunk.encode chunk tail := by
  obtain ⟨rowCount, columns⟩ := chunk
  simp only [DataChunk.WellFormed, DataChunk.Fits] at formed fit
  simp only [DataChunk.encode, flatten_cons, flatten_nil, append_nil, length_append] at fits ⊢
  have types : (columns.flatMap fun column => encodeTypeObject column.logicalType) =
      (columns.map Vector.logicalType).flatMap encodeTypeObject := by
    rw [flatMap_map]
  have columnCost : columns.length ≤ (columns.flatMap (encodeColumn rowCount)).length :=
    length_le_flatMap fun column _ => by simp [encodeColumn, endObject, beginProperty]
  refine takes_property (by decide) (takes_u32 _ _) ?_
  refine takes_counted (by decide) (by omega) (by simp only [length_append]; omega) ?_
  have readTypes : ∀ tail, Takes (times columns.length decodeTypeObject)
      (columns.flatMap fun column => encodeTypeObject column.logicalType)
      (columns.map Vector.logicalType) tail := by
    intro tail
    rw [types, ← length_map Vector.logicalType]
    refine .times (fun type listed tail => ?_) tail
    obtain ⟨column, there, rfl⟩ := mem_map.mp listed
    refine takes_typeObject (formed column there).1 ?_ tail
    exact Nat.lt_of_le_of_lt (length_le_flatMap_of_mem listed) (by rw [← types]; omega)
  refine .bind (readTypes _) ?_
  refine takes_counted (by decide) (by omega) (by omega) ?_
  refine .bind_nil (takes_refuse (not_not_intro rfl)) ?_
  refine .bind_pure (.all ?_ _) (.pure _ _)
  rw [map_map, forall₂_map_left_iff, forall₂_same]
  intro column there tail
  exact takes_column (formed column there).1 (formed column there).2 (fit column there)
    (Nat.lt_of_le_of_lt (length_le_flatMap_of_mem there) (by omega)) tail

theorem takes_wrapper {chunk : DataChunk} (formed : chunk.WellFormed) (fit : chunk.Fits)
    (fits : (encodeDataChunkWrapper chunk).length < 2 ^ 64) (tail : Bytes) :
    Takes decodeDataChunkWrapper (encodeDataChunkWrapper chunk) chunk tail := by
  simp only [encodeDataChunkWrapper, flatten_cons, flatten_nil, append_nil, length_append] at fits ⊢
  refine .bind (takes_bool true _) ?_
  refine .bind_nil (takes_refuse (by decide)) ?_
  refine takes_property (by decide) (DataChunk.takes formed fit (by omega) _) ?_
  refine .bind (takes_objectEnd _) ?_
  exact .bind_pure (takes_objectEnd _) (.pure _ _)

theorem takes_results {fieldId : Nat} {results : List DataChunk} (small : fieldId < 2 ^ 16)
    (formed : ∀ chunk ∈ results, chunk.WellFormed) (fit : ∀ chunk ∈ results, chunk.Fits)
    (fits : (encodeResults fieldId results).length < 2 ^ 64) {tail : Bytes}
    (next : NextNot fieldId tail) :
    Takes (decodeResults fieldId) (encodeResults fieldId results) results tail := by
  refine takes_elided small (fun there => ?_) (fun none => ?_) next
  · simp only [encodeResults, elided, there, if_pos, length_append] at fits
    refine takes_list tail (by omega) (fun chunk _ => ?_) fun chunk listed small tail =>
      takes_wrapper (formed chunk listed) (fit chunk listed) small tail
    simp only [encodeDataChunkWrapper, flatten_cons, length_append, endObject,
      beginProperty, length_cons]
    omega
  · cases results with
    | nil => rfl
    | cons => cases none

theorem MessageType.fromU8_toU8 (type : MessageType) : MessageType.fromU8 type.toU8 = .ok type := by
  cases type <;> rfl

theorem takes_optionalIdx {index : Option UInt64}
    (valid : index ≠ some (UInt64.ofNat optionalIdxInvalid)) (tail : Bytes) :
    Takes readOptionalIdx (writeOptionalIdx index) index tail := by
  cases index with
  | none => exact .bind_pure (takes_u64 (by decide) tail) (.pure none tail)
  | some value =>
    have other : value.toNat ≠ optionalIdxInvalid := by
      intro same
      exact valid (by rw [← same, UInt64.ofNat_toNat])
    refine .bind_pure (takes_u64 value.toNat_lt tail) ?_
    rw [if_neg other, UInt64.ofNat_toNat]
    exact .pure _ tail

theorem MessageHeader.takes {header : MessageHeader}
    (valid : header.clientQueryId ≠ some (UInt64.ofNat optionalIdxInvalid))
    (fits : header.encode.length < 2 ^ 64) (tail : Bytes) :
    Takes MessageHeader.decode header.encode header tail := by
  simp only [MessageHeader.encode, flatten_cons, flatten_nil, append_nil, length_append] at fits ⊢
  refine takes_property (by decide) (takes_u8 _ _) ?_
  refine .bind_nil (takes_ofResult (MessageType.fromU8_toU8 _)) ?_
  refine .bind (a := header.connectionId) (takes_elided (by decide) (fun there => ?_)
    (fun none => ?_) (.property (by decide) (by omega) _)) ?_
  · simp only [elided, there, if_pos, length_append] at fits
    exact takes_writtenString (by omega) _
  · simpa using none
  · refine .bind (takes_field (by decide) _) ?_
    exact .bind_pure (takes_optionalIdx valid _) (.pure _ _)

theorem ConnectionRequest.takes {b : ConnectionRequest} (fits : b.encode.length < 2 ^ 64)
    (tail : Bytes) : Takes ConnectionRequest.decode b.encode b tail := by
  simp only [ConnectionRequest.encode, flatten_cons, flatten_nil, append_nil,
    length_append] at fits ⊢
  refine takes_property (by decide) (takes_writtenString (by omega) _) ?_
  refine takes_property (by decide) (takes_writtenString (by omega) _) ?_
  refine takes_property (by decide) (takes_writtenString (by omega) _) ?_
  refine takes_property (by decide) (takes_writtenU64 _ _) ?_
  refine .bind (takes_field (by decide) _) ?_
  refine .bind_pure (takes_writtenU64 _ _) ?_
  rw [UInt64.ofNat_toNat, UInt64.ofNat_toNat]
  exact .pure _ _

theorem ConnectionResponse.takes {b : ConnectionResponse} (fits : b.encode.length < 2 ^ 64)
    (tail : Bytes) : Takes ConnectionResponse.decode b.encode b tail := by
  simp only [ConnectionResponse.encode, flatten_cons, flatten_nil, append_nil,
    length_append] at fits ⊢
  refine takes_property (by decide) (takes_writtenString (by omega) _) ?_
  refine takes_property (by decide) (takes_writtenString (by omega) _) ?_
  refine .bind (takes_field (by decide) _) ?_
  refine .bind_pure (takes_writtenU64 _ _) ?_
  rw [UInt64.ofNat_toNat]
  exact .pure _ _

theorem takes_text {text : String} (fits : (encodeText text).length < 2 ^ 64) (tail : Bytes) :
    Takes decodeText (encodeText text) text tail := by
  simp only [encodeText, flatten_cons, flatten_nil, append_nil, length_append] at fits ⊢
  exact .bind (takes_field (by decide) _) (takes_writtenString (by omega) _)

theorem takes_fetchRequest (uuid : BitVec 128) (tail : Bytes) :
    Takes decodeFetchRequest (encodeFetchRequest uuid) uuid tail := by
  simp only [encodeFetchRequest, flatten_cons, flatten_nil, append_nil]
  exact .bind (takes_field (by decide) _) (takes_hugeint uuid tail)

theorem PrepareResponse.takes {b : PrepareResponse}
    (shallow : ∀ type ∈ b.resultTypes, type.depth ≤ 15)
    (formed : ∀ chunk ∈ b.results, chunk.WellFormed) (fit : ∀ chunk ∈ b.results, chunk.Fits)
    (fits : b.encode.length < 2 ^ 64) (tail : Bytes) :
    Takes PrepareResponse.decode b.encode b tail := by
  simp only [PrepareResponse.encode, flatten_cons, flatten_nil, append_nil, length_append] at fits ⊢
  have typeCost : b.resultTypes.length ≤ (b.resultTypes.flatMap encodeTypeObject).length :=
    length_le_flatMap fun type _ => by simp [encodeTypeObject, endObject, beginProperty]
  have nameCost : b.resultNames.length ≤ (b.resultNames.flatMap writeString).length :=
    length_le_flatMap fun name _ => writeString_pos name
  refine takes_counted (by decide) (by omega) (by simp only [length_append]; omega) ?_
  refine .bind (.times (fun type listed tail => takes_typeObject (shallow type listed)
    (Nat.lt_of_le_of_lt (length_le_flatMap_of_mem listed) (by omega)) tail) _) ?_
  refine takes_counted (by decide) (by omega) (by simp only [length_append]; omega) ?_
  refine .bind (.times (fun name listed tail => takes_writtenString
    (Nat.lt_of_le_of_lt (length_le_flatMap_of_mem listed) (by omega)) tail) _) ?_
  have next : ∀ tail, NextNot 3 (encodeResults 4 b.results ++ (beginProperty 5 ++ tail)) :=
    fun tail => .elided (by decide) (by omega) (.property (by decide) (by omega) tail)
  refine .bind (takes_elided (by decide) (fun _ => takes_bool _ _) id
    (by simp only [append_assoc]; exact next _)) ?_
  refine .bind (takes_results (by decide) formed fit (by omega)
    (.property (by decide) (by decide) _)) ?_
  refine .bind (takes_field (by decide) _) ?_
  exact .bind_pure (takes_hugeint _ _) (.pure _ _)

theorem FetchResponse.takes {b : FetchResponse} (formed : ∀ chunk ∈ b.results, chunk.WellFormed)
    (fit : ∀ chunk ∈ b.results, chunk.Fits)
    (valid : b.batchIndex ≠ some (UInt64.ofNat optionalIdxInvalid))
    (fits : b.encode.length < 2 ^ 64) (tail : Bytes) :
    Takes FetchResponse.decode b.encode b tail := by
  simp only [FetchResponse.encode, flatten_cons, flatten_nil, append_nil, length_append] at fits ⊢
  refine .bind (takes_results (by decide) formed fit (by omega)
    (.property (by decide) (by decide) _)) ?_
  refine .bind (takes_field (by decide) _) ?_
  exact .bind_pure (takes_optionalIdx valid _) (.pure _ _)

theorem QuackMessage.takes {body : QuackMessage} (formed : body.WellFormed) (fit : body.Fits)
    (fits : body.encode.length < 2 ^ 64) (tail : Bytes) :
    Takes (QuackMessage.decode body.messageType) body.encode body tail := by
  cases body with
  | connectionRequest b => exact .bind_pure (b.takes fits tail) (.pure _ _)
  | connectionResponse b => exact .bind_pure (b.takes fits tail) (.pure _ _)
  | prepareRequest sql => exact .bind_pure (takes_text fits tail) (.pure _ _)
  | prepareResponse b =>
    exact .bind_pure (b.takes formed.1 formed.2 fit fits tail) (.pure _ _)
  | fetchRequest uuid => exact .bind_pure (takes_fetchRequest uuid tail) (.pure _ _)
  | fetchResponse b =>
    exact .bind_pure (b.takes formed.1 fit formed.2 fits tail) (.pure _ _)
  | successResponse => exact .pure _ _
  | disconnectMessage => exact .pure _ _
  | errorResponse message => exact .bind_pure (takes_text fits tail) (.pure _ _)

/-- What an encoder is given so that a decoder gets it back. -/
structure Encodable (header : MessageHeader) (body : QuackMessage) : Prop where
  typed : header.type = body.messageType
  valid : header.clientQueryId ≠ some (UInt64.ofNat optionalIdxInvalid)
  formed : body.WellFormed
  rows : body.Fits
  fits : (encodeMessage header body).length < 2 ^ 64

section Delimited

variable {header header' : MessageHeader} {body body' : QuackMessage}

theorem Encodable.takes (ok : Encodable header body) (tail : Bytes) :
    Takes decodeEnvelope (encodeMessage header body) (header, body) tail := by
  have fits := ok.fits
  simp only [encodeMessage, flatten_cons, flatten_nil, append_nil, length_append] at fits ⊢
  refine .bind (header.takes ok.valid (by omega) _) ?_
  refine .bind (takes_objectEnd _) ?_
  rw [ok.typed]
  refine .bind (body.takes ok.formed ok.rows (by omega) _) ?_
  exact .bind_pure (takes_objectEnd _) (.pure _ _)

/-- A message is decoded as the header and body that were encoded, if the header names the body's
type, no index is the one that stands for none, the body is well formed and its row counts are
`usize` values. The encoding is a `Vec`, so its length is one too. -/
theorem decode_encode (header : MessageHeader) (body : QuackMessage)
    (typed : header.type = body.messageType)
    (valid : header.clientQueryId ≠ some (UInt64.ofNat optionalIdxInvalid))
    (formed : body.WellFormed) (rows : body.Fits)
    (fits : (encodeMessage header body).length < 2 ^ 64) :
    decodeMessage (encodeMessage header body) = .ok (header, body) := by
  have run := Encodable.takes ⟨typed, valid, formed, rows, fits⟩ [] []
  rw [append_nil, append_nil] at run
  rw [decodeMessage, run]
  rfl

/-- Encodings delimit themselves: bytes that start with the encodings of two messages start with
one and the same, whatever follows. -/
theorem encodeMessage_delimited (ok : Encodable header body) (ok' : Encodable header' body')
    {rest rest' : Bytes}
    (same : encodeMessage header body ++ rest = encodeMessage header' body' ++ rest') :
    header = header' ∧ body = body' ∧ rest = rest' := by
  have read := ok.takes rest []
  have read' := ok'.takes rest' []
  rw [append_nil] at read read'
  rw [same] at read
  obtain ⟨message, left⟩ := Prod.mk.inj (Except.ok.inj (read.symm.trans read'))
  exact ⟨(Prod.mk.inj message).1, (Prod.mk.inj message).2, left⟩

end Delimited

/-- One page with a column of two strings, the second of them null. -/
def onePage : QuackMessage :=
  .fetchResponse ⟨[⟨2, [.mk (.mk .varchar none) (some [true, false])
    (.strings [some "a", none])]⟩], some 3⟩

theorem onePage_encodable : Encodable ⟨.fetchResponse, "c", none⟩ onePage := by
  refine ⟨rfl, by decide, ⟨?_, by decide⟩, ?_, by decide +kernel⟩
  · refine forall_mem_singleton.mpr (forall_mem_singleton.mpr ⟨Nat.zero_le _, ?_⟩)
    exact ⟨by rintro _ ⟨⟩; rfl, rfl, rfl, rfl⟩
  · exact forall_mem_singleton.mpr (forall_mem_singleton.mpr trivial)

theorem onePage_decodes :
    decodeMessage (encodeMessage ⟨.fetchResponse, "c", none⟩ onePage) =
      .ok (⟨.fetchResponse, "c", none⟩, onePage) :=
  have ok := onePage_encodable
  decode_encode _ _ ok.typed ok.valid ok.formed ok.rows ok.fits

theorem onePage_delimited :
    (⟨.fetchResponse, "c", none⟩ : MessageHeader) = ⟨.fetchResponse, "c", none⟩ ∧
      onePage = onePage ∧ ([7] : Bytes) = [7] :=
  encodeMessage_delimited onePage_encodable onePage_encodable rfl

def arrayType (size : UInt32) (child : LogicalType) : LogicalType :=
  .mk .array (some (.array child size))

/-- Arrays of no integers in arrays in arrays: `2 ^ 64` rows without a byte of data. -/
def hugeArray : QuackMessage :=
  let empty : LogicalType := arrayType 0 (.mk .integer none)
  let inner : LogicalType := arrayType 16777216 empty
  .fetchResponse ⟨[⟨65536, [.mk (arrayType 16777216 inner) none (.array 16777216
    (.mk inner none (.array 16777216 (.mk empty none (.array 0
      (.mk (.mk .integer none) none (.fixed [])))))))]⟩], none⟩

/-- A product of array sizes that is no `usize` is refused, although no row of it is ever
stored. -/
theorem hugeArray_refused :
    hugeArray.messageType = .fetchResponse ∧ hugeArray.WellFormed ∧
      (decodeMessage (encodeMessage ⟨.fetchResponse, "c", none⟩ hugeArray)).toOption.isNone =
        true := by
  refine ⟨rfl, ⟨?_, by decide⟩, by decide +kernel⟩
  refine forall_mem_singleton.mpr (forall_mem_singleton.mpr ⟨by decide, ?_⟩)
  refine ⟨by rintro _ ⟨⟩, rfl, ⟨_, rfl⟩, by decide, ?_⟩
  refine ⟨by rintro _ ⟨⟩, rfl, ⟨_, rfl⟩, by decide, ?_⟩
  refine ⟨by rintro _ ⟨⟩, rfl, ⟨_, rfl⟩, by decide, ?_⟩
  exact ⟨by rintro _ ⟨⟩, 4, rfl, by simp⟩

end Sqe.Quack
