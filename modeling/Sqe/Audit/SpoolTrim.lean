/- GID: Sqe/Audit/SpoolTrim
   generality: I
   digest: What trims and truncations of the audit spool remove while the writer goes on. -/

import Mathlib.Data.List.Forall2
import Sqe.Library.Transition

/-!
The shipper reads and copies the spool without the lock the writer holds for each record. Each read
or copy is a step of its own; what happens under the lock is one step. The shipper begins at the
start of the spool, and no input or output fails.
-/

set_option autoImplicit false

namespace Sqe.Audit.SpoolTrim

open Sqe.Library.Transition List

abbrev Bytes := List UInt8

def newline : UInt8 := 10

/-- The records, the JSON text of each, and the sequence number that `ocsf_to_ship_record` reads
back from it. JSON text has no newline in it. -/
structure Format (R : Type) where
  text : R → Bytes
  seq : R → Nat
  readSeq : Bytes → Option Nat
  oneLine : ∀ r, newline ∉ text r
  readsBack : ∀ r, readSeq (text r) = some (seq r)

structure SeqCursor where
  last : Nat
  shippedAny : Bool
deriving DecidableEq

def SeqCursor.covers (cursor : SeqCursor) (seq : Nat) : Bool :=
  cursor.shippedAny && decide (seq ≤ cursor.last)

/-- Where the shipper stands in `plan_trim` and `trim_head`. -/
inductive Shipper
  | idle
  | planning (len cap cut dropped : Nat)
  | planned (cut dropped : Nat)
  | copying (keepFrom len0 dropped : Nat) (tmp : Bytes)
deriving DecidableEq

/-- What was removed from the spool. A trim drops records behind `committed`, as many as it
reports. -/
inductive Removal
  | truncated (bytes : Bytes)
  | trimmed (bytes : Bytes) (committed : Nat) (cursor : SeqCursor) (dropped : Nat)
deriving DecidableEq

def Removal.bytes : Removal → Bytes
  | .truncated bytes => bytes
  | .trimmed bytes _ _ _ => bytes

/-- The spool with the writer's buffer and the shipper. The records written and the removals are
kept for reference only. -/
structure Spool (R : Type) where
  written : List R
  file : Bytes
  buffer : Bytes
  removals : List Removal
  committed : Nat
  cursor : SeqCursor
  shipper : Shipper

inductive Event (R : Type)
  | writeLine (r : R)
  | spill (count : Nat)
  | flush
  | ackLine (advanced : Nat)
  | compactIfDrained
  | planTrim (cap : Nat)
  | planLine
  | trimStart
  | trimCopy (count : Nat)
  | trimFinish

/-- `BufRead::read_until`: up to and with the delimiter, or to the end. -/
def readUntil (delim : UInt8) : Bytes → Bytes
  | [] => []
  | b :: rest => if b = delim then [b] else b :: readUntil delim rest

section

variable {R : Type} (format : Format R)

/-- What `write_line` writes. -/
def Format.line (r : R) : Bytes := format.text r ++ [newline]

def Format.lines (records : List R) : Bytes := records.flatMap format.line

namespace Spool

variable (s : Spool R)

def flushed : Spool R := { s with file := s.file ++ s.buffer, buffer := [] }

def compactIfDrained : Spool R :=
  if s.file.length = 0 ∨ s.file.length ≠ s.committed then s
  else { s with
    file := []
    removals := s.removals ++ [.truncated s.file]
    committed := 0 }

end Spool

def planResult (cut dropped : Nat) : Shipper := if 0 < cut then .planned cut dropped else .idle

variable (s : Spool R)

def planTrim (cap : Nat) : Shipper :=
  let len := s.file.length
  if len ≤ cap then .idle
  else
    let cut := min s.committed len
    if cap < len - cut then .planning len cap cut 0 else planResult cut 0

/-- One turn of the loop of `plan_trim`. -/
def planLine (len cap cut dropped : Nat) : Shipper :=
  if cap / 2 < len - cut then
    let line := readUntil newline (s.file.drop cut)
    -- never cut into a line the writer has not finished
    if line = [] ∨ line.getLast? ≠ some newline ∨ len < cut + line.length then
      planResult cut dropped
    else
      let unshipped := (format.readSeq line.dropLast).any fun seq => !s.cursor.covers seq
      .planning len cap (cut + line.length) (if unshipped then dropped + 1 else dropped)
  else planResult cut dropped

def trimStart (cut dropped : Nat) : Shipper :=
  if cut = 0 ∨ s.file.length < cut then .idle else .copying cut s.file.length dropped []

/-- A part of the bulk copy, which reads on where it stopped. -/
def trimCopy (count keepFrom len0 : Nat) (tmp : Bytes) : Bytes :=
  tmp ++ (s.file.drop (keepFrom + tmp.length)).take (min count (len0 - keepFrom - tmp.length))

/-- `trim_head` under the lock: flush, copy what came since, and put the copy in place. -/
def trimFinish (keepFrom len0 dropped : Nat) (tmp : Bytes) : Spool R :=
  let s := s.flushed
  if s.file.length < len0 then { s with shipper := .idle }
  else { s with
    file := tmp ++ (s.file.drop (keepFrom + tmp.length)).take (s.file.length - len0)
    removals := s.removals ++ [.trimmed (s.file.take keepFrom) s.committed s.cursor dropped]
    committed := s.committed - keepFrom
    shipper := .idle }

/-- One step of the writer or of the shipper. The lines of an acked batch are acked one by one. -/
def step : Event R → Option (Spool R)
  | .writeLine r =>
    some { s with written := s.written ++ [r], buffer := s.buffer ++ format.line r }
  | .spill count =>
    some { s with file := s.file ++ s.buffer.take count, buffer := s.buffer.drop count }
  | .flush => some s.flushed
  | .ackLine advanced =>
    let line := readUntil newline (s.file.drop s.committed)
    if s.shipper = .idle ∧ line.getLast? = some newline then
      some { s with committed := s.committed + line.length, cursor := ⟨advanced, true⟩ }
    else none
  | .compactIfDrained => if s.shipper = .idle then some s.compactIfDrained else none
  | .planTrim cap =>
    if s.shipper = .idle then some { s with shipper := planTrim s cap } else none
  | .planLine =>
    match s.shipper with
    | .planning len cap cut dropped =>
      some { s with shipper := planLine format s len cap cut dropped }
    | _ => none
  | .trimStart =>
    match s.shipper with
    | .planned cut dropped => some { s with shipper := trimStart s cut dropped }
    | _ => none
  | .trimCopy count =>
    match s.shipper with
    | .copying keepFrom len0 dropped tmp =>
      let copied := trimCopy s count keepFrom len0 tmp
      some { s with shipper := .copying keepFrom len0 dropped copied }
    | _ => none
  | .trimFinish =>
    match s.shipper with
    | .copying keepFrom len0 dropped tmp =>
      if tmp.length = len0 - keepFrom then some (trimFinish s keepFrom len0 dropped tmp) else none
    | _ => none

/-- An empty spool, with the cursor as it was loaded. -/
def Spool.empty (cursor : SeqCursor) : Spool R := ⟨[], [], [], [], 0, cursor, .idle⟩

def Reached : Prop :=
  Reachable (fun s => ∃ cursor, s = .empty cursor) (step format) (fun _ _ => True) s

/-- The removed stretch is these records, and a trim reports those behind `committed` that the
cursor does not cover. -/
def Removal.Reports : Removal → List R → Prop
  | .truncated bytes, records => bytes = format.lines records
  | .trimmed bytes committed cursor dropped, records =>
    bytes = format.lines records ∧ ∃ shipped beyond, records = shipped ++ beyond ∧
      (format.lines shipped).length = committed ∧
      dropped = beyond.countP fun r => !cursor.covers (format.seq r)

/-- A trim that is planned cuts between two records, behind what is acked. -/
def Planned (pending : List R) (cut dropped : Nat) : Prop :=
  cut ≤ s.file.length ∧ ∃ shipped beyond more, pending = (shipped ++ beyond) ++ more ∧
    (format.lines shipped).length = s.committed ∧
    (format.lines (shipped ++ beyond)).length = cut ∧
    dropped = beyond.countP fun r => !s.cursor.covers (format.seq r)

def ShipperSound (pending : List R) : Shipper → Prop
  | .idle => True
  | .planning len _ cut dropped => Planned format s pending cut dropped ∧ len ≤ s.file.length
  | .planned cut dropped => Planned format s pending cut dropped
  | .copying keepFrom len0 dropped tmp =>
    Planned format s pending keepFrom dropped ∧ len0 ≤ s.file.length ∧
      keepFrom + tmp.length ≤ len0 ∧ tmp = (s.file.drop keepFrom).take tmp.length

/-- The records written are those of the removed stretches and the pending ones, which the file and
the buffer hold. -/
structure Sound (removed : List (List R)) (pending : List R) : Prop where
  written : s.written = removed.flatten ++ pending
  reports : Forall₂ (Removal.Reports format) s.removals removed
  held : s.file ++ s.buffer = format.lines pending
  acked : Planned format s pending s.committed 0
  shipper : ShipperSound format s pending s.shipper

def Accounted : Prop := ∃ removed pending, Sound format s removed pending

end

section

variable {R : Type} {format : Format R} {bytes rest : Bytes} {records more : List R}

@[simp] theorem lines_append (first second : List R) :
    format.lines (first ++ second) = format.lines first ++ format.lines second :=
  flatMap_append

theorem readUntil_of_not_mem (absent : newline ∉ bytes) : readUntil newline bytes = bytes := by
  induction bytes with
  | nil => rfl
  | cons b bytes ih =>
    rw [mem_cons, not_or] at absent
    rw [readUntil, if_neg (Ne.symm absent.1), ih absent.2]

theorem readUntil_append (absent : newline ∉ bytes) :
    readUntil newline (bytes ++ newline :: rest) = bytes ++ [newline] := by
  induction bytes with
  | nil => exact if_pos rfl
  | cons b bytes ih =>
    rw [mem_cons, not_or] at absent
    rw [cons_append, readUntil, if_neg (Ne.symm absent.1), ih absent.2, cons_append]

/-- A complete line at the start of what is left of the records is the next record. -/
theorem readUntil_lines (held : bytes ++ rest = format.lines records)
    (complete : (readUntil newline bytes).getLast? = some newline) :
    ∃ r more, records = r :: more ∧ readUntil newline bytes = format.line r ∧
      (format.line r).length ≤ bytes.length := by
  cases records with
  | nil =>
    rw [(append_eq_nil_iff.mp held).1] at complete
    cases complete
  | cons r more =>
    have text : bytes ++ rest = format.text r ++ newline :: format.lines more := by
      rw [held, Format.lines, flatMap_cons, Format.line, append_assoc]
      rfl
    rcases append_eq_append_iff.mp text with ⟨tail, whole, -⟩ | ⟨tail, rfl, whole⟩
    · -- the text of the record has no newline to end with
      have absent : newline ∉ bytes := fun member =>
        format.oneLine r (whole ▸ mem_append_left _ member)
      rw [readUntil_of_not_mem absent] at complete
      exact absurd (mem_of_getLast? complete) absent
    · cases tail with
      | nil =>
        rw [append_nil, readUntil_of_not_mem (format.oneLine r)] at complete
        exact absurd (mem_of_getLast? complete) (format.oneLine r)
      | cons b tail =>
        obtain ⟨rfl, -⟩ := List.cons.inj whole
        refine ⟨r, more, rfl, readUntil_append (format.oneLine r), ?_⟩
        simp [Format.line]

variable {s s' : Spool R} {pending : List R} {removed : List (List R)} {cut dropped : Nat}

theorem split_held (held : s.file ++ s.buffer = format.lines (records ++ more))
    (inside : (format.lines records).length ≤ s.file.length) :
    s.file.take (format.lines records).length = format.lines records ∧
      s.file.drop (format.lines records).length ++ s.buffer = format.lines more := by
  rw [lines_append] at held
  constructor
  · rw [← take_append_of_le_length inside, held, take_left]
  · rw [← drop_append_of_le_length inside, held, drop_left]

theorem removed_bytes {removals : List Removal}
    (reports : Forall₂ (Removal.Reports format) removals removed) :
    removals.flatMap Removal.bytes = format.lines removed.flatten := by
  induction reports with
  | nil => rfl
  | @cons removal _ _ _ first _ ih =>
    rw [flatMap_cons, ih, flatten_cons, lines_append]
    cases removal with
    | truncated => rw [show _ = _ from first, Removal.bytes]
    | trimmed => rw [first.1, Removal.bytes]

theorem Planned.grow (planned : Planned format s pending cut dropped) {new : List R} {x : Bytes}
    (file : s'.file = s.file ++ x) (committed : s'.committed = s.committed)
    (cursor : s'.cursor = s.cursor) : Planned format s' (pending ++ new) cut dropped := by
  obtain ⟨inside, shipped, beyond, more, rfl, acked, ends, counted⟩ := planned
  refine ⟨?_, shipped, beyond, more ++ new, append_assoc _ _ _, acked.trans committed.symm,
    ends, by rwa [cursor]⟩
  rw [file, length_append]
  omega

theorem Sound.grow (sound : Sound format s removed pending) {new : List R} {x : Bytes}
    (written : s'.written = s.written ++ new) (file : s'.file = s.file ++ x)
    (held : s'.file ++ s'.buffer = s.file ++ s.buffer ++ format.lines new)
    (rest : s'.removals = s.removals ∧ s'.committed = s.committed ∧ s'.cursor = s.cursor ∧
      s'.shipper = s.shipper) : Sound format s' removed (pending ++ new) := by
  obtain ⟨removals, committed, cursor, shipper⟩ := rest
  have longer : s.file.length ≤ s'.file.length := by
    rw [file, length_append]
    omega
  refine ⟨by rw [written, sound.written, append_assoc], removals ▸ sound.reports,
    by rw [held, sound.held, lines_append], committed ▸ sound.acked.grow file committed cursor, ?_⟩
  have before := sound.shipper
  rw [shipper]
  cases at' : s.shipper with
  | idle => trivial
  | planning len cap cut dropped =>
    rw [at'] at before
    exact ⟨before.1.grow file committed cursor, Nat.le_trans before.2 longer⟩
  | planned cut dropped =>
    rw [at'] at before
    exact Planned.grow before file committed cursor
  | copying keepFrom len0 dropped tmp =>
    rw [at'] at before
    obtain ⟨planned, inside, copied, same⟩ := before
    refine ⟨planned.grow file committed cursor, Nat.le_trans inside longer, copied, ?_⟩
    rw [file, drop_append_of_le_length (by omega),
      take_append_of_le_length (by rw [length_drop]; omega)]
    exact same

theorem Sound.flush (sound : Sound format s removed pending) :
    Sound format s.flushed removed (pending ++ []) :=
  sound.grow (append_nil _).symm rfl (by simp [Spool.flushed, Format.lines])
    ⟨rfl, rfl, rfl, rfl⟩

theorem Planned.next (planned : Planned format s pending cut dropped)
    (held : s.file ++ s.buffer = format.lines pending)
    (complete : (readUntil newline (s.file.drop cut)).getLast? = some newline) :
    ∃ r, readUntil newline (s.file.drop cut) = format.line r ∧
      Planned format s pending (cut + (format.line r).length)
        (if s.cursor.covers (format.seq r) then dropped else dropped + 1) := by
  obtain ⟨inside, shipped, beyond, more, rfl, acked, rfl, counted⟩ := planned
  obtain ⟨r, later, rfl, line, fits⟩ :=
    readUntil_lines (split_held held inside).2 complete
  rw [length_drop] at fits
  refine ⟨r, line, by omega, shipped, beyond ++ [r], later, by simp, acked, ?_, ?_⟩
  · simp [Format.lines, Nat.add_assoc]
  · rw [countP_append, ← counted]
    cases covered : s.cursor.covers (format.seq r) <;> simp [covered]

theorem shipperSound_planResult (planned : Planned format s pending cut dropped) :
    ShipperSound format s pending (planResult cut dropped) := by
  unfold planResult
  split
  · exact planned
  · trivial

theorem shipperSound_planTrim (sound : Sound format s removed pending) (cap : Nat) :
    ShipperSound format s pending (planTrim s cap) := by
  have acked := sound.acked
  simp only [planTrim, Nat.min_eq_left acked.1]
  split
  · trivial
  · split
    · exact ⟨acked, Nat.le_refl _⟩
    · exact shipperSound_planResult acked

theorem shipperSound_planLine (sound : Sound format s removed pending) {len cap : Nat}
    (planned : Planned format s pending cut dropped) (inside : len ≤ s.file.length) :
    ShipperSound format s pending (planLine format s len cap cut dropped) := by
  unfold planLine
  split
  · dsimp only
    split
    next => exact shipperSound_planResult planned
    next fits =>
      push Not at fits
      obtain ⟨r, line, further⟩ := planned.next sound.held fits.2.1
      rw [line, Format.line, dropLast_concat, format.readsBack]
      refine ⟨?_, inside⟩
      cases covered : s.cursor.covers (format.seq r) <;> simpa [covered, Format.line] using further
  · exact shipperSound_planResult planned

theorem shipperSound_trimCopy {keepFrom len0 : Nat} {tmp : Bytes} (count : Nat)
    (copying : ShipperSound format s pending (.copying keepFrom len0 dropped tmp)) :
    ShipperSound format s pending
      (.copying keepFrom len0 dropped (trimCopy s count keepFrom len0 tmp)) := by
  obtain ⟨planned, inside, copied, same⟩ := copying
  have length : (trimCopy s count keepFrom len0 tmp).length =
      tmp.length + min count (len0 - keepFrom - tmp.length) := by
    rw [trimCopy, length_append, length_take, length_drop]
    omega
  refine ⟨planned, inside, by omega, ?_⟩
  rw [length, take_add, ← same, drop_drop, trimCopy]

theorem sound_trimFinish {keepFrom len0 : Nat} {tmp : Bytes}
    (sound : Sound format s removed pending) (at' : s.shipper = .copying keepFrom len0 dropped tmp)
    (done : tmp.length = len0 - keepFrom) :
    Accounted format (trimFinish s keepFrom len0 dropped tmp) := by
  have sound := sound.flush
  have copying := sound.shipper
  rw [show s.flushed.shipper = _ from at'] at copying
  obtain ⟨⟨cutInside, shipped, beyond, more, split, acked, ends, counted⟩, inside, copied, same⟩ :=
    copying
  have held := sound.held
  rw [split] at held
  obtain ⟨front, back⟩ := split_held held (ends ▸ cutInside)
  rw [ends] at front back
  -- what was copied before and under the lock is what lies behind the cut
  have copy : tmp ++ (s.flushed.file.drop (keepFrom + tmp.length)).take
      (s.flushed.file.length - len0) = s.flushed.file.drop keepFrom := by
    rw [take_of_length_le (by rw [length_drop]; omega), ← drop_drop]
    conv_lhs => rw [same]
    rw [length_take, Nat.min_eq_left (by rw [length_drop]; omega)]
    exact take_append_drop _ _
  have none : s.flushed.committed - keepFrom = 0 := by
    rw [← acked, ← ends, lines_append, length_append]
    omega
  refine ⟨removed ++ [shipped ++ beyond], more, ?_⟩
  unfold trimFinish
  rw [if_neg (by omega), copy]
  refine ⟨?_, ?_, back, ⟨none ▸ Nat.zero_le _, [], [], more, rfl, none.symm, none.symm, rfl⟩,
    trivial⟩
  · rw [flatten_append, flatten_singleton, append_assoc, ← split]
    exact sound.written
  · exact rel_append sound.reports (.cons ⟨front, shipped, beyond, rfl, acked, counted⟩ .nil)

theorem sound_compactIfDrained (sound : Sound format s removed pending) (idle : s.shipper = .idle) :
    Accounted format s.compactIfDrained := by
  unfold Spool.compactIfDrained
  split
  next => exact ⟨removed, pending, sound⟩
  next drained =>
    push Not at drained
    obtain ⟨inside, shipped, beyond, more, split, -, ends, -⟩ := sound.acked
    have held := sound.held
    rw [split] at held
    obtain ⟨front, back⟩ := split_held held (ends ▸ inside)
    rw [ends, ← drained.2, take_length] at front
    rw [ends, ← drained.2, drop_length] at back
    refine ⟨removed ++ [shipped ++ beyond], more, ?_, ?_, back,
      ⟨Nat.zero_le _, [], [], more, rfl, rfl, rfl, rfl⟩, idle ▸ trivial⟩
    · rw [flatten_append, flatten_singleton, append_assoc, ← split]
      exact sound.written
    · exact rel_append sound.reports (.cons front .nil)

theorem Planned.acked (planned : Planned format s pending cut dropped) (cursor : SeqCursor) :
    Planned format { s with committed := cut, cursor := cursor } pending cut 0 := by
  obtain ⟨inside, shipped, beyond, more, split, -, ends, -⟩ := planned
  exact ⟨inside, shipped ++ beyond, [], more, by rw [append_nil, split], ends,
    by rw [append_nil, ends], rfl⟩

theorem Sound.withShipper (sound : Sound format s removed pending) {shipper : Shipper}
    (next : ShipperSound format s pending shipper) :
    Accounted format { s with shipper := shipper } :=
  ⟨removed, pending, sound.written, sound.reports, sound.held, sound.acked, next⟩

theorem sound_step {e : Event R} (sound : Sound format s removed pending)
    (taken : step format s e = some s') : Accounted format s' := by
  have before := sound.shipper
  revert taken
  -- the steps that are taken, in the order of `step`
  fun_cases step format s e <;> rintro ⟨⟩
  next r =>
    exact ⟨removed, pending ++ [r], sound.grow (x := []) rfl (append_nil _).symm
      (by simp [Format.lines]) ⟨rfl, rfl, rfl, rfl⟩⟩
  · exact ⟨removed, pending ++ [], sound.grow (append_nil _).symm rfl
      (by simp [Format.lines]) ⟨rfl, rfl, rfl, rfl⟩⟩
  · exact ⟨removed, pending ++ [], sound.flush⟩
  next line complete =>
    obtain ⟨r, is, further⟩ := sound.acked.next sound.held complete.2
    rw [show line = format.line r from is]
    exact ⟨removed, pending, sound.written, sound.reports, sound.held, further.acked _,
      complete.1 ▸ trivial⟩
  next idle => exact sound_compactIfDrained sound idle
  · exact sound.withShipper (shipperSound_planTrim sound _)
  next at' =>
    rw [at'] at before
    exact sound.withShipper (shipperSound_planLine sound before.1 before.2)
  next at' =>
    rw [at'] at before
    refine sound.withShipper ?_
    unfold trimStart
    split
    · trivial
    · exact ⟨before, Nat.le_refl _, before.1, rfl⟩
  next at' copied =>
    rw [at'] at before
    exact sound.withShipper (shipperSound_trimCopy _ before)
  next at' done => exact sound_trimFinish sound at' done

/-- What was removed, the file and the buffer are always the records written, in order; the
removed stretches are whole records, and each trim reports how many unshipped ones it drops. -/
theorem spool_loses_only_reported (reached : Reached format s) :
    s.removals.flatMap Removal.bytes ++ s.file ++ s.buffer = format.lines s.written ∧
      ∃ removed, removed.flatten <+: s.written ∧
        Forall₂ (Removal.Reports format) s.removals removed := by
  have accounted : Accounted format s := by
    refine reached.invariant ?_ ?_
    · rintro s ⟨-, rfl⟩
      exact ⟨[], [], rfl, .nil, rfl, ⟨Nat.le_refl _, [], [], [], rfl, rfl, rfl, rfl⟩, trivial⟩
    · rintro s e s' ⟨removed, pending, sound⟩ - taken
      exact sound_step sound taken
  obtain ⟨removed, pending, sound⟩ := accounted
  refine ⟨?_, removed, ⟨pending, sound.written.symm⟩, sound.reports⟩
  rw [append_assoc, sound.held, sound.written, lines_append, removed_bytes sound.reports]

end

/-- Records as texts of two lengths, `0` and `1!!`. -/
def letters : Format Bool where
  text r := if r then [49, 33, 33] else [48]
  seq r := r.toNat
  readSeq bytes := if bytes = [48] then some 0 else some 1
  oneLine := by decide
  readsBack := by decide

/-- The first of three records is shipped and the second one dropped, while the third one is
written and half of it spilled. -/
def trimming : List (Event Bool) :=
  [.writeLine false, .writeLine true, .flush, .ackLine 0, .planTrim 1, .planLine, .planLine,
    .trimStart, .writeLine true, .spill 2, .trimCopy 9, .trimFinish]

theorem spool_trimmed : ∃ s, Reached letters s ∧
    s.removals = [.trimmed [48, 10, 49, 33, 33, 10] 2 ⟨0, true⟩ 1] ∧
    s.removals.flatMap Removal.bytes ++ s.file ++ s.buffer = letters.lines s.written := by
  have reached : Reached letters _ :=
    (Reachable.start ⟨⟨0, false⟩, rfl⟩).follow trimming rfl
  exact ⟨_, reached, rfl, (spool_loses_only_reported reached).1⟩

end Sqe.Audit.SpoolTrim
