/- GID: Sqe/Planner/ScanMorsel
   generality: I
   digest: Byte-range morsels of the data files and their packing into groups. -/

import Mathlib.Data.List.Nodup
import Sqe.Library.Tiling

/-!
Sizes are natural numbers: a file has at most half as many bytes as a `u64` counts, and a chunk is
smaller than the file it is cut from.
-/

set_option autoImplicit false

namespace Sqe.Planner

open Sqe.Library.Tiling List

structure ScanMorsel where
  morselId : String
  filePath : String
  fileSizeBytes : Nat
  rowGroupStart : Nat
  rowGroupEnd : Option Nat
  startByte : Option Nat
  endByte : Option Nat
  compressedBytesEstimate : Nat
  decodedBytesEstimate : Nat
deriving DecidableEq

def saturatingMul (a b : Nat) : Nat := min (a * b) 18446744073709551615

def defaultMorselTargetBytes : Nat := 128 * 1024 * 1024

def defaultMorselMaxBytes : Nat := 256 * 1024 * 1024

variable (filePath : String)

def fileMorsel (fileSizeBytes decodedFactor : Nat) : ScanMorsel where
  morselId := filePath ++ "#file"
  filePath := filePath
  fileSizeBytes := fileSizeBytes
  rowGroupStart := 0
  rowGroupEnd := none
  startByte := none
  endByte := none
  compressedBytesEstimate := fileSizeBytes
  decodedBytesEstimate := saturatingMul fileSizeBytes decodedFactor

def byteMorsel (fileSizeBytes decodedFactor : Nat) (range : Nat × Nat) : ScanMorsel where
  morselId := filePath ++ "#b" ++ toString range.1 ++ "-" ++ toString range.2
  filePath := filePath
  fileSizeBytes := fileSizeBytes
  rowGroupStart := 0
  rowGroupEnd := none
  startByte := some range.1
  endByte := some range.2
  compressedBytesEstimate := range.2 - range.1
  decodedBytesEstimate := saturatingMul (range.2 - range.1) decodedFactor

/-- The ranges of the loop: each is a chunk long but the last. -/
def byteRanges (fileSizeBytes chunk : Nat) (positive : 0 < chunk) (start : Nat) :
    List (Nat × Nat) :=
  if start < fileSizeBytes then
    let stop := min (start + chunk) fileSizeBytes
    (start, stop) :: byteRanges fileSizeBytes chunk positive stop
  else []
termination_by fileSizeBytes - start

theorem chunk_pos (targetBytes maxBytes : Nat) :
    0 < min (max targetBytes 1) (max maxBytes (max targetBytes 1)) := by omega

def planFileByteMorsels
    (fileSizeBytes targetBytes maxBytes decodedFactor : Nat) (allowSubfileSplit : Bool) :
    List ScanMorsel :=
  if !allowSubfileSplit ∨ fileSizeBytes ≤ max targetBytes 1 then
    [fileMorsel filePath fileSizeBytes decodedFactor]
  else
    (byteRanges fileSizeBytes _ (chunk_pos targetBytes maxBytes) 0).map
      (byteMorsel filePath fileSizeBytes decodedFactor)

def decodedFactor : Nat := 4

variable (files : List (String × Nat))

def planScanMorselsByFile (targetBytes maxBytes : Nat)
    (allowSubfileSplit : String → Bool) : List ScanMorsel :=
  files.flatMap fun (path, size) =>
    planFileByteMorsels path size targetBytes maxBytes decodedFactor (allowSubfileSplit path)

theorem tiles_byteRanges (fileSizeBytes chunk : Nat) (positive : 0 < chunk) (start : Nat)
    (inside : start ≤ fileSizeBytes) :
    Tiles start (byteRanges fileSizeBytes chunk positive start) fileSizeBytes := by
  fun_induction byteRanges fileSizeBytes chunk positive start with
  | case1 start below stop ih => exact .cons (by omega) (ih (by omega))
  | case2 start done =>
    obtain rfl : start = fileSizeBytes := by omega
    exact .nil start

section

variable (filePath : String) (fileSizeBytes targetBytes maxBytes factor : Nat) (split : Bool)

theorem planFileByteMorsels_ne_nil :
    planFileByteMorsels filePath fileSizeBytes targetBytes maxBytes factor split ≠ [] := by
  rw [planFileByteMorsels]
  split
  · exact cons_ne_nil _ _
  next divided =>
    rw [byteRanges, if_pos (by omega)]
    exact cons_ne_nil _ _

theorem toDigits_inj {m n : Nat} (same : Nat.toDigits 10 m = Nat.toDigits 10 n) : m = n := by
  have value := congrArg (Nat.ofDigitChars 10 · 0) same
  simpa only [Nat.ofDigitChars_ten_toDigits] using value

theorem append_last_inj {mark : Char} {front front' tail tail' : List Char}
    (free : mark ∉ tail) (free' : mark ∉ tail')
    (same : front ++ mark :: tail = front' ++ mark :: tail') : front = front' ∧ tail = tail' := by
  rcases append_eq_append_iff.mp same with ⟨middle, fronts, tails⟩ | ⟨middle, fronts, tails⟩
  · cases middle with
    | nil => exact ⟨by simpa using fronts.symm, by simpa using tails⟩
    | cons c rest =>
      obtain ⟨-, rfl⟩ := List.cons.inj tails
      exact absurd (mem_append_right _ mem_cons_self) free
  · cases middle with
    | nil => exact ⟨by simpa using fronts, by simpa using tails.symm⟩
    | cons c rest =>
      obtain ⟨-, rfl⟩ := List.cons.inj tails
      exact absurd (mem_append_right _ mem_cons_self) free'

theorem morselId_byteMorsel (fileSizeBytes decodedFactor : Nat) (range : Nat × Nat) :
    (byteMorsel filePath fileSizeBytes decodedFactor range).morselId.toList =
      filePath.toList ++ '#' ::
        ('b' :: (Nat.toDigits 10 range.1 ++ '-' :: Nat.toDigits 10 range.2)) := by
  simp [byteMorsel]

theorem not_mem_toDigits {c : Char} (other : c.isDigit = false) (n : Nat) :
    c ∉ Nat.toDigits 10 n := fun listed => by
  rw [Nat.isDigit_of_mem_toDigits (by decide) (by decide) listed] at other
  cases other

theorem hash_not_mem_range (range : Nat × Nat) :
    '#' ∉ 'b' :: (Nat.toDigits 10 range.1 ++ '-' :: Nat.toDigits 10 range.2) := by
  simp [not_mem_toDigits (c := '#') (by decide)]

def nameTail (morsel : ScanMorsel) : List Char :=
  match morsel.startByte, morsel.endByte with
  | some start, some stop => 'b' :: (Nat.toDigits 10 start ++ '-' :: Nat.toDigits 10 stop)
  | _, _ => ['f', 'i', 'l', 'e']

/-- A morsel of the plan is named after its file and its range. -/
def Named (morsel : ScanMorsel) : Prop :=
  '#' ∉ nameTail morsel ∧ morsel.morselId.toList = morsel.filePath.toList ++ '#' :: nameTail morsel

theorem named_plan {filePath : String} {fileSizeBytes targetBytes maxBytes factor : Nat}
    {split : Bool} : ∀ morsel ∈ planFileByteMorsels filePath fileSizeBytes targetBytes maxBytes
      factor split, Named morsel ∧ morsel.filePath = filePath := by
  intro morsel planned
  rw [planFileByteMorsels] at planned
  split at planned
  · rw [mem_singleton.mp planned]
    have free : '#' ∉ ['f', 'i', 'l', 'e'] := by decide
    exact ⟨⟨free, by simp [fileMorsel, nameTail]⟩, rfl⟩
  · obtain ⟨range, -, rfl⟩ := mem_map.mp planned
    exact ⟨⟨hash_not_mem_range range, morselId_byteMorsel _ _ _ range⟩, rfl⟩

theorem named_inj {first second : ScanMorsel} (named : Named first) (named' : Named second)
    (same : first.morselId = second.morselId) :
    first.filePath = second.filePath ∧ nameTail first = nameTail second := by
  have texts := named.2.symm.trans ((congrArg String.toList same).trans named'.2)
  obtain ⟨paths, tails⟩ := append_last_inj named.1 named'.1 texts
  exact ⟨String.toList_inj.mp paths, tails⟩

theorem nodup_planFile : ((planFileByteMorsels filePath fileSizeBytes targetBytes maxBytes factor
      split).map ScanMorsel.morselId).Nodup := by
  rw [planFileByteMorsels]
  split
  · exact nodup_singleton _
  · have starts := (tiles_byteRanges fileSizeBytes _ (chunk_pos targetBytes maxBytes) 0
      (Nat.zero_le _)).nodup
    rw [map_map]
    refine List.Nodup.map_on (fun range listed other listed' same => ?_) (.of_map _ starts)
    have texts := congrArg String.toList same
    simp only [Function.comp_apply, morselId_byteMorsel] at texts
    obtain ⟨-, tails⟩ := append_last_inj (hash_not_mem_range range) (hash_not_mem_range other) texts
    obtain ⟨firsts, seconds⟩ := append_last_inj (not_mem_toDigits (by decide) _)
      (not_mem_toDigits (by decide) _) (List.cons.inj tails).2
    exact Prod.ext (toDigits_inj firsts) (toDigits_inj seconds)

end

theorem nodup_morselId {files : List (String × Nat)} (distinct : (files.map Prod.fst).Nodup)
    (targetBytes maxBytes : Nat) (split : String → Bool) :
    ((planScanMorselsByFile files targetBytes maxBytes split).map ScanMorsel.morselId).Nodup := by
  rw [planScanMorselsByFile, map_flatMap, nodup_flatMap]
  refine ⟨fun file _ => nodup_planFile _ _ _ _ _ _, ?_⟩
  refine (pairwise_map.mp distinct).imp fun {first second} differ id listed listed' => ?_
  obtain ⟨morsel, planned, rfl⟩ := mem_map.mp listed
  obtain ⟨other, planned', same⟩ := mem_map.mp listed'
  obtain ⟨named, path⟩ := named_plan morsel planned
  obtain ⟨named', path'⟩ := named_plan other planned'
  exact differ (path ▸ path' ▸ (named_inj named named' same.symm).1)

/-- The total size of a bin, and what is in it. -/
abbrev Bin := Nat × List (String × Nat)

def contents (bins : List Bin) : List (String × Nat) := bins.flatMap Prod.snd

/-- Put a file into the smallest bin it fits into, else into a new one, else into the smallest. -/
def placeFile (targetSizeBytes maxBins : Nat) (bins : List Bin) (file : String × Nat) : List Bin :=
  let add index := bins.modify index fun (total, files) => (total + file.2, files ++ [file])
  match (bins.zipIdx.filter fun entry => entry.1.1 + file.2 ≤ targetSizeBytes).minOn?
      fun entry => entry.1.1 with
  | some (_, index) => add index
  | none =>
    if bins.length < maxBins then bins ++ [(file.2, [file])]
    else
      match bins.zipIdx.minOn? fun entry => entry.1.1 with
      | some (_, index) => add index
      | none => bins

def binPackFiles (targetSizeBytes maxBins : Nat) : List (List (String × Nat)) :=
  if files.isEmpty ∨ maxBins = 0 then []
  else
    let sorted := files.mergeSort fun first second => decide (second.2 ≤ first.2)
    (sorted.foldl (placeFile targetSizeBytes maxBins) []).map Prod.snd

theorem contents_modify (bins : List Bin) (index : Nat) (file : String × Nat)
    (inside : index < bins.length) :
    (contents (bins.modify index fun (total, files) => (total + file.2, files ++ [file]))).Perm
      (file :: contents bins) := by
  induction bins generalizing index with
  | nil => exact absurd inside (Nat.not_lt_zero _)
  | cons bin rest ih =>
    cases index with
    | zero =>
      simp only [contents, modify_zero_cons, flatMap_cons, append_assoc]
      exact perm_middle
    | succ index =>
      exact (List.Perm.append_left _ (ih index (Nat.lt_of_succ_lt_succ inside))).trans
        perm_middle

theorem index_lt_of_minOn {bins : List Bin} {chosen : List (Bin × Nat)} {bin : Bin} {index : Nat}
    (part : ∀ entry ∈ chosen, entry ∈ bins.zipIdx)
    (least : (chosen.minOn? fun entry => entry.1.1) = some (bin, index)) : index < bins.length := by
  have position := mem_zipIdx (part _ (List.minOn?_mem least))
  omega

theorem contents_placeFile {targetSizeBytes maxBins : Nat} (some : 0 < maxBins) (bins : List Bin)
    (file : String × Nat) :
    (contents (placeFile targetSizeBytes maxBins bins file)).Perm (file :: contents bins) := by
  rw [placeFile]
  split
  next bin index least =>
    exact contents_modify bins index file
      (index_lt_of_minOn (fun entry listed => (mem_filter.mp listed).1) least)
  · split
    · simp [contents]
    next full =>
      split
      next bin index least =>
        exact contents_modify bins index file (index_lt_of_minOn (fun _ listed => listed) least)
      next nothing =>
        -- there is a bin, so one of them is the smallest
        cases bins with
        | nil => exact absurd some full
        | cons bin rest => cases nothing

theorem contents_foldl (targetSizeBytes : Nat) {maxBins : Nat} (some : 0 < maxBins)
    (files : List (String × Nat)) (bins : List Bin) :
    (contents (files.foldl (placeFile targetSizeBytes maxBins) bins)).Perm
      (files ++ contents bins) := by
  induction files generalizing bins with
  | nil => exact .refl _
  | cons file rest ih =>
    refine (ih _).trans ((List.Perm.append_left _ (contents_placeFile some bins file)).trans ?_)
    exact perm_middle

theorem flatten_binPackFiles (targetSizeBytes : Nat) {maxBins : Nat}
    (some : 0 < maxBins) : (binPackFiles files targetSizeBytes maxBins).flatten.Perm files := by
  rw [binPackFiles]
  split
  next none =>
    rcases none with empty | zero
    · rw [List.isEmpty_iff.mp empty]
      exact .nil
    · omega
  · have packed := contents_foldl targetSizeBytes some
      (files.mergeSort fun first second => decide (second.2 ≤ first.2)) []
    rw [contents, contents, flatMap_nil, append_nil, flatMap_def] at packed
    exact packed.trans (mergeSort_perm files _)

end Sqe.Planner
