import Codez.Compress.Command

/-!
The contract of a compressor and the router that picks one (`router.rs`), with the line
scores (`score.rs`) and the protection gate (`protect.rs`) that stand beside it.

The router asks the compressors in a fixed order, one of them moved to the front when the command
hints at it; the first that detects its content compresses.
-/

namespace LlmCompress

open List

inductive ContentKind where
  | text
  | json
  | toon
deriving DecidableEq

structure Budget where
  cfg : Config
  cmd : Option CommandHint

inductive CompressOutcome where
  | compressed (text : Text) (savedBytes : Nat) (lossy : Bool) (kind : ContentKind)
  | unchanged
deriving DecidableEq

/-- `detect` and `compress` are total: a panic in `detect` counts as no, a panic in
`compress` as `unchanged`, as the router treats them. -/
structure Compressor where
  name : String
  detect : Text → Budget → Bool
  compress : Text → Budget → CompressOutcome

def preferred (budget : Budget) : Option String :=
  match budget.cmd with
  | none => none
  | some c => if c.isGitDiff then some "diff" else if c.isGrep then some "search" else none

/-- The compressors in the order they are asked: the first one with the preferred name is
moved to the front. -/
def order (compressors : List Compressor) (name : Option String) : List Compressor :=
  match name with
  | none => compressors
  | some name =>
    match compressors.findIdx? fun c => c.name == name with
    | none => compressors
    | some pos => compressors[pos]?.toList ++ compressors.eraseIdx pos

def compressText (compressors : List Compressor) (text : Text) (budget : Budget) :
    Option (Text × Bool × ContentKind) :=
  match (order compressors (preferred budget)).find? fun c => c.detect text budget with
  | none => none
  | some c =>
    match c.compress text budget with
    | .compressed new savedBytes lossy kind => if 0 < savedBytes then some (new, lossy, kind) else none
    | .unchanged => none

variable (compressors : List Compressor)

theorem mem_of_mem_order (name : Option String) (c : Compressor) (h : c ∈ order compressors name) :
    c ∈ compressors := by
  unfold order at h
  split at h
  · exact h
  · split at h
    · exact h
    · next pos _ =>
      rcases mem_append.mp h with h | h
      · exact mem_of_getElem? (Option.mem_toList.mp h)
      · exact mem_of_mem_eraseIdx h

theorem compressText_eq_some (text : Text) (budget : Budget) (new : Text) (lossy : Bool) (kind : ContentKind)
    (h : compressText compressors text budget = some (new, lossy, kind)) :
    ∃ c ∈ compressors, c.detect text budget = true ∧
      ∃ savedBytes, 0 < savedBytes ∧ c.compress text budget = .compressed new savedBytes lossy kind := by
  unfold compressText at h
  split at h
  · cases h
  · next c hc =>
    refine ⟨c, mem_of_mem_order _ _ c (mem_of_find?_eq_some hc), ?_, ?_⟩
    · have := find?_some hc
      exact this
    · split at h
      · next new' saved lossy' kind' he =>
        split at h
        · next hs =>
          cases h
          exact ⟨saved, hs, he⟩
        · cases h
      · cases h

def errorKeywords : List Text :=
  ["error".toList, "fail".toList, "panic".toList, "exception".toList, "traceback".toList, "fatal".toList]

/-- `line_score` in halves: 2 for an error line, 1 for a warning, 0 for anything else. -/
def lineScore (ext : Ext) (line : Text) : Nat :=
  let trimmed := Text.trim line
  if trimmed.isEmpty || !trimmed.any ext.isAlphanumeric then 0
  else
    let lower := ext.toLowercase line
    if errorKeywords.any fun k => Text.contains k lower then 2
    else if ["warn".toList, "warning".toList].any fun k => Text.contains k lower then 1
    else 0

def strongErrorMarkers : List Text :=
  ["traceback (most recent call last)".toList, "panic".toList, "error:".toList,
    "exception".toList, "fatal:".toList, "segmentation fault".toList]

def shouldProtect (ext : Ext) (text : Text) (cmd : Option CommandHint) (cfg : Config) : Bool :=
  let limit := cfg.protect.errorMaxBytes
  if limit = 0 then false
  else if limit ≤ Text.byteLen text then false
  else
    let lower := ext.toLowercase text
    let hasError := strongErrorMarkers.any fun m => Text.contains m lower
    let testFailed := cmd.any CommandHint.isTestRunner &&
      (Text.contains "fail".toList lower || Text.contains "error".toList lower)
    hasError || testFailed

end LlmCompress
