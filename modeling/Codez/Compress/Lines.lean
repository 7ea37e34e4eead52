import Codez.Compress.Preprocess
import Codez.Compress.Router

/-!
The four compressors that drop lines: search results (`compress/search.rs`), diffs
(`compress/diff.rs`), logs (`compress/log.rs`) and the fallback that cuts any long text
(`compress/truncate.rs`).

Whatever they drop is replaced by a marker, and every product is plain text and says that
it is lossy (`isLossyText_search` and its three siblings).
-/

namespace LlmCompress

def textOutcome (text new : Text) : CompressOutcome :=
  if Text.byteLen new < Text.byteLen text then
    .compressed new (Text.byteLen text - Text.byteLen new) true .text
  else .unchanged

def IsLossyText (c : Compressor) : Prop :=
  ∀ text budget new saved lossy kind,
    c.compress text budget = .compressed new saved lossy kind → lossy = true ∧ kind = .text

theorem textOutcome_eq_compressed {text new out : Text} {saved : Nat} {lossy : Bool} {kind : ContentKind}
    (h : textOutcome text new = .compressed out saved lossy kind) :
    out = new ∧ Text.byteLen new < Text.byteLen text ∧ lossy = true ∧ kind = .text := by
  unfold textOutcome at h
  split at h
  · next hlt =>
    cases h
    exact ⟨rfl, hlt, rfl, rfl⟩
  · cases h

/-- Flagged lines are kept; a run of the others becomes one placeholder with its length.
`run` lines are pending. -/
def collapseGo (placeholder : Nat → Text) (run : Nat) : List (Bool × Text) → List Text
  | [] => if run = 0 then [] else [placeholder run]
  | (true, l) :: ls =>
    (if run = 0 then [] else [placeholder run]) ++ l :: collapseGo placeholder 0 ls
  | (false, _) :: ls => collapseGo placeholder (run + 1) ls

def collapse (placeholder : Nat → Text) (ls : List (Bool × Text)) : List Text :=
  collapseGo placeholder 0 ls

namespace Search

/-- The line in place of `k` matches of a file. -/
def matchesPlaceholder (k : Nat) : Text := "[llm-compress: skipped ".toList ++ Text.natText k ++ " matches]".toList

/-- The line in place of `k` files. -/
def filesPlaceholder (k : Nat) : Text := "[llm-compress: skipped ".toList ++ Text.natText k ++ " files]".toList

def parseMatch (line : Text) : Option Text :=
  match line.dropWhile (· != ':') with
  | [] => none
  | _ :: rest =>
    let num := rest.takeWhile (· != ':')
    if num.length = rest.length then none
    else if num.isEmpty || !num.all Text.isAsciiDigit then none
    else some (line.takeWhile (· != ':'))

def detect (text : Text) (budget : Budget) : Bool :=
  let lines := Text.lines text
  if budget.cmd.any CommandHint.isGrep then decide (3 ≤ lines.length)
  else if lines.length < 4 then false
  else
    let matched := lines.countP fun l => (parseMatch l).isSome
    decide (lines.length ≤ matched * 2) && decide (3 ≤ matched)

def selectInFile (ext : Ext) (hits : List Text) (maxPerFile : Nat) : List Text :=
  if hits.length ≤ maxPerFile then hits
  else
    let n := hits.length
    let mids := (hits.zipIdx.filter fun p => decide (0 < p.2) && decide (p.2 < n - 1)).insertionSort
      fun a b => lineScore ext b.1 ≤ lineScore ext a.1
    let keepIdx := 0 :: (n - 1) :: (mids.take (maxPerFile - 2)).map Prod.snd
    collapse matchesPlaceholder (hits.zipIdx.map fun p => (keepIdx.contains p.2, p.1))

def bestScore (ext : Ext) (hits : List Text) : Nat :=
  (hits.map (lineScore ext)).foldl max 0

def compressSearch (ext : Ext) (text : Text) (budget : Budget) : Option Text :=
  let maxPerFile := max budget.cfg.search.maxPerFile 2
  let maxFiles := max budget.cfg.search.maxFiles 1
  let lines := Text.lines text
  let paths := (lines.filterMap parseMatch).eraseDups
  let group := fun path => lines.filter fun l => parseMatch l == some path
  let preamble := lines.filter fun l => (parseMatch l).isNone
  if paths.isEmpty then none
  else
    let keep :=
      if maxFiles < paths.length then
        (paths.insertionSort fun a b => bestScore ext (group b) ≤ bestScore ext (group a)).take maxFiles
      else paths
    let out := preamble ++
      (paths.filter fun p => keep.contains p).flatMap fun p => selectInFile ext (group p) maxPerFile
    let foldedFiles := paths.countP fun p => !keep.contains p
    let out :=
      if 0 < foldedFiles then out ++ [filesPlaceholder foldedFiles] else out
    some (Text.joinLines out)

end Search

def searchCompressor (ext : Ext) : Compressor where
  name := "search"
  detect := Search.detect
  compress text budget :=
    match Search.compressSearch ext text budget with
    | some new => textOutcome text new
    | none => .unchanged

namespace Diff

/-- The line in place of `k` lines of context. -/
def placeholder (k : Nat) : Text := "[llm-compress: 略 ".toList ++ Text.natText k ++ " 行上下文]".toList

def consumeRange (s : Text) : Option Text :=
  if (s.takeWhile Text.isAsciiDigit).isEmpty then none
  else
    match s.dropWhile Text.isAsciiDigit with
    | ',' :: rest =>
      if (rest.takeWhile Text.isAsciiDigit).isEmpty then none
      else some (rest.dropWhile Text.isAsciiDigit)
    | rest => some rest

def isHunkHeader (line : Text) : Bool :=
  match (Text.stripPrefix "@@ -".toList line).bind consumeRange with
  | none => false
  | some rest =>
    match (Text.stripPrefix " +".toList rest).bind consumeRange with
    | none => false
    | some rest => " @@".toList.isPrefixOf rest

def isChangeLine (line : Text) : Bool :=
  if "+++ ".toList.isPrefixOf line || "--- ".toList.isPrefixOf line then false
  else line.head? == some '+' || line.head? == some '-'

def isContextLine (line : Text) : Bool := line.head? == some ' '

def detect (text : Text) : Bool :=
  let lines := Text.lines text
  lines.any (fun l => isHunkHeader l || "diff --git ".toList.isPrefixOf l) ||
    (lines.any (fun l => "--- ".toList.isPrefixOf l) &&
      lines.any fun l => "+++ ".toList.isPrefixOf l)

def nearChange (ctx : Nat) (lines : List Text) (i : Nat) : Bool :=
  ((lines.take i).drop (i - ctx)).any isChangeLine ||
    ((lines.drop (i + 1)).take ctx).any isChangeLine

def flagged (ctx : Nat) (lines : List Text) : List (Bool × Text) :=
  lines.zipIdx.map fun p => (!isContextLine p.1 || nearChange ctx lines p.2, p.1)

def compress (text : Text) (budget : Budget) : CompressOutcome :=
  let ls := flagged budget.cfg.diff.contextLines (Text.lines text)
  if ls.all Prod.fst then .unchanged
  else
    let result := Text.joinLines (collapse placeholder ls)
    textOutcome text (if text.getLast? == some '\n' then result ++ ['\n'] else result)

end Diff

def diffCompressor : Compressor where
  name := "diff"
  detect text _ := Diff.detect text
  compress := Diff.compress

namespace Log

/-- The line in place of `k` lines of a log. -/
def placeholder (k : Nat) : Text := "[llm-compress: 略 ".toList ++ Text.natText k ++ " 行]".toList

def isDigitByte (b : UInt8) : Bool := decide (48 ≤ b) && decide (b ≤ 57)

def isClock : List UInt8 → Bool
  | [h1, h2, c1, m1, m2, c2, s1, s2] =>
    isDigitByte h1 && isDigitByte h2 && c1 == 58 && isDigitByte m1 && isDigitByte m2 && c2 == 58 &&
      isDigitByte s1 && isDigitByte s2
  | _ => false

def isDate : List UInt8 → Bool
  | [y1, y2, y3, y4, d1, m1, m2, d2, t1, t2] =>
    isDigitByte y1 && isDigitByte y2 && isDigitByte y3 && isDigitByte y4 && d1 == 45 &&
      isDigitByte m1 && isDigitByte m2 && d2 == 45 && isDigitByte t1 && isDigitByte t2
  | _ => false

def lineHasFullTs (line : Text) : Bool :=
  (Text.bytes line).tails.any fun w =>
    isDate (w.take 10) && (w[10]? == some 84 || w[10]? == some 32) && isClock ((w.drop 11).take 8)

def lineHasClockTs (line : Text) : Bool :=
  (Text.bytes line).tails.any fun w => isClock (w.take 8)

def hasTimestamp (lines : List Text) : Bool := lines.any fun l => lineHasFullTs l || lineHasClockTs l

def colonThenDigit (s : Text) : Bool :=
  let b := Text.bytes s
  (b.zip b.tail).any fun p => p.1 == 58 && isDigitByte p.2

def isStackFrame (line : Text) : Bool :=
  match Text.afterFirst " at ".toList line with
  | some rest => colonThenDigit rest
  | none => false

def hasStacktrace (lines : List Text) : Bool := lines.any isStackFrame

def hasConsecutiveRepeat (lines : List Text) : Bool :=
  (lines.zip lines.tail).any fun p => p.1 == p.2

def minLines : Nat := 8

def detect (text : Text) : Bool :=
  let lines := Text.lines text
  if lines.length < minLines then false
  else hasTimestamp lines || hasStacktrace lines || hasConsecutiveRepeat lines

def lineHasKeepLevel (ext : Ext) (line : Text) (keepLevels : List Text) : Bool :=
  keepLevels.any fun lvl => Text.contains lvl (ext.toLowercase line)

/-- Line `i` of `n` is kept: it is in the head or the tail, a marker, an error, of a level
to keep, or a stack frame. -/
def keeps (ext : Ext) (cfg : Config) (n i : Nat) (line : Text) : Bool :=
  decide (i < cfg.truncate.headLines) || decide (n - cfg.truncate.tailLines ≤ i) ||
    Preprocess.isMarker line || decide (2 ≤ lineScore ext line) ||
    lineHasKeepLevel ext line cfg.log.keepLevels || isStackFrame line

def flagged (ext : Ext) (cfg : Config) (lines : List Text) : List (Bool × Text) :=
  lines.zipIdx.map fun p => (keeps ext cfg lines.length p.2 p.1, p.1)

def compress (ext : Ext) (text : Text) (budget : Budget) : CompressOutcome :=
  let lines := Text.lines text
  if lines.length ≤ budget.cfg.truncate.headLines + budget.cfg.truncate.tailLines then .unchanged
  else
    let ls := flagged ext budget.cfg lines
    if ls.all Prod.fst then .unchanged
    else textOutcome text (Text.joinLines (collapse placeholder ls))

end Log

def logCompressor (ext : Ext) : Compressor where
  name := "log"
  detect text _ := Log.detect text
  compress := Log.compress ext

namespace Truncate

inductive Scan where
  | plain
  | esc
  | csi

def stripAnsiGo : Scan → List UInt8 → List UInt8
  | _, [] => []
  | .plain, b :: bs => if b = 0x1b then stripAnsiGo .esc bs else b :: stripAnsiGo .plain bs
  | .esc, b :: bs => if b = 91 then stripAnsiGo .csi bs else stripAnsiGo .plain bs
  | .csi, b :: bs => if 0x40 ≤ b ∧ b ≤ 0x7e then stripAnsiGo .plain bs else stripAnsiGo .csi bs

def stripAnsi (input : Text) : Text :=
  (Text.fromUtf8 (stripAnsiGo .plain (Text.bytes input))).getD input

/-- The line in place of `n` lines of `bytes` bytes. -/
def marker (n bytes : Nat) : Text :=
  "[llm-compress: 略 ".toList ++ Text.natText n ++ " 行 / ".toList ++ Text.natText bytes ++ " 字节]".toList

def buildHeadTail (lines : List Text) (head tail : Nat) : Text :=
  let n := lines.length
  if n ≤ head + tail then Text.joinLines lines
  else
    let omitted := (lines.take (n - tail)).drop head
    let omittedBytes := (omitted.map Text.byteLen).sum + (omitted.length - 1)
    Text.joinLines (lines.take head ++ [marker omitted.length omittedBytes] ++ lines.drop (n - tail))

def suffix : Text := "\n[llm-compress: 截断至 max_bytes]".toList

def hardTruncate (text : Text) (maxBytes : Nat) : Text :=
  Text.takeBytes (maxBytes - Text.byteLen suffix) text ++ suffix

def compress (text : Text) (budget : Budget) : CompressOutcome :=
  let cfg := budget.cfg.truncate
  let cleaned := stripAnsi text
  let lines := cleaned.splitOn '\n'
  if lines.length ≤ cfg.headLines + cfg.tailLines ∧ Text.byteLen cleaned ≤ cfg.maxBytes then .unchanged
  else
    let result := buildHeadTail lines cfg.headLines cfg.tailLines
    textOutcome text
      (if cfg.maxBytes < Text.byteLen result then hardTruncate result cfg.maxBytes else result)

example : stripAnsi "\x1b[1;31mred\x1b[0m".toList = "red".toList := by decide

end Truncate

def truncateCompressor : Compressor where
  name := "truncate"
  detect _ _ := true
  compress := Truncate.compress

theorem isLossyText_search (ext : Ext) : IsLossyText (searchCompressor ext) := by
  intro text budget new saved lossy kind h
  simp only [searchCompressor] at h
  split at h
  · exact (textOutcome_eq_compressed h).2.2
  · cases h

theorem isLossyText_diff : IsLossyText diffCompressor := by
  intro text budget new saved lossy kind h
  simp only [diffCompressor, Diff.compress] at h
  split at h
  · cases h
  · exact (textOutcome_eq_compressed h).2.2

theorem isLossyText_log (ext : Ext) : IsLossyText (logCompressor ext) := by
  intro text budget new saved lossy kind h
  simp only [logCompressor, Log.compress] at h
  split at h
  · cases h
  · split at h
    · cases h
    · exact (textOutcome_eq_compressed h).2.2

theorem isLossyText_truncate : IsLossyText truncateCompressor := by
  intro text budget new saved lossy kind h
  simp only [truncateCompressor, Truncate.compress] at h
  split at h
  · cases h
  · exact (textOutcome_eq_compressed h).2.2

end LlmCompress
