import Codez.Compress.Config

/-!
The five line stages every tool output goes through before it is routed
(`preprocess.rs`), in the order

    strip_progress → blob_fold → collapse_blank → truncate_lines → dedup_consecutive
-/

namespace LlmCompress.Preprocess

open List

def isExponent : Text → Bool
  | [] => true
  | c :: w =>
    let digits := match w with
      | '+' :: w => w
      | '-' :: w => w
      | w => w
    (c == 'e' || c == 'E') && !digits.isEmpty && digits.all Text.isAsciiDigit

def isDecimal (w : Text) : Bool :=
  let int := w.takeWhile Text.isAsciiDigit
  match w.dropWhile Text.isAsciiDigit with
  | '.' :: rest =>
    let frac := rest.takeWhile Text.isAsciiDigit
    (!int.isEmpty || !frac.isEmpty) && isExponent (rest.dropWhile Text.isAsciiDigit)
  | rest => !int.isEmpty && isExponent rest

def parsesF64 (w : Text) : Bool :=
  let w := match w with
    | '+' :: w => w
    | '-' :: w => w
    | w => w
  isDecimal w ||
    ["inf".toList, "infinity".toList, "nan".toList].contains (w.map Char.toLower)

def isPercent (w : Text) : Bool :=
  w.getLast? == some '%' && parsesF64 (w.rdropWhile (· == '%'))

def isProgressLine (line : Text) : Bool :=
  let t := Text.trimStart line
  if "Downloading".toList.isPrefixOf t || "Downloaded".toList.isPrefixOf t ||
      "Fetching".toList.isPrefixOf t then true
  else if line.any (· == '\r') then true
  else
    (Text.splitWhitespace t).any isPercent && t.any fun c => c == '[' || c == '#' || c == '='

def stripProgress (text : Text) : Text × Bool :=
  let ls := text.splitOn '\n'
  (Text.joinLines (ls.filter fun l => !isProgressLine l), ls.any isProgressLine)

example : isProgressLine " 45% [####   ]".toList = true := by decide

def rewriteLines (p : Text → Bool) (f : Text → Text) (text : Text) : Text × Bool :=
  let ls := text.splitOn '\n'
  (Text.joinLines (ls.map fun l => if p l then f l else l), ls.any p)

def isBase64Char (c : Char) : Bool :=
  Text.isAsciiAlphanumeric c || c == '+' || c == '/' || c == '=' || c == '-' || c == '_'

def isBlobish (s : Text) : Bool :=
  if "data:".toList.isPrefixOf s then true
  else !s.isEmpty && s.countP isBase64Char == Text.byteLen s

def blobFold (text : Text) (minBytes : Nat) : Text × Bool :=
  rewriteLines
    (fun l => decide (minBytes ≤ Text.byteLen (Text.trim l)) && isBlobish (Text.trim l))
    (fun l => "[llm-compress: base64 ".toList ++ Text.natText (Text.byteLen (Text.trim l)) ++
      " bytes]".toList)
    text

def truncateLines (text : Text) (maxBytes : Nat) : Text × Bool :=
  rewriteLines
    (fun l => decide (maxBytes < Text.byteLen l))
    (fun l => Text.takeBytes maxBytes l ++ "[llm-compress: line truncated]".toList)
    text

def isBlank (l : Text) : Bool := (Text.trim l).isEmpty

def collapseBlankGo (prevBlank : Bool) : List Text → List Text
  | [] => []
  | l :: ls =>
    if isBlank l && prevBlank then collapseBlankGo prevBlank ls
    else l :: collapseBlankGo (isBlank l) ls

def collapseBlank (text : Text) : Text := Text.joinLines (collapseBlankGo false (text.splitOn '\n'))

def isMarker (l : Text) : Bool := "[llm-compress: ".toList.isPrefixOf l

/-- The line behind a line that stands for `n` copies of it. -/
def countLine (n : Nat) : Text := "[llm-compress: previous line ×".toList ++ Text.natText n ++ [']']

def runLines (cur : Text) (count : Nat) : List Text := if 2 ≤ count then [cur, countLine count] else [cur]

/-- The loop of `dedup_consecutive`, after `count` copies of `cur`.  A marker line never
continues a run, so it is always a run of its own. -/
def dedupGo (cur : Text) (count : Nat) : List Text → List Text
  | [] => runLines cur count
  | l :: ls =>
    if l = cur ∧ isMarker l = false then dedupGo cur (count + 1) ls
    else runLines cur count ++ dedupGo l 1 ls

def dedupLines : List Text → List Text
  | [] => []
  | l :: ls => dedupGo l 1 ls

def dedupConsecutive (text : Text) : Text := Text.joinLines (dedupLines (text.splitOn '\n'))

/-- One stage, when it is switched on: the text so far is rewritten, and the flag is set
when the stage dropped content. -/
def stage (on : Bool) (f : Text → Text × Bool) (st : Text × Bool) : Text × Bool :=
  if on then ((f st.1).1, st.2 || (f st.1).2) else st

def reformatting (f : Text → Text) (text : Text) : Text × Bool := (f text, false)

def run (text : Text) (cfg : PreprocessCfg) : Text × Bool :=
  let st := (text, false)
  let st := stage cfg.stripProgress stripProgress st
  let st := stage (decide (0 < cfg.blobMinBytes)) (blobFold · cfg.blobMinBytes) st
  let st := stage cfg.collapseBlank (reformatting collapseBlank) st
  let st := stage (decide (0 < cfg.truncateLineBytes)) (truncateLines · cfg.truncateLineBytes) st
  stage cfg.dedupConsecutive (reformatting dedupConsecutive) st

def Faithful (f : Text → Text × Bool) : Prop := ∀ text, (f text).2 = false → (f text).1 = text

theorem stripProgress_faithful : Faithful stripProgress := by
  intro text h
  have hall : ∀ l ∈ text.splitOn '\n', (!isProgressLine l) = true := by
    intro l hl
    have := any_eq_false.mp h l hl
    simpa using this
  show Text.joinLines ((text.splitOn '\n').filter fun l => !isProgressLine l) = text
  rw [filter_eq_self.mpr hall]
  exact intercalate_splitOn ..

theorem rewriteLines_faithful (p : Text → Bool) (f : Text → Text) : Faithful (rewriteLines p f) := by
  intro text h
  have hmap : ((text.splitOn '\n').map fun l => if p l then f l else l) = text.splitOn '\n' := by
    rw [map_congr_left (g := id), map_id]
    intro l hl
    have := any_eq_false.mp h l hl
    simp [this]
  show Text.joinLines ((text.splitOn '\n').map fun l => if p l then f l else l) = text
  rw [hmap]
  exact intercalate_splitOn ..

theorem blobFold_faithful (minBytes : Nat) : Faithful (blobFold · minBytes) :=
  rewriteLines_faithful _ _

theorem truncateLines_faithful (maxBytes : Nat) : Faithful (truncateLines · maxBytes) :=
  rewriteLines_faithful _ _

theorem stage_flag_of_kept (on : Bool) (f : Text → Text × Bool) (st : Text × Bool)
    (h : (stage on f st).2 = false) : st.2 = false := by
  unfold stage at h
  split at h
  · simpa using (Bool.or_eq_false_iff.mp h).1
  · exact h

theorem stage_of_faithful (on : Bool) (f : Text → Text × Bool) (hf : Faithful f) (st : Text × Bool)
    (h : (stage on f st).2 = false) : (stage on f st).1 = st.1 := by
  unfold stage at h ⊢
  split
  · next hon =>
    rw [if_pos hon] at h
    exact hf st.1 (Bool.or_eq_false_iff.mp h).2
  · rfl

theorem stage_reformatting (on : Bool) (f : Text → Text) (st : Text × Bool) :
    (stage on (reformatting f) st).1 = if on then f st.1 else st.1 := by
  unfold stage reformatting
  split <;> rfl

def reformat (text : Text) (cfg : PreprocessCfg) : Text :=
  let s := if cfg.collapseBlank then collapseBlank text else text
  if cfg.dedupConsecutive then dedupConsecutive s else s

theorem run_of_not_lossy (text : Text) (cfg : PreprocessCfg) (h : (run text cfg).2 = false) :
    (run text cfg).1 = reformat text cfg := by
  unfold run at h ⊢
  have h4 := stage_flag_of_kept _ _ _ h
  have h3 := stage_flag_of_kept _ _ _ h4
  have h2 := stage_flag_of_kept _ _ _ h3
  have h1 := stage_flag_of_kept _ _ _ h2
  rw [stage_reformatting, stage_of_faithful _ _ (truncateLines_faithful _) _ h4,
    stage_reformatting, stage_of_faithful _ _ (blobFold_faithful _) _ h2,
    stage_of_faithful _ _ stripProgress_faithful _ h1]
  rfl

def NoRepeat (ls : List Text) : Prop := ls.IsChain fun a b => ¬(b = a ∧ isMarker b = false)

theorem dedupGo_of_noRepeat (cur : Text) (ls : List Text) (h : NoRepeat (cur :: ls)) :
    dedupGo cur 1 ls = cur :: ls := by
  induction ls generalizing cur with
  | nil => rfl
  | cons l ls ih =>
    unfold NoRepeat at h
    rw [isChain_cons_cons] at h
    unfold dedupGo
    rw [if_neg h.1, ih l h.2]
    rfl

theorem dedupConsecutive_of_noRepeat (text : Text) (h : NoRepeat (text.splitOn '\n')) :
    dedupConsecutive text = text := by
  unfold dedupConsecutive
  have hl : dedupLines (text.splitOn '\n') = text.splitOn '\n' := by
    cases hs : text.splitOn '\n' with
    | nil => rfl
    | cons l ls =>
      rw [hs] at h
      exact dedupGo_of_noRepeat l ls h
  rw [hl]
  exact intercalate_splitOn ..

end LlmCompress.Preprocess
