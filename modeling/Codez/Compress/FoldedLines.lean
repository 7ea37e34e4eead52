import Codez.Compress.Lines
import Codez.Lib.Folding

/-!
What the diff and the log compressor show of a text.

Both decide line by line what to keep and fold the rest:

    collapse placeholder ls = the pieces of ls, each run as a placeholder       (collapse_eq_shown)
-/

namespace LlmCompress

open Folding List

theorem shown_closed (placeholder : Nat → Text) (xs : List Text) {ls : List (Bool × Text)}
    (hls : ∀ l ∈ ls.head?, l.1 = true) :
    (pieces (xs.map (fun x => (false, x)) ++ ls)).map (Piece.shown placeholder) =
      (if xs.length = 0 then [] else [placeholder xs.length]) ++ (pieces ls).map (Piece.shown placeholder) := by
  by_cases hxs : xs = []
  · subst hxs
    rfl
  · rw [pieces_run hxs hls, if_neg (by simpa using hxs)]
    rfl

theorem collapseGo_eq_shown (placeholder : Nat → Text) (xs : List Text) (ls : List (Bool × Text)) :
    collapseGo placeholder xs.length ls =
      (pieces (xs.map (fun x => (false, x)) ++ ls)).map (Piece.shown placeholder) := by
  induction ls generalizing xs with
  | nil =>
    rw [shown_closed placeholder xs (by simp)]
    simp [collapseGo, pieces]
  | cons l ls ih =>
    obtain ⟨_ | _, l⟩ := l
    · have happ : xs.map (fun x => (false, x)) ++ (false, l) :: ls = (xs ++ [l]).map (fun x => (false, x)) ++ ls := by
        simp
      rw [happ, ← ih (xs ++ [l]), length_append]
      rfl
    · have hr : collapseGo placeholder 0 ls = (pieces ls).map (Piece.shown placeholder) := ih []
      rw [shown_closed placeholder xs (by simp), collapseGo, hr]
      rfl

theorem collapse_eq_shown (placeholder : Nat → Text) (ls : List (Bool × Text)) :
    collapse placeholder ls = (pieces ls).map (Piece.shown placeholder) :=
  collapseGo_eq_shown placeholder [] ls

def flags (keep : Nat → Text → Bool) (lines : List Text) : List (Bool × Text) :=
  lines.zipIdx.map fun p => (keep p.2 p.1, p.1)

variable (keep : Nat → Text → Bool) {line : Text} {ext : Ext}

theorem getElem?_flags (lines : List Text) (i : Nat) :
    (flags keep lines)[i]? = lines[i]?.map fun line => (keep i line, line) := by
  rw [flags, getElem?_map, getElem?_zipIdx]
  cases lines[i]? with
  | none => rfl
  | some line => simp

theorem map_snd_flags (lines : List Text) : (flags keep lines).map Prod.snd = lines := by
  apply ext_getElem?
  intro i
  rw [getElem?_map, getElem?_flags]
  cases lines[i]? with
  | none => rfl
  | some line => rfl

theorem of_getElem?_flags {keep : Nat → Text → Bool} {lines : List Text} {i : Nat} {flag : Bool}
    (h : (flags keep lines)[i]? = some (flag, line)) : lines[i]? = some line ∧ flag = keep i line := by
  rw [getElem?_flags] at h
  obtain ⟨line', hl, heq⟩ := Option.map_eq_some_iff.mp h
  cases heq
  exact ⟨hl, rfl⟩

/-! ## Diffs -/

namespace Diff

def Within (ctx i j : Nat) : Prop := j ≤ i + ctx ∧ i ≤ j + ctx

theorem any_window (p : Text → Bool) (lines : List Text) (lo hi : Nat) :
    ((lines.take hi).drop lo).any p = true ↔ ∃ j line, lines[j]? = some line ∧ p line = true ∧ lo ≤ j ∧ j < hi := by
  rw [any_eq_true]
  constructor
  · rintro ⟨line, hmem, hp⟩
    obtain ⟨k, hk⟩ := mem_iff_getElem?.mp hmem
    rw [getElem?_drop, getElem?_take] at hk
    split at hk
    · next hlt => exact ⟨lo + k, line, hk, hp, by omega, hlt⟩
    · cases hk
  · rintro ⟨j, line, hj, hp, hlo, hhi⟩
    refine ⟨line, mem_iff_getElem?.mpr ⟨j - lo, ?_⟩, hp⟩
    rw [getElem?_drop, show lo + (j - lo) = j by omega, getElem?_take, if_pos hhi, hj]

theorem nearChange_iff (ctx : Nat) (lines : List Text) (i : Nat) :
    nearChange ctx lines i = true ↔ ∃ j line, lines[j]? = some line ∧ isChangeLine line ∧ j ≠ i ∧ Within ctx i j := by
  unfold nearChange
  rw [take_drop, Bool.or_eq_true, any_window, any_window]
  constructor
  · rintro (⟨j, line, hj, hch, hlo, hhi⟩ | ⟨j, line, hj, hch, hlo, hhi⟩)
    · exact ⟨j, line, hj, hch, by omega, by omega, by omega⟩
    · exact ⟨j, line, hj, hch, by omega, by omega, by omega⟩
  · rintro ⟨j, line, hj, hch, hne, habv, hbel⟩
    obtain hlt | hgt := Nat.lt_or_gt_of_ne hne
    · exact .inl ⟨j, line, hj, hch, by omega, hlt⟩
    · exact .inr ⟨j, line, hj, hch, by omega, by omega⟩

theorem flagged_eq_flags (ctx : Nat) (lines : List Text) :
    flagged ctx lines = flags (fun i line => !isContextLine line || nearChange ctx lines i) lines := rfl

def isAddedOrRemoved (line : Text) : Bool := line.head? == some '+' || line.head? == some '-'

theorem not_isContextLine_of_isAddedOrRemoved (h : isAddedOrRemoved line = true) :
    isContextLine line = false := by
  unfold isAddedOrRemoved at h
  unfold isContextLine
  simp only [Bool.or_eq_true, beq_iff_eq] at h
  obtain h | h := h
  · rw [h]
    rfl
  · rw [h]
    rfl

theorem not_isChangeLine_of_isContextLine (h : isContextLine line = true) :
    ¬ isChangeLine line = true := by
  intro hc
  have hadded : isAddedOrRemoved line = true := by
    unfold isChangeLine at hc
    split at hc
    · cases hc
    · exact hc
  rw [not_isContextLine_of_isAddedOrRemoved hadded] at h
  cases h

/-- The hunk of line `i` adds or removes a line within `ctx` lines of it. -/
def NearOwnChange (hunk : Nat → Option Nat) (ctx : Nat) (lines : List Text) (i : Nat) : Prop :=
  ∃ j line, lines[j]? = some line ∧ isAddedOrRemoved line ∧ hunk j = hunk i ∧ Within ctx i j

/-- Only context inside a hunk is folded, and only where no change of the hunk is near.  `hunk i` is the
hunk that line `i` lies in. -/
structure FoldsExcessOnly (hunk : Nat → Option Nat) (ctx : Nat) (ls : List (Bool × Text)) : Prop where
  outside : ∀ i flag line, ls[i]? = some (flag, line) → hunk i = none → flag = true
  changes : ∀ i flag line, ls[i]? = some (flag, line) → hunk i ≠ none → isAddedOrRemoved line → flag = true
  context : ∀ i line, ls[i]? = some (false, line) → hunk i ≠ none → isContextLine line →
    ¬ NearOwnChange hunk ctx (ls.map Prod.snd) i

/-- Where a change stands near, the code's own notion of a change finds one. -/
def SeesChanges (hunk : Nat → Option Nat) (ctx : Nat) (lines : List Text) : Prop :=
  ∀ i line, lines[i]? = some line → isContextLine line → (hunk i = none ∨ NearOwnChange hunk ctx lines i) →
    ∃ j line, lines[j]? = some line ∧ isChangeLine line ∧ Within ctx i j

theorem foldsExcessOnly_iff (hunk : Nat → Option Nat) (ctx : Nat) (lines : List Text) :
    FoldsExcessOnly hunk ctx (flagged ctx lines) ↔ SeesChanges hunk ctx lines := by
  rw [flagged_eq_flags]
  constructor
  · intro h i line hl hctx hshould
    have hget : (flags (fun i line => !isContextLine line || nearChange ctx lines i) lines)[i]? =
        some (nearChange ctx lines i, line) := by
      rw [getElem?_flags, hl, Option.map_some, hctx]
      rfl
    have hnear : nearChange ctx lines i = true := by
      cases hhunk : hunk i with
      | none => exact h.outside i _ line hget hhunk
      | some k =>
        by_contra hfar
        rw [Bool.not_eq_true] at hfar
        rw [hfar] at hget
        refine h.context i line hget (by simp [hhunk]) hctx ?_
        rw [map_snd_flags]
        exact hshould.resolve_left (by simp [hhunk])
    obtain ⟨j, line', hj, hch, -, hw⟩ := (nearChange_iff ctx lines i).mp hnear
    exact ⟨j, line', hj, hch, hw⟩
  · intro h
    -- a context line that should be kept is near a change
    have kept : ∀ i line, lines[i]? = some line → (hunk i = none ∨ NearOwnChange hunk ctx lines i) →
        (!isContextLine line || nearChange ctx lines i) = true := by
      intro i line hl hshould
      cases hctx : isContextLine line with
      | false => rfl
      | true =>
        obtain ⟨j, line', hj, hch, hw⟩ := h i line hl hctx hshould
        refine (nearChange_iff ctx lines i).mpr ⟨j, line', hj, hch, ?_, hw⟩
        rintro rfl
        rw [hl] at hj
        cases hj
        exact not_isChangeLine_of_isContextLine hctx hch
    constructor
    · intro i flag line hget hhunk
      obtain ⟨hl, rfl⟩ := of_getElem?_flags hget
      exact kept i line hl (.inl hhunk)
    · intro i flag line hget _ hch
      obtain ⟨hl, rfl⟩ := of_getElem?_flags hget
      rw [not_isContextLine_of_isAddedOrRemoved hch]
      rfl
    · intro i line hget _ _ hnear
      obtain ⟨hl, hflag⟩ := of_getElem?_flags hget
      rw [map_snd_flags] at hnear
      rw [kept i line hl (.inr hnear)] at hflag
      cases hflag

end Diff

/-- **Diffs.**  The product is the lines of the text, with each run of folded lines replaced by their number.
However the lines are divided into hunks, only excess context of hunks is folded exactly if the code's notions of
context and change, which know no hunks, find a change near each line that has to be kept. -/
theorem diff_folds_excess_only {text : Text} {budget : Budget}
    {new : Text} {saved : Nat} {lossy : Bool} {kind : ContentKind}
    (h : Diff.compress text budget = .compressed new saved lossy kind) :
    let ctx := budget.cfg.diff.contextLines
    let lines := Text.lines text
    let ls := Diff.flagged ctx lines
    (ls.map Prod.snd = lines ∧ ∃ ps, Cuts ls ps ∧
      new = Text.joinLines (ps.map (Piece.shown Diff.placeholder)) ++
        (if text.getLast? == some '\n' then ['\n'] else []) ∧
      ((ls.filter Prod.fst).map Prod.snd).Sublist (ps.map (Piece.shown Diff.placeholder)) ∧
      (ps.map Piece.count).sum = ls.countP fun l => !l.1) ∧
    ∀ hunk : Nat → Option Nat, Diff.FoldsExcessOnly hunk ctx ls ↔ Diff.SeesChanges hunk ctx lines := by
  intro ctx lines ls
  have hlines : ls.map Prod.snd = lines := by
    show (Diff.flagged ctx lines).map Prod.snd = lines
    rw [Diff.flagged_eq_flags, map_snd_flags]
  have hcuts := cuts_pieces ls
  refine ⟨⟨hlines, pieces ls, hcuts, ?_, hcuts.sublist_shown _, hcuts.sum_count⟩,
    fun hunk => Diff.foldsExcessOnly_iff hunk ctx lines⟩
  unfold Diff.compress at h
  simp only at h
  split at h
  · cases h
  · rw [← collapse_eq_shown]
    rw [(textOutcome_eq_compressed h).1]
    split
    · rfl
    · exact (append_nil _).symm

def gitShow : Text :=
  ("commit 1\n\n    Explain in a few words why the answer changed\n\n" ++
    "diff --git a/f b/f\n--- a/f\n+++ b/f\n@@ -1 +1 @@\n-a\n+b").toList

def removedComment : Text :=
  "diff --git a/q b/q\n--- a/q\n+++ b/q\n@@ -1,2 +1 @@\n--- all rows\n select name from a_table_with_a_long_name".toList

namespace Diff

/-- Hunks as their headers start them: line `i` is in the hunk of the last header before it, unless a new file
section was begun since. -/
def hunkOf (lines : List Text) (i : Nat) : Option Nat :=
  let start := (lines.zipIdx.take (i + 1)).reverse.find? fun p =>
    isHunkHeader p.1 || "diff --git ".toList.isPrefixOf p.1
  (start.filter fun p => isHunkHeader p.1).map Prod.snd

end Diff

open Text

theorem compress_gitShow : Diff.compress gitShow ⟨{}, none⟩ = .compressed
    ("commit 1\n\n[llm-compress: 略 1 行上下文]\n\n" ++
      "diff --git a/f b/f\n--- a/f\n+++ b/f\n@@ -1 +1 @@\n-a\n+b").toList 15 true .text := by
  unfold gitShow
  rw [String.toList_append, String.toList_append]
  repeat rw [toList_literal rfl]
  decide +kernel

theorem diff_folds_excess_only_commit :
    let ls := Diff.flagged 3 (Text.lines gitShow)
    ls.map Prod.snd = Text.lines gitShow ∧ (Diff.FoldsExcessOnly (Diff.hunkOf (Text.lines gitShow)) 3 ls ↔
      Diff.SeesChanges (Diff.hunkOf (Text.lines gitShow)) 3 (Text.lines gitShow)) :=
  ⟨(diff_folds_excess_only compress_gitShow).1.1, (diff_folds_excess_only compress_gitShow).2 _⟩

theorem commit_message_folded :
    (Diff.compress gitShow ⟨{}, none⟩ = .compressed
        ("commit 1\n\n[llm-compress: 略 1 行上下文]\n\n" ++
          "diff --git a/f b/f\n--- a/f\n+++ b/f\n@@ -1 +1 @@\n-a\n+b").toList 15 true .text ∧
      (Text.lines gitShow)[2]? = some "    Explain in a few words why the answer changed".toList ∧
      Diff.hunkOf (Text.lines gitShow) 2 = none) ∧
    (Diff.compress removedComment ⟨{}, none⟩ = .compressed
        "diff --git a/q b/q\n--- a/q\n+++ b/q\n@@ -1,2 +1 @@\n--- all rows\n[llm-compress: 略 1 行上下文]".toList
        8 true .text ∧
      (Text.lines removedComment)[5]? = some " select name from a_table_with_a_long_name".toList ∧
      Diff.hunkOf (Text.lines removedComment) 5 = some 3 ∧
      Diff.NearOwnChange (Diff.hunkOf (Text.lines removedComment)) 3 (Text.lines removedComment) 5) := by
  refine ⟨⟨compress_gitShow, ?_⟩, ?_⟩
  · unfold gitShow
    rw [String.toList_append]
    repeat rw [Text.toList_literal rfl]
    decide +kernel
  · unfold removedComment
    repeat rw [Text.toList_literal rfl]
    refine ⟨by decide +kernel, by decide +kernel, by decide +kernel, ?_⟩
    exact ⟨4, "--- all rows".toList, by decide +kernel, by decide, by decide +kernel, by unfold Diff.Within; decide⟩

/-! ## Logs -/

/-- What is used of the Unicode tables: lower-case words stay where they are, a letter `a` to `z` in the lower case
comes from an alphanumeric character, and white space is not alphanumeric. -/
structure Ext.Lowercases (ext : Ext) : Prop where
  word : ∀ k s, (∀ c ∈ k, 'a' ≤ c ∧ c ≤ 'z') → Text.contains k s = true → Text.contains k (ext.toLowercase s) = true
  letter : ∀ s, ∀ c ∈ ext.toLowercase s, 'a' ≤ c → c ≤ 'z' → ∃ d ∈ s, ext.isAlphanumeric d = true
  space : ∀ c, ext.isAlphanumeric c = true → Text.isWhitespace c = false

theorem isAlphanum_iff (c : Char) : c.isAlphanum = true ↔
    (65 ≤ c.toNat ∧ c.toNat ≤ 90) ∨ (97 ≤ c.toNat ∧ c.toNat ≤ 122) ∨ (48 ≤ c.toNat ∧ c.toNat ≤ 57) := by
  simp only [Char.isAlphanum, Char.isAlpha, Char.isUpper, Char.isLower, Char.isDigit, Bool.or_eq_true, Bool.and_eq_true,
    decide_eq_true_eq, or_assoc, ge_iff_le, UInt32.le_iff_toNat_le]
  rfl

theorem lowercases_ofTables (digests) (jsons : List (Text × Value)) (toons : List (Value × Text)) :
    (Ext.ofTables digests jsons toons).Lowercases where
  word := by
    intro k s hk h
    have hlower : k.map Char.toLower = k := by
      conv_rhs => rw [← map_id k]
      refine map_congr_left fun c hc => ?_
      have h97 : 97 ≤ c.toNat := (hk c hc).1
      apply Char.toNat_inj.mp
      rw [toNat_toLower]
      split
      · omega
      · rfl
    rw [contains_iff] at h ⊢
    show k <:+: s.map Char.toLower
    rw [← hlower]
    exact h.map _
  letter := by
    intro s c hc hlow hhigh
    obtain ⟨d, hd, rfl⟩ := mem_map.mp hc
    refine ⟨d, hd, (isAlphanum_iff d).mpr ?_⟩
    have h97 : 97 ≤ d.toLower.toNat := hlow
    have h122 : d.toLower.toNat ≤ 122 := hhigh
    have hlower := toNat_toLower d
    split at hlower <;> omega
  space := by
    intro c hc
    have hrange := (isAlphanum_iff c).mp hc
    simp only [isWhitespace, Bool.or_eq_false_iff, Bool.and_eq_false_iff, decide_eq_false_iff_not,
      beq_eq_false_iff_ne, ne_eq]
    omega

theorem errorKeywords_letters : ∀ k ∈ errorKeywords, k ≠ [] ∧ ∀ c ∈ k, 'a' ≤ c ∧ c ≤ 'z' := by
  simp [errorKeywords]

theorem lineScore_of_keyword (hext : ext.Lowercases) {k : Text} (hk : k ∈ errorKeywords)
    (h : contains k (ext.toLowercase line) = true) : lineScore ext line = 2 := by
  obtain ⟨hne, hletters⟩ := errorKeywords_letters k hk
  obtain ⟨c, k', rfl⟩ := exists_cons_of_ne_nil hne
  have hmem : c ∈ ext.toLowercase line := (contains_iff.mp h).subset mem_cons_self
  obtain ⟨d, hd, hd'⟩ := hext.letter line c hmem (hletters c mem_cons_self).1 (hletters c mem_cons_self).2
  have htrim : d ∈ trim line := mem_trim hd (hext.space d hd')
  have hany : (trim line).any ext.isAlphanumeric = true := any_eq_true.mpr ⟨d, htrim, hd'⟩
  have hkeyword : (errorKeywords.any fun k => contains k (ext.toLowercase line)) = true :=
    any_eq_true.mpr ⟨_, hk, h⟩
  unfold lineScore
  rw [if_neg (by simp [ne_nil_of_mem htrim, hany])]
  exact if_pos hkeyword

namespace Log

theorem isDigitByte_of_digit {d : Char} (h : isAsciiDigit d = true) :
    ∃ b, String.utf8EncodeChar d = [b] ∧ isDigitByte b = true := by
  simp only [isAsciiDigit, Bool.and_eq_true, decide_eq_true_eq] at h
  have hlow : 48 ≤ d.toNat := h.1
  have hhigh : d.toNat ≤ 57 := h.2
  change 48 ≤ d.val.toNat at hlow
  change d.val.toNat ≤ 57 at hhigh
  unfold String.utf8EncodeChar
  simp only
  rw [if_pos (by omega)]
  refine ⟨_, rfl, ?_⟩
  simp only [isDigitByte, Bool.and_eq_true, decide_eq_true_eq, UInt8.le_iff_toNat_le, UInt8.toNat_ofNat']
  constructor
  · show 48 ≤ d.val.toNat % 2 ^ 8
    omega
  · show d.val.toNat % 2 ^ 8 ≤ 57
    omega

theorem mem_zip_tail {α : Type} (p : List α) (x y : α) (q : List α) :
    (x, y) ∈ (p ++ x :: y :: q).zip (p ++ x :: y :: q).tail := by
  induction p with
  | nil => exact mem_cons_self
  | cons z p ih =>
    cases p with
    | nil | cons w p => exact mem_cons_of_mem _ ih

theorem colonThenDigit_of (b c : Text) {d : Char} (hd : isAsciiDigit d = true) :
    colonThenDigit (b ++ ':' :: d :: c) = true := by
  obtain ⟨x, hx, hdigit⟩ := isDigitByte_of_digit hd
  have hbytes : bytes (b ++ ':' :: d :: c) = bytes b ++ 58 :: x :: bytes c := by
    rw [bytes_append, bytes_cons, bytes_cons, hx]
    rfl
  unfold colonThenDigit
  simp only
  rw [hbytes]
  exact any_eq_true.mpr ⟨(58, x), mem_zip_tail _ _ _ _, by simp [hdigit]⟩

def StackFrame (line : Text) : Prop :=
  ∃ a b c d, line = a ++ " at ".toList ++ (b ++ ':' :: d :: c) ∧ Text.isAsciiDigit d = true

theorem isStackFrame_of (h : StackFrame line) : isStackFrame line = true := by
  obtain ⟨a, b, c, d, rfl, hd⟩ := h
  -- the code looks after the first ` at `
  obtain ⟨r, hr, pre, rfl⟩ := afterFirst_append " at ".toList a (b ++ ':' :: d :: c)
  unfold isStackFrame
  rw [hr, ← append_assoc]
  exact colonThenDigit_of (pre ++ b) c hd

def HasLevel (ext : Ext) (line lvl : Text) : Prop := Text.contains (ext.toLowercase lvl) (ext.toLowercase line) = true

/-- What a log keeps: its head and its tail, errors, lines of the levels to keep and stack frames. -/
structure Retains (ext : Ext) (cfg : Config) (ls : List (Bool × Text)) : Prop where
  head : ∀ (i : Nat) (flag : Bool) (line : Text), ls[i]? = some (flag, line) → i < cfg.truncate.headLines → flag = true
  tail : ∀ (i : Nat) (flag : Bool) (line : Text), ls[i]? = some (flag, line) →
    ls.length ≤ i + cfg.truncate.tailLines → flag = true
  errors : ∀ (i : Nat) (flag : Bool) (line : Text), ls[i]? = some (flag, line) → ∀ k ∈ errorKeywords,
    Text.contains k line = true ∨ Text.contains k (ext.toLowercase line) = true → flag = true
  levels : ∀ (i : Nat) (flag : Bool) (line : Text), ls[i]? = some (flag, line) →
    ∀ lvl ∈ cfg.log.keepLevels, HasLevel ext line lvl → flag = true
  frames : ∀ (i : Nat) (flag : Bool) (line : Text), ls[i]? = some (flag, line) → StackFrame line → flag = true

/-- A line of a level to keep is kept for another reason, or has some level as it is spelled. -/
def FindsLevels (ext : Ext) (cfg : Config) (lines : List Text) : Prop :=
  ∀ i line, lines[i]? = some line → ∀ lvl ∈ cfg.log.keepLevels, HasLevel ext line lvl →
    i < cfg.truncate.headLines ∨ lines.length ≤ i + cfg.truncate.tailLines ∨ Preprocess.isMarker line = true ∨
      2 ≤ lineScore ext line ∨ (∃ lvl' ∈ cfg.log.keepLevels, Text.contains lvl' (ext.toLowercase line) = true) ∨
      isStackFrame line = true

theorem flagged_eq_flags (ext : Ext) (cfg : Config) (lines : List Text) :
    flagged ext cfg lines = flags (keeps ext cfg lines.length) lines := rfl

theorem keeps_iff (ext : Ext) (cfg : Config) (n i : Nat) (line : Text) :
    keeps ext cfg n i line = true ↔
      i < cfg.truncate.headLines ∨ n ≤ i + cfg.truncate.tailLines ∨ Preprocess.isMarker line = true ∨
        2 ≤ lineScore ext line ∨ (∃ lvl ∈ cfg.log.keepLevels, contains lvl (ext.toLowercase line) = true) ∨
        isStackFrame line = true := by
  simp only [keeps, lineHasKeepLevel, Bool.or_eq_true, decide_eq_true_eq, any_eq_true, Nat.sub_le_iff_le_add, or_assoc]

theorem retains_iff (hext : ext.Lowercases) (cfg : Config) (lines : List Text) :
    Retains ext cfg (flagged ext cfg lines) ↔ FindsLevels ext cfg lines := by
  rw [flagged_eq_flags]
  constructor
  · intro h i line hl lvl hlvl hlevel
    refine (keeps_iff ext cfg lines.length i line).mp ?_
    refine h.levels i _ line ?_ lvl hlvl hlevel
    rw [getElem?_flags, hl]
    rfl
  · intro h
    constructor
    · intro i flag line hget hi
      obtain ⟨-, rfl⟩ := of_getElem?_flags hget
      exact (keeps_iff ..).mpr (.inl hi)
    · intro i flag line hget hi
      obtain ⟨-, rfl⟩ := of_getElem?_flags hget
      rw [flags, length_map, length_zipIdx] at hi
      exact (keeps_iff ..).mpr (.inr (.inl hi))
    · intro i flag line hget k hk hcontains
      obtain ⟨-, rfl⟩ := of_getElem?_flags hget
      have hlower : contains k (ext.toLowercase line) = true :=
        hcontains.elim (hext.word k line (errorKeywords_letters k hk).2) id
      have hscore : 2 ≤ lineScore ext line := (lineScore_of_keyword hext hk hlower).ge
      exact (keeps_iff ..).mpr (.inr (.inr (.inr (.inl hscore))))
    · intro i flag line hget lvl hlvl hlevel
      obtain ⟨hl, rfl⟩ := of_getElem?_flags hget
      exact (keeps_iff ..).mpr (h i line hl lvl hlvl hlevel)
    · intro i flag line hget hfr
      obtain ⟨-, rfl⟩ := of_getElem?_flags hget
      have hstack := isStackFrame_of hfr
      exact (keeps_iff ..).mpr (.inr (.inr (.inr (.inr (.inr hstack)))))

theorem findsLevels_of_lowercase {cfg : Config} (hlevels : ∀ lvl ∈ cfg.log.keepLevels, ext.toLowercase lvl = lvl)
    (lines : List Text) : FindsLevels ext cfg lines := by
  intro i line _ lvl hlvl hlevel
  unfold HasLevel at hlevel
  rw [hlevels lvl hlvl] at hlevel
  exact .inr (.inr (.inr (.inr (.inl ⟨lvl, hlvl, hlevel⟩))))

end Log

/-- **Logs.**  The product is the lines of the text, with each maximal run of dropped lines replaced by its length.
What has to be retained is, exactly if every line of a level to keep is found; that is so where the levels are in
lower case. -/
theorem log_keeps (hext : ext.Lowercases) {text : Text} {budget : Budget} {new : Text} {saved : Nat}
    {lossy : Bool} {kind : ContentKind} (h : Log.compress ext text budget = .compressed new saved lossy kind) :
    let lines := Text.lines text
    let ls := Log.flagged ext budget.cfg lines
    (ls.map Prod.snd = lines ∧ ∃ ps, Cuts ls ps ∧ new = Text.joinLines (ps.map (Piece.shown Log.placeholder))) ∧
    (Log.Retains ext budget.cfg ls ↔ Log.FindsLevels ext budget.cfg lines) ∧
    ((∀ lvl ∈ budget.cfg.log.keepLevels, ext.toLowercase lvl = lvl) → Log.Retains ext budget.cfg ls) := by
  intro lines ls
  have hlines : ls.map Prod.snd = lines := by
    show (Log.flagged ext budget.cfg lines).map Prod.snd = lines
    rw [Log.flagged_eq_flags, map_snd_flags]
  have hiff := Log.retains_iff hext budget.cfg lines
  refine ⟨⟨hlines, pieces ls, cuts_pieces ls, ?_⟩, hiff, fun hlevels => ?_⟩
  · unfold Log.compress at h
    simp only at h
    split at h
    · cases h
    · split at h
      · cases h
      · rw [← collapse_eq_shown, (textOutcome_eq_compressed h).1]
  · exact hiff.mpr (Log.findsLevels_of_lowercase hlevels lines)

/-- A log in which one line is neither head nor tail, and a configuration that keeps lines of level `INFO`. -/
def startLog : Text := "start\nINFO listening on the configured address\nend".toList

def keepInfo : Config := { truncate := { headLines := 1, tailLines := 1 }, log := { keepLevels := ["INFO".toList] } }

theorem compress_startLog : Log.compress (Ext.ofTables [] [] []) startLog ⟨keepInfo, none⟩ =
    .compressed "start\n[llm-compress: 略 1 行]\nend".toList 15 true .text := by
  unfold startLog
  repeat rw [toList_literal rfl]
  decide +kernel

theorem log_keeps_start :
    let ls := Log.flagged (Ext.ofTables [] [] []) keepInfo (Text.lines startLog)
    Log.Retains (Ext.ofTables [] [] []) keepInfo ls ↔
      Log.FindsLevels (Ext.ofTables [] [] []) keepInfo (Text.lines startLog) :=
  (log_keeps (lowercases_ofTables [] [] []) compress_startLog).2.1

theorem info_line_dropped :
    let ext := Ext.ofTables [] [] []
    Log.compress ext startLog ⟨keepInfo, none⟩ = .compressed "start\n[llm-compress: 略 1 行]\nend".toList 15 true .text ∧
      (Text.lines startLog)[1]? = some "INFO listening on the configured address".toList ∧
      "INFO".toList ∈ keepInfo.log.keepLevels ∧
      Text.contains "INFO".toList "INFO listening on the configured address".toList = true ∧
      Log.HasLevel ext "INFO listening on the configured address".toList "INFO".toList := by
  intro ext
  refine ⟨compress_startLog, ?_⟩
  unfold startLog Log.HasLevel
  repeat rw [Text.toList_literal rfl]
  decide +kernel

end LlmCompress
