import Codez.Compress.Preprocess
import Codez.Lib.RunMarks

/-!
What preprocessing keeps of a text (`preprocess.rs`).

A carriage return anywhere makes a line a progress line, so that of a text with CRLF line endings
only the last line can be kept (`stripProgress_crlf_iff`).
-/

namespace LlmCompress.Preprocess

open List

def crlf (text : Text) : Text := text.flatMap fun c => if c = '\n' then ['\r', '\n'] else [c]

def withCr : List Text → List Text
  | [] => []
  | [l] => [l]
  | l :: ls => (l ++ ['\r']) :: withCr ls

theorem withCr_modifyHead (c : Char) (ls : List Text) :
    withCr (ls.modifyHead (c :: ·)) = (withCr ls).modifyHead (c :: ·) := by
  match ls with
  | [] => rfl
  | [l] => rfl
  | l :: l' :: ls => rfl

theorem withCr_concat (ls : List Text) (last : Text) : withCr (ls ++ [last]) = ls.map (· ++ ['\r']) ++ [last] := by
  induction ls with
  | nil => rfl
  | cons l ls ih =>
    obtain ⟨l', ls', heq⟩ := exists_cons_of_ne_nil (append_ne_nil_of_right_ne_nil ls (cons_ne_nil last []))
    rw [cons_append, heq, withCr, ← heq, ih]
    · rfl
    · exact cons_ne_nil _ _

open Text

theorem splitOn_crlf (text : Text) : (crlf text).splitOn '\n' = withCr (text.splitOn '\n') := by
  induction text with
  | nil => rfl
  | cons c text ih =>
    obtain ⟨l, ls, hspl⟩ := exists_cons_of_ne_nil (splitOn_ne_nil '\n' text)
    by_cases hc : c = '\n'
    · subst hc
      show ('\r' :: '\n' :: crlf text).splitOn '\n' = _
      rw [splitOn_cons, if_neg (by decide), splitOn_cons, if_pos rfl, splitOn_cons, if_pos rfl, ih, hspl]
      rfl
    · have hcons : crlf (c :: text) = c :: crlf text := by
        show (if c = '\n' then ['\r', '\n'] else [c]) ++ crlf text = _
        rw [if_neg hc]
        rfl
      rw [hcons, splitOn_cons, if_neg hc, splitOn_cons, if_neg hc, ih, withCr_modifyHead]

theorem isProgressLine_of_cr {line : Text} (h : '\r' ∈ line) : isProgressLine line = true := by
  have hany : line.any (· == '\r') = true := any_eq_true.mpr ⟨'\r', h, rfl⟩
  unfold isProgressLine
  rw [hany]
  simp only
  split <;> rfl

def counterparts (text : Text) : List Text :=
  ((((crlf text).splitOn '\n').zip (text.splitOn '\n')).filter fun p => !isProgressLine p.2).map Prod.fst

variable {ls : List Text} {text last : Text} {pb : Bool} {f : Text → Text × Bool} (cfg : PreprocessCfg)

theorem counterparts_eq (h : text.splitOn '\n' = ls ++ [last]) :
    counterparts text = (ls.filter fun l => !isProgressLine l).map (· ++ ['\r']) ++
      [last].filter fun l => !isProgressLine l := by
  have hzip : (ls.map (· ++ ['\r']) ++ [last]).zip (ls ++ [last]) =
      (ls.map fun l => (l ++ ['\r'], l)) ++ [(last, last)] := by
    rw [zip_append (length_map _)]
    congr 1
    clear h
    induction ls with
    | nil => rfl
    | cons l ls ih => rw [map_cons, zip_cons_cons, map_cons, ih]
  rw [counterparts, splitOn_crlf, h, withCr_concat, hzip, filter_append, map_append, filter_map, map_map]
  congr 1
  rw [filter_singleton, filter_singleton]
  cases isProgressLine last <;> rfl

theorem stripProgress_crlf (h : text.splitOn '\n' = ls ++ [last]) :
    (stripProgress (crlf text)).1 = joinLines ([last].filter fun l => !isProgressLine l) := by
  have hnone : (ls.map (· ++ ['\r'])).filter (fun l => !isProgressLine l) = [] := by
    rw [filter_eq_nil_iff]
    intro l hl
    obtain ⟨l', -, rfl⟩ := mem_map.mp hl
    rw [isProgressLine_of_cr (by simp)]
    exact Bool.false_ne_true
  unfold stripProgress
  simp only
  rw [splitOn_crlf, h, withCr_concat, filter_append, hnone, nil_append]

/-- **Line endings.**  With CRLF the lines are kept that are kept with LF exactly if those are, except for the last,
all progress lines. -/
theorem stripProgress_crlf_iff {text : Text} (hcr : '\r' ∉ text) :
    (stripProgress (crlf text)).1 = Text.joinLines (counterparts text) ↔
      ∀ l ∈ (text.splitOn '\n').dropLast, isProgressLine l = true := by
  obtain ⟨ls, last, hsplit⟩ : ∃ ls last, text.splitOn '\n' = ls ++ [last] :=
    ⟨_, _, (dropLast_append_getLast (splitOn_ne_nil '\n' text)).symm⟩
  rw [stripProgress_crlf hsplit, counterparts_eq hsplit, hsplit, dropLast_concat]
  constructor
  · intro h l hl
    by_contra hkept
    -- a line that is kept would end with a carriage return, and there is none left
    have hmem : l ++ ['\r'] ∈ (ls.filter fun l => !isProgressLine l).map (· ++ ['\r']) ++
        [last].filter fun l => !isProgressLine l := by
      refine mem_append_left _ (mem_map.mpr ⟨l, mem_filter.mpr ⟨hl, ?_⟩, rfl⟩)
      simpa using hkept
    have hmem' : '\r' ∈ Text.joinLines ([last].filter fun l => !isProgressLine l) := by
      rw [h]
      exact Text.mem_intercalate hmem (by simp)
    have hlast : '\r' ∈ last := by
      cases hprogress : isProgressLine last with
      | true =>
        rw [filter_cons_of_neg (by simp [hprogress])] at hmem'
        cases hmem'
      | false =>
        rw [filter_cons_of_pos (by simp [hprogress])] at hmem'
        simpa [Text.joinLines] using hmem'
    refine hcr ?_
    have hjoin : ['\n'].intercalate (text.splitOn '\n') = text := intercalate_splitOn '\n'
    rw [← hjoin, hsplit]
    exact Text.mem_intercalate (mem_append_right _ mem_cons_self) hlast
  · intro h
    have hnone : ls.filter (fun l => !isProgressLine l) = [] := by
      rw [filter_eq_nil_iff]
      intro l hl
      rw [h l hl]
      exact Bool.false_ne_true
    rw [hnone]
    rfl

theorem stripProgress_crlf_iff_two :
    '\r' ∉ "a\nb".toList ∧ ((stripProgress (crlf "a\nb".toList)).1 = Text.joinLines (counterparts "a\nb".toList) ↔
      ∀ l ∈ ("a\nb".toList.splitOn '\n').dropLast, isProgressLine l = true) :=
  ⟨by decide, stripProgress_crlf_iff (by decide)⟩

theorem crlf_line_dropped : stripProgress "a\nb".toList = ("a\nb".toList, false) ∧
      stripProgress (crlf "a\nb".toList) = ("b".toList, true) ∧
        counterparts "a\nb".toList = ["a\r".toList, "b".toList] := by
  decide +kernel

theorem isMarker_countLine (n : Nat) : isMarker (countLine n) = true := by
  have hspl : "[llm-compress: previous line ×".toList =
      "[llm-compress: ".toList ++ "previous line ×".toList := by decide
  unfold isMarker countLine
  rw [List.isPrefixOf_iff_prefix, hspl, append_assoc, append_assoc]
  exact prefix_append _ _

theorem countLine_injective : Function.Injective countLine := by
  intro m n h
  unfold countLine at h
  rw [append_assoc, append_assoc, append_cancel_left_eq, append_cancel_right_eq] at h
  exact natText_inj h

theorem newline_not_mem_countLine (n : Nat) : '\n' ∉ countLine n := by
  unfold countLine
  rw [mem_append, mem_append]
  rintro ((h | h) | h)
  · exact absurd h (by decide)
  · exact newline_not_mem_natText n h
  · exact absurd h (by decide)

theorem dedupGo_eq_encodeGo (cur : Text) (count : Nat) (ls : List Text) :
    dedupGo cur count ls = RunMarks.encodeGo isMarker countLine cur count ls := by
  induction ls generalizing cur count with
  | nil => rfl
  | cons l ls ih => rw [dedupGo, RunMarks.encodeGo, ih, ih]; rfl

theorem dedupLines_eq_encode (ls : List Text) : dedupLines ls = RunMarks.encode isMarker countLine ls := by
  cases ls with
  | nil => rfl
  | cons l ls => exact dedupGo_eq_encodeGo l 1 ls

/-! ## Blank lines -/

theorem isBlank_of_isMarker {l : Text} (h : isMarker l = true) : isBlank l = false := by
  obtain ⟨rest, rfl⟩ := List.isPrefixOf_iff_prefix.mp h
  have hmem : '[' ∈ trim ("[llm-compress: ".toList ++ rest) := mem_trim mem_cons_self (by decide)
  unfold isBlank
  rw [isEmpty_eq_false_iff]
  exact ne_nil_of_mem hmem

theorem collapseBlankGo_subset : collapseBlankGo pb ls ⊆ ls := by
  induction ls generalizing pb with
  | nil => exact fun _ h => h
  | cons l ls ih =>
    unfold collapseBlankGo
    split
    · exact subset_cons_of_subset _ ih
    · exact cons_subset_cons _ ih

theorem collapseBlankGo_ne_nil (h : ls ≠ []) : collapseBlankGo false ls ≠ [] := by
  obtain ⟨l, ls, rfl⟩ := exists_cons_of_ne_nil h
  unfold collapseBlankGo
  rw [Bool.and_false, if_neg Bool.false_ne_true]
  exact cons_ne_nil _ _

theorem spread_collapseBlankGo (pb : Bool) (ls : List Text) :
    RunMarks.Spread (fun l => isBlank l = false) (collapseBlankGo pb ls) ∧
      (pb = true → ∀ l ∈ (collapseBlankGo pb ls).head?, isBlank l = false) := by
  induction ls generalizing pb with
  | nil => exact ⟨isChain_nil, by simp [collapseBlankGo]⟩
  | cons l ls ih =>
    unfold collapseBlankGo
    split
    · exact ih pb
    · next hkeep =>
      obtain ⟨hspread, hh⟩ := ih (isBlank l)
      refine ⟨isChain_cons.mpr ⟨fun l' hl' => ?_, hspread⟩, fun hprev l' hl' => ?_⟩
      · cases hblank : isBlank l with
        | false => exact .inl hblank
        | true => exact .inr (hh hblank l' hl')
      · cases hl'
        simpa [hprev] using hkeep

theorem collapseBlankGo_of_spread (hspread : RunMarks.Spread (fun l => isBlank l = false) ls)
    (hh : pb = true → ∀ l ∈ ls.head?, isBlank l = false) : collapseBlankGo pb ls = ls := by
  induction ls generalizing pb with
  | nil => rfl
  | cons l ls ih =>
    obtain ⟨hnext, hr⟩ := isChain_cons.mp hspread
    unfold collapseBlankGo
    rw [if_neg, ih hr]
    · intro hblank l' hl'
      exact (hnext l' hl').resolve_left (by simp [hblank])
    · intro hskip
      rw [Bool.and_eq_true] at hskip
      rw [hh hskip.2 l rfl] at hskip
      cases hskip.1

theorem countP_isMarker_collapseBlankGo (pb : Bool) (ls : List Text) :
    (collapseBlankGo pb ls).countP isMarker = ls.countP isMarker := by
  induction ls generalizing pb with
  | nil => rfl
  | cons l ls ih =>
    unfold collapseBlankGo
    split
    · next hskip =>
      rw [Bool.and_eq_true] at hskip
      have hmk : ¬isMarker l = true := by
        intro h
        rw [isBlank_of_isMarker h] at hskip
        cases hskip.1
      rw [ih, countP_cons_of_neg hmk]
    · rw [countP_cons, countP_cons, ih]

/-! ## When nothing is dropped -/

theorem flag_of_stage {on : Bool} {s : Text} (h : (stage on f (s, false)).2 = false) :
    on = true → (f s).2 = false := by
  intro hon
  unfold stage at h
  rw [if_pos hon] at h
  exact h

theorem stage_kept {on : Bool} {s : Text} (hf : Faithful f) (h : on = true → (f s).2 = false) :
    stage on f (s, false) = (s, false) := by
  unfold stage
  split
  · next hon =>
    rw [hf s (h hon), h hon]
    rfl
  · rfl

theorem stage_reformats (on : Bool) (f : Text → Text) (s : Text) :
    stage on (reformatting f) (s, false) = (if on then f s else s, false) := by
  unfold stage reformatting
  split <;> rfl

def spacedLines (cfg : PreprocessCfg) (text : Text) : List Text :=
  if cfg.collapseBlank then collapseBlankGo false (text.splitOn '\n') else text.splitOn '\n'

structure Unharmed (cfg : PreprocessCfg) (text : Text) : Prop where
  progress : cfg.stripProgress = true → ∀ l ∈ text.splitOn '\n', isProgressLine l = false
  blobs : 0 < cfg.blobMinBytes → ∀ l ∈ text.splitOn '\n',
    (decide (cfg.blobMinBytes ≤ Text.byteLen (Text.trim l)) && isBlobish (Text.trim l)) = false
  lengths : 0 < cfg.truncateLineBytes → ∀ l ∈ spacedLines cfg text, Text.byteLen l ≤ cfg.truncateLineBytes

theorem spacedLines_subset {cfg : PreprocessCfg} : spacedLines cfg text ⊆ text.splitOn '\n' := by
  unfold spacedLines
  split
  · exact collapseBlankGo_subset
  · exact List.Subset.refl _

theorem newline_not_mem_spacedLines {cfg : PreprocessCfg} : ∀ l ∈ spacedLines cfg text, '\n' ∉ l :=
  fun _ hl => not_mem_of_mem_splitOn (spacedLines_subset hl)

theorem spacedLines_ne_nil (text : Text) : spacedLines cfg text ≠ [] := by
  unfold spacedLines
  split
  · exact collapseBlankGo_ne_nil (splitOn_ne_nil _ _)
  · exact splitOn_ne_nil _ _

theorem joinLines_spacedLines (text : Text) :
    joinLines (spacedLines cfg text) = if cfg.collapseBlank then collapseBlank text else text := by
  unfold spacedLines
  split
  · rfl
  · exact intercalate_splitOn ..

theorem run_eq_iff (text : Text) (cfg : PreprocessCfg) (u : Text) :
    run text cfg = (u, false) ↔ Unharmed cfg text ∧
      u = joinLines (if cfg.dedupConsecutive then dedupLines (spacedLines cfg text) else spacedLines cfg text) := by
  have hspaced : (if cfg.collapseBlank then collapseBlank text else text).splitOn '\n' = spacedLines cfg text := by
    rw [← joinLines_spacedLines]
    exact splitOn_joinLines newline_not_mem_spacedLines (spacedLines_ne_nil cfg text)
  have hlast : (if cfg.dedupConsecutive then dedupConsecutive (if cfg.collapseBlank then collapseBlank text else text)
      else if cfg.collapseBlank then collapseBlank text else text) =
      joinLines (if cfg.dedupConsecutive then dedupLines (spacedLines cfg text) else spacedLines cfg text) := by
    split
    · rw [dedupConsecutive, hspaced]
    · rw [joinLines_spacedLines]
  have hlengths : (truncateLines
      (if cfg.collapseBlank then collapseBlank text else text) cfg.truncateLineBytes).2 = false ↔
      ∀ l ∈ spacedLines cfg text, byteLen l ≤ cfg.truncateLineBytes := by
    show List.any _ _ = false ↔ _
    rw [hspaced, any_eq_false]
    simp
  simp only [run]
  constructor
  · intro h
    have hflag := congrArg Prod.snd h
    have h4 := stage_flag_of_kept _ _ _ hflag
    have h2 := stage_flag_of_kept _ _ _ (stage_flag_of_kept _ _ _ h4)
    have hprogress := flag_of_stage (stage_flag_of_kept _ _ _ h2)
    rw [stage_kept stripProgress_faithful hprogress] at h h2 h4
    have hblobs := flag_of_stage h2
    rw [stage_kept (blobFold_faithful _) hblobs, stage_reformats] at h h4
    have htruncated := flag_of_stage h4
    rw [stage_kept (truncateLines_faithful _) htruncated, stage_reformats, hlast] at h
    refine ⟨⟨fun hon l hl => ?_, fun hon l hl => ?_, fun hon => ?_⟩, (congrArg Prod.fst h).symm⟩
    · simpa using any_eq_false.mp (hprogress hon) l hl
    · simpa using any_eq_false.mp (hblobs (decide_eq_true hon)) l hl
    · exact hlengths.mp (htruncated (decide_eq_true hon))
  · rintro ⟨⟨hprogress, hblobs, hls⟩, rfl⟩
    rw [stage_kept stripProgress_faithful, stage_kept (blobFold_faithful _), stage_reformats,
      stage_kept (truncateLines_faithful _), stage_reformats, hlast]
    · intro hon
      exact hlengths.mpr (hls (of_decide_eq_true hon))
    · intro hon
      refine any_eq_false.mpr fun l hl => ?_
      simp [hblobs (of_decide_eq_true hon) l hl]
    · intro hon
      refine any_eq_false.mpr fun l hl => ?_
      simp [hprogress hon l hl]

/-! ## Reading a text back -/

def MayRepeat (cfg : PreprocessCfg) (l : Text) : Prop := cfg.collapseBlank = true → isBlank l = false

/-- Some line reads like the count of the line before it, which is not repeated. -/
def Confusable (cfg : PreprocessCfg) (text : Text) : Prop :=
  cfg.dedupConsecutive = true ∧ RunMarks.Ambiguous isMarker countLine (MayRepeat cfg) (spacedLines cfg text)

theorem spread_spacedLines (text : Text) : RunMarks.Spread (MayRepeat cfg) (spacedLines cfg text) := by
  unfold spacedLines
  split
  · refine (spread_collapseBlankGo false _).1.imp fun a b hab => ?_
    exact hab.imp (fun h _ => h) (fun h _ => h)
  · next hoff => exact (pairwise_of_forall fun a b => .inl fun hon => absurd hon hoff).isChain

theorem newline_not_mem_dedupLines (h : ∀ l ∈ ls, '\n' ∉ l) : ∀ l ∈ dedupLines ls, '\n' ∉ l := by
  rw [dedupLines_eq_encode]
  intro l hl
  rcases RunMarks.mem_encode hl with hl | ⟨n, rfl⟩
  · exact h l hl
  · exact newline_not_mem_countLine n

theorem dedupLines_ne_nil (h : ls ≠ []) : dedupLines ls ≠ [] := by
  rw [dedupLines_eq_encode]
  exact RunMarks.encode_ne_nil h

theorem collapseBlank_eq_of_spacedLines {cfg : PreprocessCfg} {text text' : Text}
    (h : spacedLines cfg text = spacedLines cfg text') : collapseBlank text = collapseBlank text' := by
  have hjoin := congrArg joinLines h
  rw [joinLines_spacedLines, joinLines_spacedLines] at hjoin
  split at hjoin
  · exact hjoin
  · rw [hjoin]

theorem countP_isMarker_spacedLines (text : Text) :
    (spacedLines cfg text).countP isMarker = ((collapseBlank text).splitOn '\n').countP isMarker := by
  have hcollapsed : (collapseBlank text).splitOn '\n' = collapseBlankGo false (text.splitOn '\n') :=
    splitOn_joinLines (fun l hl => not_mem_of_mem_splitOn (collapseBlankGo_subset hl))
      (collapseBlankGo_ne_nil (splitOn_ne_nil _ _))
  rw [hcollapsed, countP_isMarker_collapseBlankGo]
  unfold spacedLines
  split
  · rw [countP_isMarker_collapseBlankGo]
  · rfl

theorem spacedLines_joinLines {cfg : PreprocessCfg} (hls : ∀ l ∈ ls, '\n' ∉ l) (hne : ls ≠ [])
    (hspread : RunMarks.Spread (MayRepeat cfg) ls) : spacedLines cfg (joinLines ls) = ls := by
  unfold spacedLines
  rw [splitOn_joinLines hls hne]
  split
  · next hon =>
    refine collapseBlankGo_of_spread (hspread.imp fun a b hab => ?_) nofun
    exact hab.imp (fun h => h hon) (fun h => h hon)
  · rfl

/-- **Reading back.**  Texts that are not confusable and come out alike, without loss, are alike up to blank lines; a
confusable text comes out like one that is not. -/
theorem reformat_recoverable (cfg : PreprocessCfg) :
    (∀ text text' u, run text cfg = (u, false) → run text' cfg = (u, false) →
      ¬Confusable cfg text → ¬Confusable cfg text' → collapseBlank text = collapseBlank text') ∧
    (∀ text u, run text cfg = (u, false) → Confusable cfg text →
      ∃ text', run text' cfg = (u, false) ∧ ¬Confusable cfg text' ∧ collapseBlank text' ≠ collapseBlank text) := by
  constructor
  · intro text text' u h h' hclear hclear'
    obtain ⟨-, rfl⟩ := (run_eq_iff text cfg u).mp h
    obtain ⟨-, heq⟩ := (run_eq_iff text' cfg _).mp h'
    apply @collapseBlank_eq_of_spacedLines cfg
    by_cases hdedup : cfg.dedupConsecutive = true
    · rw [if_pos hdedup, if_pos hdedup] at heq
      have hlines := Text.joinLines_inj (newline_not_mem_dedupLines newline_not_mem_spacedLines)
        (newline_not_mem_dedupLines newline_not_mem_spacedLines) (dedupLines_ne_nil (spacedLines_ne_nil cfg text))
        (dedupLines_ne_nil (spacedLines_ne_nil cfg text')) heq
      rw [dedupLines_eq_encode, dedupLines_eq_encode] at hlines
      exact RunMarks.encode_inj isMarker_countLine countLine_injective (fun h => hclear ⟨hdedup, h⟩)
        (fun h => hclear' ⟨hdedup, h⟩) (spread_spacedLines cfg text) (spread_spacedLines cfg text') hlines
    · rw [if_neg hdedup, if_neg hdedup] at heq
      exact Text.joinLines_inj newline_not_mem_spacedLines newline_not_mem_spacedLines (spacedLines_ne_nil cfg text)
        (spacedLines_ne_nil cfg text') heq
  · rintro text u h ⟨hdedup, hambiguous⟩
    obtain ⟨⟨hprogress, hblobs, hlengths⟩, rfl⟩ := (run_eq_iff text cfg u).mp h
    obtain ⟨ls, hclear, hspread, hsubset, hencode, hfewer⟩ :=
      RunMarks.exists_unambiguous isMarker_countLine (spread_spacedLines cfg text) hambiguous
    have hnewline : ∀ l ∈ ls, '\n' ∉ l := fun l hl => newline_not_mem_spacedLines l (hsubset hl)
    have hne : ls ≠ [] := by
      rintro rfl
      exact RunMarks.encode_ne_nil (spacedLines_ne_nil cfg text) hencode.symm
    have hspaced : spacedLines cfg (Text.joinLines ls) = ls := spacedLines_joinLines hnewline hne hspread
    have hsplit : (Text.joinLines ls).splitOn '\n' = ls := Text.splitOn_joinLines hnewline hne
    have hlines : ls ⊆ text.splitOn '\n' := fun l hl => spacedLines_subset (hsubset hl)
    refine ⟨Text.joinLines ls, (run_eq_iff _ cfg _).mpr ⟨⟨?_, ?_, ?_⟩, ?_⟩, ?_, ?_⟩
    · intro hon l hl
      rw [hsplit] at hl
      exact hprogress hon l (hlines hl)
    · intro hon l hl
      rw [hsplit] at hl
      exact hblobs hon l (hlines hl)
    · intro hon l hl
      rw [hspaced] at hl
      exact hlengths hon l (hsubset hl)
    · rw [hspaced, if_pos hdedup, if_pos hdedup, dedupLines_eq_encode, dedupLines_eq_encode, hencode]
    · rintro ⟨-, hagain⟩
      rw [hspaced] at hagain
      exact hclear hagain
    · -- the other text has fewer marker lines
      intro heq
      have hcount := countP_isMarker_spacedLines cfg (Text.joinLines ls)
      rw [hspaced, heq, ← countP_isMarker_spacedLines cfg text] at hcount
      omega

theorem count_line_confused : run "a\na".toList {} = ("a\n[llm-compress: previous line ×2]".toList, false) ∧
      run "a\n[llm-compress: previous line ×2]".toList {} = ("a\n[llm-compress: previous line ×2]".toList, false) ∧
      collapseBlank "a\na".toList ≠ collapseBlank "a\n[llm-compress: previous line ×2]".toList := by
  decide +kernel

end LlmCompress.Preprocess
