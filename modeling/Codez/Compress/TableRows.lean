import Codez.Compress.Structured

/-!
The rows that `parse_table` reads (`compress/tabular.rs`).
-/

namespace LlmCompress.Tabular

open List

def tableLines (text : Text) : List Text := (Text.lines text).filter fun l => !(Text.trim l).isEmpty

def isMarkdown (text : Text) : Bool :=
  match tableLines text with
  | [] => false
  | first :: _ => (Text.trimStart first).head? == some '|'

def isDelimiterRow (line : Text) : Bool := isSeparator line && line.any (· == '-')

def dataLines (text : Text) : List Text :=
  match tableLines text with
  | header :: row :: rest => if isMarkdown text && isDelimiterRow row then header :: rest else header :: row :: rest
  | ls => ls

def stripPipes (s : Text) : Text :=
  let s := if s.head? = some '|' then s.tail else s
  if s.getLast? = some '|' then s.dropLast else s

def cells (isMd : Bool) (line : Text) : List Text :=
  if isMd then ((stripPipes (Text.trim line)).splitOn '|').map Text.trim
  else if line.any (· == '\t') then (line.splitOn '\t').map Text.trim
  else (line.splitOn ',').map Text.trim

def stripAllPipes (s : Text) : Text := (s.dropWhile (· == '|')).rdropWhile (· == '|')

theorem length_splitOn (c : Char) (s : Text) : (s.splitOn c).length = s.count c + 1 := by
  induction s with
  | nil => rfl
  | cons d s ih =>
    rw [List.splitOn, splitOnP_cons_eq_if_modifyHead]
    split
    · next h => rw [length_cons, count_cons, if_pos h]; exact congrArg (· + 1) ih
    · next h => rw [length_modifyHead, count_cons, if_neg h]; exact ih

variable (s : Text) {text : Text}

theorem stripAllPipes_cons : stripAllPipes ('|' :: s) = stripAllPipes s := rfl

theorem stripAllPipes_concat : stripAllPipes (s ++ ['|']) = stripAllPipes s := by
  unfold stripAllPipes
  rw [dropWhile_append]
  split
  · next hall =>
    rw [List.isEmpty_iff.mp hall]
    rfl
  · rw [rdropWhile_concat_pos _ _ _ rfl]

theorem stripAllPipes_stripPipes : stripAllPipes (stripPipes s) = stripAllPipes s := by
  have hfront : stripAllPipes (if s.head? = some '|' then s.tail else s) = stripAllPipes s := by
    split
    · next h =>
      obtain ⟨rest, rfl⟩ := head?_eq_some_iff.mp h
      rfl
    · rfl
  unfold stripPipes
  simp only
  rw [← hfront]
  generalize (if s.head? = some '|' then s.tail else s) = s
  split
  · next h =>
    obtain ⟨rest, hr⟩ := getLast?_eq_some_iff.mp h
    rw [hr, dropLast_concat, stripAllPipes_concat]
  · rfl

theorem count_stripAllPipes_le : (stripAllPipes s).count '|' ≤ s.count '|' :=
  ((List.rdropWhile_prefix _ _).sublist.trans (dropWhile_sublist _)).count_le _

theorem stripAllPipes_eq_self {s : Text} (hfront : s.head? ≠ some '|') (hback : s.getLast? ≠ some '|') :
    stripAllPipes s = s := by
  unfold stripAllPipes
  rw [dropWhile_eq_self_iff.mpr, rdropWhile_eq_self_iff.mpr]
  · intro hne hl
    rw [beq_iff_eq] at hl
    exact hback (by rw [getLast?_eq_some_getLast hne, hl])
  · intro hpos hh
    rw [beq_iff_eq] at hh
    exact hfront (by rw [head?_eq_getElem?, getElem?_eq_getElem hpos, hh])

theorem ends_of_count_stripAllPipes {s : Text} (h : (stripAllPipes s).count '|' = s.count '|') :
    s.head? ≠ some '|' ∧ s.getLast? ≠ some '|' := by
  constructor
  · intro hfront
    obtain ⟨rest, rfl⟩ := head?_eq_some_iff.mp hfront
    have := count_stripAllPipes_le rest
    rw [stripAllPipes_cons, count_cons_self] at h
    omega
  · intro hback
    obtain ⟨rest, rfl⟩ := getLast?_eq_some_iff.mp hback
    have := count_stripAllPipes_le rest
    rw [stripAllPipes_concat, count_append, count_singleton_self] at h
    omega

def SinglePipes (line : Text) : Prop :=
  (stripPipes (Text.trim line)).head? ≠ some '|' ∧ (stripPipes (Text.trim line)).getLast? ≠ some '|'

theorem splitCells_eq_cells_iff (line : Text) : splitCells true line = cells true line ↔ SinglePipes line := by
  have hcode : splitCells true line = ((stripAllPipes (stripPipes (Text.trim line))).splitOn '|').map Text.trim := by
    rw [stripAllPipes_stripPipes]
    rfl
  have hspec : cells true line = ((stripPipes (Text.trim line)).splitOn '|').map Text.trim := rfl
  rw [hcode, hspec]
  constructor
  · intro h
    -- a cell for every pipe
    have hlen := congrArg List.length h
    rw [length_map, length_map, length_splitOn, length_splitOn] at hlen
    exact ends_of_count_stripAllPipes (Nat.succ.inj hlen)
  · rintro ⟨hfront, hback⟩
    rw [stripAllPipes_eq_self hfront hback]

theorem parseTable_rows {table : Table} (h : parseTable text = some table) : table.header :: table.rows =
      ((tableLines text).filter fun l => !(isMarkdown text && isSeparator l)).map (splitCells (isMarkdown text)) := by
  unfold parseTable at h
  split at h
  · cases h
  · cases h
  · next first rawLines _ hls =>
    have htable : tableLines text = first :: rawLines := hls
    have hmd : isMarkdown text = ((Text.trimStart first).head? == some '|') := by
      unfold isMarkdown
      rw [htable]
    rw [htable, hmd]
    simp only at h
    split at h
    · cases h
    · split at h
      · cases h
      · next header rows hrows =>
        split at h
        · cases h
          exact hrows.symm
        · cases h

theorem filter_dataLines (hmd : isMarkdown text = true) :
    (dataLines text).filter (fun l => !isSeparator l) = (tableLines text).filter fun l => !isSeparator l := by
  unfold dataLines
  split
  · next header row rest hls =>
    rw [hls, hmd, Bool.true_and]
    split
    · next hdelimiter =>
      have hseparator : isSeparator row = true := (Bool.and_eq_true_iff.mp hdelimiter).1
      rw [filter_cons, filter_cons, filter_cons_of_neg (by simp [hseparator])]
    · rfl
  · next hls => rfl

/-- **Tables.**  The rows are those of all data lines exactly if the table is not Markdown, or no data line looks like a
delimiter row and none has more than one pipe at an end. -/
theorem parse_table_rows_iff {text : Text} {table : Table} (h : parseTable text = some table) :
    table.header :: table.rows = (dataLines text).map (cells (isMarkdown text)) ↔
      (isMarkdown text = true → ∀ l ∈ dataLines text, isSeparator l = false ∧ SinglePipes l) := by
  rw [parseTable_rows h]
  cases hmd : isMarkdown text with
  | false =>
    have hdata : dataLines text = tableLines text := by
      unfold dataLines
      split
      · next hlines => rw [hmd, hlines, Bool.false_and, if_neg Bool.false_ne_true]
      · rfl
    rw [hdata]
    simp only [Bool.false_and, Bool.not_false, filter_true, Bool.false_eq_true, false_implies, iff_true]
    rfl
  | true =>
    simp only [Bool.true_and, forall_const]
    rw [← filter_dataLines hmd]
    constructor
    · intro heq
      have hlength := congrArg List.length heq
      rw [length_map, length_map] at hlength
      have hall := filter_sublist.eq_of_length hlength
      rw [hall, map_inj_left] at heq
      intro l hl
      refine ⟨?_, (splitCells_eq_cells_iff l).mp (heq l hl)⟩
      simpa using filter_eq_self.mp hall l hl
    · intro hlines
      rw [filter_eq_self.mpr fun l hl => by simp [(hlines l hl).1]]
      exact map_congr_left fun l hl => (splitCells_eq_cells_iff l).mpr (hlines l hl).2

theorem parse_table_rows_iff_dashes : let text := "|a|b|\n|---|---|\n|-|-|\n|1|2|".toList
    ∃ table, parseTable text = some table ∧
      (table.header :: table.rows = (dataLines text).map (cells (isMarkdown text)) ↔
      (isMarkdown text = true → ∀ l ∈ dataLines text, isSeparator l = false ∧ SinglePipes l)) := by
  intro text
  obtain ⟨table, htable⟩ := Option.isSome_iff_exists.mp (show (parseTable text).isSome = true by decide +kernel)
  exact ⟨table, htable, parse_table_rows_iff htable⟩

theorem dash_row_dropped : let text := "|a|b|\n|---|---|\n|-|-|\n|1|2|".toList
    let text' := "||a|b|\n||1|2|".toList
    (parseTable text).map (fun t => t.header :: t.rows) =
        some [["a".toList, "b".toList], ["1".toList, "2".toList]] ∧
      (dataLines text).map (cells (isMarkdown text)) =
        [["a".toList, "b".toList], ["-".toList, "-".toList], ["1".toList, "2".toList]] ∧
      (parseTable text').map (fun t => t.header :: t.rows) =
        some [["a".toList, "b".toList], ["1".toList, "2".toList]] ∧
      (dataLines text').map (cells (isMarkdown text')) =
        [[[], "a".toList, "b".toList], [[], "1".toList, "2".toList]] := by
  decide +kernel

end LlmCompress.Tabular
