import Codez.Compress.FoldedLines
import Codez.Lib.TopScored

/-!
What the search compressor selects (`compress/search.rs`).

Both selections are by score, with a stable sort: of the files, by their best line; of the matches
of a file, the first, the last and the best of the others.
-/

namespace LlmCompress

open Folding TopScored List

namespace Search

structure Selects (ext : Ext) (maxPerFile : Nat) (hits : List Text) (ls : List (Bool × Text)) : Prop where
  lines : ls.map Prod.snd = hits
  first : ∀ l ∈ ls.head?, l.1 = true
  last : ∀ l ∈ ls.getLast?, l.1 = true
  atMost : ls.countP Prod.fst ≤ maxPerFile
  best : ∀ (i j : Nat) (kept dropped : Text), 0 < i → i < hits.length - 1 → ls[i]? = some (true, kept) →
    ls[j]? = some (false, dropped) → lineScore ext dropped ≤ lineScore ext kept

def middle (hits : List Text) : List (Text × Nat) :=
  hits.zipIdx.filter fun p => decide (0 < p.2) && decide (p.2 < hits.length - 1)

def keepIdx (ext : Ext) (hits : List Text) (maxPerFile : Nat) : List Nat :=
  0 :: (hits.length - 1) :: (top (fun p : Text × Nat => lineScore ext p.1) (maxPerFile - 2) (middle hits)).map Prod.snd

variable (ext : Ext) {keep : Nat → Text → Bool} {l : Bool × Text} {ls : List Text} {maxPerFile : Nat}

theorem selectInFile_eq (hits : List Text) (maxPerFile : Nat) : selectInFile ext hits maxPerFile =
      if hits.length ≤ maxPerFile then hits
      else collapse matchesPlaceholder (flags (fun i _ => (keepIdx ext hits maxPerFile).contains i) hits) := rfl

theorem mem_middle {hits : List Text} {line : Text} {i : Nat} :
    (line, i) ∈ middle hits ↔ hits[i]? = some line ∧ 0 < i ∧ i < hits.length - 1 := by
  rw [middle, mem_filter, mem_zipIdx_iff_getElem?]
  simp

theorem countP_flags_le (idx : List Nat) (lines : List Text) :
    (flags (fun i _ => idx.contains i) lines).countP Prod.fst ≤ idx.length := by
  have hcnt : (flags (fun i _ => idx.contains i) lines).countP Prod.fst =
      ((lines.zipIdx.map Prod.snd).filter fun i => idx.contains i).length := by
    rw [flags, countP_map, ← countP_eq_length_filter, countP_map]
    rfl
  have hnd : ((lines.zipIdx.map Prod.snd).filter fun i => idx.contains i).Nodup := by
    rw [zipIdx_map_snd]
    exact (nodup_range' ..).filter _
  rw [hcnt]
  refine (subperm_of_subset hnd fun i hi => ?_).length_le
  exact contains_iff_mem.mp (mem_filter.mp hi).2

theorem of_head?_flags (h : l ∈ (flags keep ls).head?) : l.1 = keep 0 l.2 := by
  rw [head?_eq_getElem?, getElem?_flags] at h
  obtain ⟨line, -, rfl⟩ := Option.map_eq_some_iff.mp h
  rfl

theorem of_getLast?_flags (h : l ∈ (flags keep ls).getLast?) : l.1 = keep (ls.length - 1) l.2 := by
  rw [getLast?_eq_getElem?, getElem?_flags] at h
  obtain ⟨line, -, rfl⟩ := Option.map_eq_some_iff.mp h
  simp [flags]

theorem selects_flags {hits : List Text} (hmax : 2 ≤ maxPerFile) :
    Selects ext maxPerFile hits (flags (fun i _ => (keepIdx ext hits maxPerFile).contains i) hits) where
  lines := map_snd_flags _ hits
  first := by
    intro l hl
    rw [of_head?_flags hl]
    simp [keepIdx]
  last := by
    intro l hl
    rw [of_getLast?_flags hl]
    simp [keepIdx]
  atMost := by
    refine (countP_flags_le _ _).trans ?_
    rw [keepIdx, length_cons, length_cons, length_map, length_top]
    omega
  best := by
    intro i j kept dropped hpos hlast hkept hdrop
    obtain ⟨hi, hin⟩ := of_getElem?_flags hkept
    obtain ⟨hj, hout⟩ := of_getElem?_flags hdrop
    have hi' : i ∈ keepIdx ext hits maxPerFile := contains_iff_mem.mp hin.symm
    have hj' : j ∉ keepIdx ext hits maxPerFile := fun hmem => by
      rw [contains_iff_mem.mpr hmem] at hout
      cases hout
    simp only [keepIdx, mem_cons, not_or] at hi' hj'
    -- the kept one is neither the first nor the last, so it was chosen; the dropped one was not
    obtain ⟨⟨line, k⟩, hchosen, rfl⟩ := mem_map.mp ((hi'.resolve_left (by omega)).resolve_left (by omega))
    have hline : line = kept := by
      have := (mem_middle.mp (mem_of_mem_top hchosen)).1
      exact Option.some.inj (this.symm.trans hi)
    subst hline
    have hjlen : j < hits.length := (List.getElem?_eq_some_iff.mp hj).1
    have hmiddle : (dropped, j) ∈ middle hits := mem_middle.mpr ⟨hj, by omega, by omega⟩
    have hnotChosen : (dropped, j) ∉ top (fun p : Text × Nat => lineScore ext p.1) (maxPerFile - 2) (middle hits) :=
      fun hmem => hj'.2.2 (mem_map.mpr ⟨(dropped, j), hmem, rfl⟩)
    exact @score_le_of_mem_top _ (fun p : Text × Nat => lineScore ext p.1) _ _ _ _ hchosen hmiddle hnotChosen

theorem selects_all {hits : List Text} (hfew : hits.length ≤ maxPerFile) :
    Selects ext maxPerFile hits (flags (fun _ _ => true) hits) where
  lines := map_snd_flags _ hits
  first := fun _ hl => of_head?_flags hl
  last := fun _ hl => of_getLast?_flags hl
  atMost := by
    refine countP_le_length.trans ?_
    rwa [flags, length_map, length_zipIdx]
  best := by
    intro i j kept dropped _ _ _ hdrop
    cases (of_getElem?_flags hdrop).2

theorem selectInFile_selects (hits : List Text) (hmax : 2 ≤ maxPerFile) :
    ∃ ls ps, Selects ext maxPerFile hits ls ∧ Cuts ls ps ∧
      selectInFile ext hits maxPerFile = ps.map (Piece.shown matchesPlaceholder) ∧
      ls.countP Prod.fst + (ps.map Piece.count).sum = hits.length := by
  have account : ∀ ls : List (Bool × Text), ls.map Prod.snd = hits →
      ls.countP Prod.fst + ((pieces ls).map Piece.count).sum = hits.length := by
    intro ls hls
    rw [(cuts_pieces ls).sum_count, ← hls, length_map, length_eq_countP_add_countP Prod.fst]
    congr 2
    funext l
    simp
  rw [selectInFile_eq]
  split
  · next hfew =>
    refine ⟨_, _, selects_all ext hfew, cuts_pieces _, ?_, account _ (map_snd_flags _ hits)⟩
    rw [shown_of_all_kept, map_snd_flags]
    intro l hl
    obtain ⟨i, hi⟩ := mem_iff_getElem?.mp hl
    exact (of_getElem?_flags hi).2
  · refine ⟨_, _, selects_flags ext hmax, cuts_pieces _, ?_, account _ (map_snd_flags _ hits)⟩
    exact collapse_eq_shown _ _

theorem nodup_eraseDups (xs : List Text) : xs.eraseDups.Nodup := by
  induction hn : xs.length using Nat.strongRecOn generalizing xs with
  | ind n ih =>
    cases xs with
    | nil => exact nodup_nil
    | cons x xs =>
      rw [eraseDups_cons, nodup_cons, mem_eraseDups]
      refine ⟨by simp, ih _ ?_ _ rfl⟩
      have := length_filter_le (fun y => !y == x) xs
      rw [length_cons] at hn
      omega

def files (lines : List Text) : List Text := (lines.filterMap parseMatch).eraseDups

def hits (lines : List Text) (path : Text) : List Text := lines.filter fun l => parseMatch l == some path

def keepFiles (ext : Ext) (maxFiles : Nat) (lines : List Text) : List Text :=
  if maxFiles < (files lines).length then top (fun path => bestScore ext (hits lines path)) maxFiles (files lines)
  else files lines

theorem compressSearch_eq (text : Text) (budget : Budget) : compressSearch ext text budget =
      let maxPerFile := max budget.cfg.search.maxPerFile 2
      let lines := Text.lines text
      let keep := keepFiles ext (max budget.cfg.search.maxFiles 1) lines
      let out := (lines.filter fun l => (parseMatch l).isNone) ++
        ((files lines).filter fun p => keep.contains p).flatMap fun p => selectInFile ext (hits lines p) maxPerFile
      let foldedFiles := (files lines).countP fun p => !keep.contains p
      if (files lines).isEmpty then none
      else some (Text.joinLines (if 0 < foldedFiles then out ++ [filesPlaceholder foldedFiles] else out)) := rfl

/-- `kept` are the best `maxFiles` files, where the first of two with one score is preferred. -/
structure SelectsFiles (ext : Ext) (maxFiles : Nat) (lines : List Text) (kept : List Text) : Prop where
  sublist : kept.Sublist (files lines)
  length : kept.length = min (files lines).length maxFiles
  best : ∀ p ∈ kept, ∀ q ∈ files lines, q ∉ kept → bestScore ext (hits lines q) ≤ bestScore ext (hits lines p)
  ties : ∀ p ∈ kept, ∀ q ∈ files lines, q ∉ kept → bestScore ext (hits lines q) = bestScore ext (hits lines p) →
    [p, q].Sublist (files lines)

theorem selectsFiles_keepFiles (maxFiles : Nat) (lines : List Text) :
    SelectsFiles ext maxFiles lines ((files lines).filter fun p => (keepFiles ext maxFiles lines).contains p) := by
  have hnd : (files lines).Nodup := nodup_eraseDups _
  by_cases hmany : maxFiles < (files lines).length
  · have hkeep : keepFiles ext maxFiles lines =
        top (fun path => bestScore ext (hits lines path)) maxFiles (files lines) :=
      if_pos hmany
    have hmem : ∀ p, p ∈ (files lines).filter (fun p => (keepFiles ext maxFiles lines).contains p) ↔
        p ∈ top (fun path => bestScore ext (hits lines path)) maxFiles (files lines) := by
      intro p
      rw [mem_filter, hkeep, contains_iff_mem]
      exact ⟨And.right, fun h => ⟨mem_of_mem_top h, h⟩⟩
    refine ⟨filter_sublist, ?_, ?_, ?_⟩
    · have hperm := (perm_ext_iff_of_nodup (hnd.filter _) (nodup_top _ hnd maxFiles)).mpr hmem
      rw [hperm.length_eq, length_top, Nat.min_comm]
    · intro p hp q hq hout
      exact @score_le_of_mem_top _ (fun path => bestScore ext (hits lines path)) _ _ _ _ ((hmem p).mp hp) hq
        (fun h => hout ((hmem q).mpr h))
    · intro p hp q hq hout htie
      exact before_of_tie hnd ((hmem p).mp hp) hq (fun h => hout ((hmem q).mpr h)) htie
  · have hkeep : keepFiles ext maxFiles lines = files lines := if_neg hmany
    have hall : (files lines).filter (fun p => (keepFiles ext maxFiles lines).contains p) = files lines := by
      rw [hkeep, filter_eq_self]
      intro p hp
      exact contains_iff_mem.mpr hp
    rw [hall]
    refine ⟨List.Sublist.refl _, by omega, ?_, ?_⟩
    · intro p _ q hq hout
      exact absurd hq hout
    · intro p _ q hq hout
      exact absurd hq hout

end Search

def grepOutput : Text := "a.rs:1:x\na.rs:2:y\na.rs:3:error\na.rs:4:z\nb.rs:1:w".toList

end LlmCompress
