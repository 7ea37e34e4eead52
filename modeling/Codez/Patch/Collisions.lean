import Codez.Lib.Splice
import Codez.Patch.Replace

/-!
# Replacements that collide

The chunks of an update are looked for one behind the other, so their replacements should be apart.
-/

namespace ApplyPatch

open Fallible List

theorem normalise_trimEnd (s : Text) : normalise (Text.trimEnd s) = normalise s := by
  rw [normalise, normalise, Text.trim_trimEnd]

variable {lines pattern : List Text} {i k li start : Nat} {chunk : UpdateFileChunk} {path : Text} {r : Replacement}
  {rs : List Replacement} {chunks : List UpdateFileChunk}

theorem MatchesAt.map_normalise {form : Text → Text} (hform : form ∈ levels) (h : MatchesAt lines pattern form i) :
    ((lines.drop i).take pattern.length).map normalise = pattern.map normalise := by
  obtain ⟨rest, hr⟩ : ∃ rest : Text → Text, ∀ s, rest (form s) = normalise s := by
    simp only [levels, mem_cons, not_mem_nil, or_false] at hform
    rcases hform with rfl | rfl | rfl | rfl
    · exact ⟨normalise, fun _ => rfl⟩
    · exact ⟨normalise, normalise_trimEnd⟩
    · exact ⟨List.map normaliseChar, fun _ => rfl⟩
    · exact ⟨id, fun _ => rfl⟩
  have heq := congrArg (List.map rest) h.2
  simpa only [map_map, Function.comp_def, hr] using heq

theorem seekSequence_found {eof : Bool} (hnil : pattern ≠ []) (h : seekSequence lines pattern start eof = some i) :
    (if eof then i + pattern.length = lines.length else start ≤ i) ∧
      ((lines.drop i).take pattern.length).map normalise = pattern.map normalise := by
  obtain ⟨form, hform, hi, hmt⟩ := exists_of_seekSequence hnil h
  refine ⟨?_, hmt.map_normalise hform⟩
  have hend := hmt.1
  cases eof
  · exact hi
  · simp only [if_true] at hi ⊢
    omega

def UpdateFileChunk.Adds (chunk : UpdateFileChunk) (segment : List Text) : Prop :=
  segment = chunk.newLines ∨
    endsEmpty chunk.oldLines ∧ endsEmpty chunk.newLines ∧ segment = chunk.newLines.dropLast

/-- What is looked for: the old lines, and then these without an empty last one. -/
def UpdateFileChunk.sought (chunk : UpdateFileChunk) : List (List Text) :=
  chunk.oldLines :: if endsEmpty chunk.oldLines then [chunk.oldLines.dropLast] else []

/-- The search at the end of the file is reached, which does not look at where the last chunk ended. -/
def UpdateFileChunk.SearchesEnd (lines : List Text) (chunk : UpdateFileChunk) : Prop :=
  chunk.isEndOfFile = true ∧ ∃ pattern ∈ chunk.sought, pattern ≠ [] ∧ pattern.length ≤ lines.length

instance decidableSearchesEnd (lines : List Text) (chunk : UpdateFileChunk) : Decidable (chunk.SearchesEnd lines) :=
  inferInstanceAs (Decidable (_ ∧ _))

/-- Where the old lines of a chunk have been found by a search from `start`. -/
structure Found (lines : List Text) (chunk : UpdateFileChunk) (start : Nat) (r : Replacement) : Prop where
  adds : chunk.Adds r.newSegment
  /-- Each line of the range is an old line of the chunk. -/
  covers : ∀ i, r.startIdx ≤ i → i < r.startIdx + r.oldLen →
    ∃ line old, lines[i]? = some line ∧ old ∈ chunk.oldLines ∧ normalise line = normalise old
  /-- A single empty line may be found as nothing. -/
  nothing : r.oldLen = 0 → chunk.oldLines = [[]]
  position : start ≤ r.startIdx ∨ chunk.SearchesEnd lines ∧ r.startIdx + r.oldLen = lines.length

theorem subset_of_mem_sought (h : pattern ∈ chunk.sought) : pattern ⊆ chunk.oldLines := by
  rcases mem_cons.mp h with rfl | h
  · exact Subset.refl _
  · split at h
    · rw [mem_singleton.mp h]
      exact dropLast_subset _
    · cases h

theorem eq_of_nil_mem_sought (hnil : chunk.oldLines ≠ []) (h : [] ∈ chunk.sought) : chunk.oldLines = [[]] := by
  rcases mem_cons.mp h with h | h
  · exact absurd h.symm hnil
  · split at h
    · next hempty =>
      -- nothing is left of the old lines: there was only the empty line at the end
      have hlast : chunk.oldLines.getLast? = some [] := by simpa [endsEmpty] using hempty
      obtain ⟨init, hinit⟩ := getLast?_eq_some_iff.mp hlast
      have hinit' := mem_singleton.mp h
      rw [hinit, dropLast_concat] at hinit'
      rw [hinit, ← hinit', nil_append]
    · cases h

theorem found_of_seekSequence {lines newSlice : List Text}
    (hnil : chunk.oldLines ≠ []) (hsought : pattern ∈ chunk.sought)
    (hadds : chunk.Adds newSlice) (h : seekSequence lines pattern start chunk.isEndOfFile = some i) :
    Found lines chunk start ⟨i, pattern.length, newSlice⟩ := by
  have hnothing : pattern.length = 0 → chunk.oldLines = [[]] := fun hzero =>
    eq_of_nil_mem_sought hnil (length_eq_zero_iff.mp hzero ▸ hsought)
  by_cases hpattern : pattern = []
  · subst hpattern
    have hi : start = i := by simpa [seekSequence] using h
    refine ⟨hadds, ?_, hnothing, .inl hi.le⟩
    intro k hk hk'
    exact absurd hk' (by simpa using hk)
  · obtain ⟨hpos, heq⟩ := seekSequence_found hpattern h
    refine ⟨hadds, ?_, hnothing, ?_⟩
    · intro k hk hk'
      simp only at hk hk'
      obtain ⟨old, hk''⟩ : ∃ old, pattern[k - i]? = some old := ⟨_, getElem?_eq_getElem (by omega)⟩
      have hat := congrArg (fun l : List Text => l[k - i]?) heq
      simp only [getElem?_map, hk'', getElem?_take, if_pos (show k - i < pattern.length by omega),
        getElem?_drop, Nat.add_sub_cancel' hk, Option.map_some, Option.map_eq_some_iff] at hat
      obtain ⟨line, hl, hnormal⟩ := hat
      exact ⟨line, old, hl, subset_of_mem_sought hsought (mem_of_getElem? hk''), hnormal⟩
    · cases heof : chunk.isEndOfFile
      · exact .inl (by simpa [heof] using hpos)
      · have hend : i + pattern.length = lines.length := by simpa [heof] using hpos
        exact .inr ⟨⟨heof, pattern, hsought, hpattern, by omega⟩, hend⟩

theorem seekOldLines_found (hnil : chunk.oldLines ≠ [])
    (h : seekOldLines lines chunk start = some r) : Found lines chunk start r := by
  unfold seekOldLines at h
  simp only at h
  split at h
  · next hseek =>
    cases h
    obtain ⟨i, hi, rfl⟩ := Option.map_eq_some_iff.mp hseek
    exact found_of_seekSequence hnil mem_cons_self (.inl rfl) hi
  · split at h
    · next hemp =>
      obtain ⟨i, hi, rfl⟩ := Option.map_eq_some_iff.mp h
      refine found_of_seekSequence hnil (by simp [UpdateFileChunk.sought, hemp]) ?_ hi
      split
      · next hnew => exact .inr ⟨hemp, hnew, rfl⟩
      · exact .inl rfl
    · cases h

def insertionIdx (lines : List Text) : Nat := if endsEmpty lines then lines.length - 1 else lines.length

def Placed (lines : List Text) (chunk : UpdateFileChunk) (start : Nat) (r : Replacement) : Prop :=
  if chunk.oldLines = [] then r = ⟨insertionIdx lines, 0, chunk.newLines⟩ else Found lines chunk start r

theorem Placed.adds (h : Placed lines chunk start r) :
    chunk.Adds r.newSegment := by
  unfold Placed at h
  split at h
  · rw [h]
    exact .inl rfl
  · exact h.adds

theorem seekContext_le {context : Option Text} (h : seekContext lines path li context = .ok k) : li ≤ k := by
  unfold seekContext at h
  split at h
  · cases h
    exact le_rfl
  · split at h
    · next hseek =>
      cases h
      have hfnd := (seekSequence_found (by simp) hseek).1
      simp only [Bool.false_eq_true, if_false] at hfnd
      omega
    · cases h

theorem computeReplacement_placed
    (hidx : li ≤ lines.length) (h : computeReplacement lines path li chunk = .ok (r, k)) :
    Placed lines chunk li r ∧ li ≤ k ∧ (chunk.oldLines ≠ [] → r.startIdx + r.oldLen ≤ k) := by
  unfold computeReplacement at h
  obtain ⟨j, hj, h⟩ := bind_eq_ok h
  have hle := seekContext_le hj
  split at h
  · next hnil =>
    cases h
    exact ⟨by rw [Placed, if_pos hnil]; rfl, hle, fun hne => absurd hnil hne⟩
  · next hnil =>
    split at h
    · next hseek =>
      cases h
      have hfnd := seekOldLines_found hnil hseek
      refine ⟨?_, ?_, fun _ => le_rfl⟩
      · rw [Placed, if_neg hnil]
        exact { hfnd with position := hfnd.position.imp_left (le_trans hle) }
      · rcases hfnd.position with hst | ⟨-, hend⟩ <;> omega
    · cases h

structure Separate (lines : List Text) (chunks : List UpdateFileChunk) : Prop where
  /-- A chunk that is looked for at the end of the file has no old line in common with one before it. -/
  ends : chunks.Pairwise fun a b => b.SearchesEnd lines → a.oldLines = [] ∨
    a.oldLines ≠ [[]] ∧ ∀ x ∈ a.oldLines, ∀ y ∈ b.oldLines, normalise x ≠ normalise y
  /-- If lines are added in front of an empty last line, no chunk is about an empty line. -/
  additions : endsEmpty lines = true → (∃ chunk ∈ chunks, chunk.oldLines = []) →
    ∀ chunk ∈ chunks, ∀ x ∈ chunk.oldLines, normalise x ≠ []

abbrev Replacement.Before (a b : Replacement) : Prop := Splice.Before Replacement.startIdx Replacement.oldLen a b

abbrev Replacement.Clear (a b : Replacement) : Prop := Splice.Clear Replacement.startIdx Replacement.oldLen a b

section
variable {a b : UpdateFileChunk} {j : Nat} {r' : Replacement}

theorem Found.before_insertionIdx (hsep : Separate lines chunks) (hadds : ∃ chunk ∈ chunks, chunk.oldLines = [])
    (hb : b ∈ chunks) (h : Found lines b k r) (hw : r.Within lines.length) :
    r.startIdx + r.oldLen ≤ insertionIdx lines := by
  unfold insertionIdx
  unfold Replacement.Within at hw
  split
  · next hnil =>
    have hl := hsep.additions hnil hadds b hb
    by_contra hlt
    have hlen : r.oldLen ≠ 0 := by
      intro hzero
      exact hl [] (by simp [h.nothing hzero]) (by decide)
    -- the range has the last line of the file, which is empty
    obtain ⟨line, old, hlast, hold, hnormal⟩ := h.covers (lines.length - 1) (by omega) (by omega)
    have hempty' : lines.getLast? = some [] := by simpa [endsEmpty] using hnil
    rw [← getLast?_eq_getElem?, hempty'] at hlast
    cases hlast
    exact hl old hold (hnormal.symm.trans (by decide))
  · exact hw

theorem Found.before_end (h : Found lines a j r) (h' : Found lines b k r') (hw : r.Within lines.length)
    (hend : r'.startIdx + r'.oldLen = lines.length) (hnothing : a.oldLines ≠ [[]])
    (hls : ∀ x ∈ a.oldLines, ∀ y ∈ b.oldLines, normalise x ≠ normalise y) : r.Before r' := by
  unfold Replacement.Before Splice.Before
  unfold Replacement.Within at hw
  have hlen : r.oldLen ≠ 0 := fun hzero => hnothing (h.nothing hzero)
  by_contra hlt
  -- the later of the two starts is in both ranges
  obtain ⟨line, old, hl, hold, hnormal⟩ := h.covers (max r.startIdx r'.startIdx) (by omega) (by omega)
  obtain ⟨line', old', hline', hold', hnormal'⟩ := h'.covers (max r.startIdx r'.startIdx) (by omega) (by omega)
  rw [hl] at hline'
  cases hline'
  exact hls old hold old' hold' (hnormal.symm.trans hnormal')

theorem Placed.clear {pre after : List UpdateFileChunk} (hsep : Separate lines chunks)
    (hchs : chunks = pre ++ b :: after) (ha : a ∈ pre) (h : Placed lines a j r) (h' : Placed lines b k r')
    (hw : r.Within lines.length) (hwithin' : r'.Within lines.length)
    (hreached : a.oldLines ≠ [] → r.startIdx + r.oldLen ≤ k) : r.Clear r' := by
  have hends := hsep.ends
  rw [hchs] at hends
  have hends' := (pairwise_append.mp hends).2.2 a ha b (by simp)
  have hachunks : a ∈ chunks := by simp [hchs, ha]
  have hbchunks : b ∈ chunks := by simp [hchs]
  unfold Placed at h h'
  by_cases hanil : a.oldLines = [] <;> by_cases hbnil : b.oldLines = []
  · rw [if_pos hanil] at h
    rw [if_pos hbnil] at h'
    subst h h'
    exact Splice.Before.clear (by simp [Splice.Before])
  · rw [if_pos hanil] at h
    rw [if_neg hbnil] at h'
    have hpre := h'.before_insertionIdx hsep ⟨a, hachunks, hanil⟩ hbchunks hwithin'
    subst h
    exact Splice.Clear.of_len_eq_zero rfl hpre
  · rw [if_neg hanil] at h
    rw [if_pos hbnil] at h'
    have hpre := h.before_insertionIdx hsep ⟨b, hbchunks, hbnil⟩ hachunks hw
    subst h'
    exact Splice.Before.clear hpre
  · rw [if_neg hanil] at h
    rw [if_neg hbnil] at h'
    rcases h'.position with hst | ⟨heof, hend⟩
    · exact Splice.Before.clear (le_trans (hreached hanil) hst)
    · rcases hends' heof with hnil | ⟨hnothing, hls⟩
      · exact absurd hnil hanil
      · exact Splice.Before.clear (h.before_end h' hw hend hnothing hls)

end

/-- After the chunks in `done`: where each has been placed, and that none is found behind
`lineIndex`. -/
structure Collected (lines : List Text) (done : List UpdateFileChunk) (rs : List Replacement) (lineIndex : Nat) :
    Prop where
  index : lineIndex ≤ lines.length
  placed : ∀ r ∈ rs, r.Within lines.length ∧ ∃ chunk ∈ done, (∃ k, Placed lines chunk k r) ∧
    (chunk.oldLines ≠ [] → r.startIdx + r.oldLen ≤ lineIndex)
  adds : ∀ chunk ∈ done, ∃ r ∈ rs, chunk.Adds r.newSegment
  clear : rs.Pairwise Replacement.Clear

theorem Collected.step {done todo : List UpdateFileChunk}
    (hsep : Separate lines chunks) (hchs : chunks = done ++ chunk :: todo)
    (h : Collected lines done rs li) (hr : computeReplacement lines path li chunk = .ok (r, k)) :
    Collected lines (done ++ [chunk]) (rs ++ [r]) k := by
  obtain ⟨hplaced, hle, hend⟩ := computeReplacement_placed h.index hr
  obtain ⟨hw, hk⟩ := computeReplacement_within h.index hr
  refine ⟨hk, ?_, ?_, ?_⟩
  · intro x hx
    rcases mem_append.mp hx with hx | hx
    · obtain ⟨hx', c, hc, hplaced', hreached⟩ := h.placed x hx
      exact ⟨hx', c, by simp [hc], hplaced', fun hne => le_trans (hreached hne) hle⟩
    · rw [mem_singleton.mp hx]
      exact ⟨hw, chunk, by simp, ⟨li, hplaced⟩, hend⟩
  · intro c hc
    rcases mem_append.mp hc with hc | hc
    · obtain ⟨x, hx, hadds⟩ := h.adds c hc
      exact ⟨x, by simp [hx], hadds⟩
    · rw [mem_singleton.mp hc]
      exact ⟨r, by simp, hplaced.adds⟩
  · rw [pairwise_append]
    refine ⟨h.clear, pairwise_singleton _ _, ?_⟩
    intro x hx y hy
    rw [mem_singleton.mp hy]
    obtain ⟨hx', c, hc, ⟨j, hplaced'⟩, hreached⟩ := h.placed x hx
    exact hplaced'.clear hsep hchs hc hplaced hx' hw hreached

theorem collectReplacements_collected {acc : List Replacement × Nat}
    (hsep : Separate lines chunks) (h : collectReplacements lines path chunks = .ok acc) :
    Collected lines chunks acc.1 acc.2 := by
  refine foldlM_invariant (fun done (acc : List Replacement × Nat) => Collected lines done acc.1 acc.2)
    chunks ?_ ⟨by simp, by simp, by simp, .nil⟩ h
  intro done chunk todo acc acc' hchs hacc hst
  obtain ⟨⟨r, k⟩, hr, hst⟩ := bind_eq_ok hst
  cases hst
  exact hacc.step hsep hchs hr

def spliced (lines : List Text) (rs : List Replacement) : List Text :=
  Splice.splice Replacement.startIdx Replacement.oldLen Replacement.newSegment lines 0 rs

theorem applyReplacements_eq_spliced (hrs : rs.Pairwise Replacement.Before)
    (hw : ∀ r ∈ rs, r.Within lines.length) : applyReplacements lines rs = spliced lines rs := by
  have h := @Splice.foldr_eq_splice _ _ _ _ Replacement.newSegment applyReplacement lines
    (fun _ _ => applyReplacement_eq) rs hrs hw 0 (by simp)
  rw [take_zero, nil_append] at h
  exact h

end ApplyPatch
