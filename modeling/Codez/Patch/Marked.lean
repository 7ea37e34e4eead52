import Codez.Patch.Preview

/-!
When what is approved is what is applied: the converse of `updatedBy_of_orderly`.
-/

namespace ApplyPatch

open Effect Fallible List

def markLine (i : Nat) : Text := List.replicate (i + 1) 'x'

def markText (marks : List Nat) : Text := marks.flatMap fun i => markLine i ++ ['\n']

def markChunk (i : Nat) : UpdateFileChunk := { newLines := [markLine i] }

theorem markText_eq_joinLines (marks : List Nat) :
    markText marks = Text.joinLines (marks.map markLine ++ [[]]) := by
  rw [Text.joinLines_concat, append_nil, flatMap_map]
  rfl

theorem splitOn_markText (marks : List Nat) : (markText marks).splitOn '\n' = marks.map markLine ++ [[]] := by
  rw [markText_eq_joinLines]
  refine splitOn_intercalate '\n' ?_ (by simp)
  intro l hl
  rcases mem_append.mp hl with hl | hl
  · obtain ⟨i, -, rfl⟩ := mem_map.mp hl
    simp [markLine]
  · rw [mem_singleton.mp hl]
    simp

theorem markText_injective : Function.Injective markText := by
  intro marks marks' h
  have hls : marks.map markLine ++ [[]] = marks'.map markLine ++ [[]] := by
    rw [← splitOn_markText, ← splitOn_markText, h]
  refine map_injective_iff.mpr ?_ (append_cancel_right hls)
  intro i j hij
  have hlen := congrArg List.length hij
  simpa [markLine] using hlen

theorem endsEmpty_marks (marks : List Nat) : endsEmpty (marks.map markLine) = false := by
  rcases eq_nil_or_concat marks with rfl | ⟨init, i, rfl⟩
  · rfl
  · simp [endsEmpty, markLine, replicate_succ]

theorem deriveNewContents_mark (path : Text) (marks : List Nat) (i : Nat) :
    deriveNewContents path [markChunk i] (markText marks) = .ok (markText (marks ++ [i])) := by
  have hpieces : endsEmpty (marks.map markLine ++ [[]]) = true := by simp [endsEmpty]
  have hcompute : computeReplacements (marks.map markLine) path [markChunk i] =
      .ok [⟨marks.length, 0, [markLine i]⟩] := by
    simp [computeReplacements, collectReplacements, computeReplacement, seekContext, markChunk,
      endsEmpty_marks, bind, Except.bind, pure, Except.pure, Except.map]
  have happ : applyReplacements (marks.map markLine) [⟨marks.length, 0, [markLine i]⟩] =
      (marks ++ [i]).map markLine := by
    show applyReplacement _ (marks.map markLine) = _
    rw [applyReplacement_eq (by simp)]
    simp [take_of_length_le, drop_of_length_le]
  have hnew := endsEmpty_marks (marks ++ [i])
  rw [markText_eq_joinLines (marks ++ [i])]
  simp only [deriveNewContents, splitOn_markText, hpieces, if_true, dropLast_concat, hcompute, bind,
    Except.bind, happ, hnew, Bool.false_eq_true, if_false]
  rfl

/-! ## Marked operations -/

variable {P : Type} (paths : PathUri P) {q : P} {changes' : AList fun _ : P => ApplyPatchFileChange P}
  {hunks : List Hunk}

def Op.marked (i : Nat) : Op P → Op P
  | .add path _ => .add path (markText [i])
  | .delete path => .delete path
  | .update path dest _ => .update path dest [markChunk i]

@[simp] theorem Op.footprint_marked (i : Nat) (op : Op P) : (op.marked i).footprint = op.footprint := by
  cases op <;> rfl

def markAll (ops : List (Op P)) : List (Op P) := ops.mapIdx Op.marked

theorem markAll_concat (ops : List (Op P)) (op : Op P) :
    markAll (ops ++ [op]) = markAll ops ++ [op.marked ops.length] := by
  simp [markAll]

theorem getElem?_markAll {ops : List (Op P)} {i : Nat} {op : Op P} (h : ops[i]? = some op) :
    (markAll ops)[i]? = some (op.marked i) := by
  rw [markAll, getElem?_mapIdx, h]
  rfl

theorem take_markAll (ops : List (Op P)) (i : Nat) : (markAll ops).take i = markAll (ops.take i) := by
  apply ext_getElem?
  intro j
  simp only [markAll, getElem?_take, getElem?_mapIdx]
  split <;> simp

open Op

@[simp] theorem footprint_markAll (ops : List (Op P)) : (markAll ops).map footprint = ops.map footprint := by
  induction ops using List.reverseRecOn with
  | nil => rfl
  | append_singleton ops op ih => simp [markAll_concat, ih]

abbrev Marks (P : Type) := P → Option (List Nat)

def Marks.texts (w : Marks P) : TextState P := fun p => (w p).map markText

variable [DecidableEq P] {w w' : Marks P} {i : Nat} {op : Op P}

def Op.trace (i : Nat) (w : Marks P) : Op P → Option (Marks P)
  | .add path _ => some (Function.update w path (some [i]))
  | .delete path => (w path).map fun _ => Function.update w path none
  | .update path dest _ => (w path).map fun marks => place w path dest (marks ++ [i])

open Function Marks

theorem texts_update (w : Marks P) (path : P) (marks : Option (List Nat)) :
    texts (update w path marks) = update w.texts path (marks.map markText) := by
  funext q
  by_cases hq : q = path
  · subst hq
    simp [texts]
  · simp [texts, update_of_ne hq]

theorem texts_place (w : Marks P) (path : P) (dest : Option P) (marks : List Nat) :
    texts (place w path dest marks) = place w.texts path dest (markText marks) := by
  cases dest <;> simp [place, texts_update]

theorem effect_marked (i : Nat) (w : Marks P) (op : Op P) :
    (op.marked i).effect paths w.texts = (op.trace i w).map texts := by
  cases op with
  | add path contents => simp [marked, effect, trace, texts_update]
  | delete path =>
    cases h : w path <;> simp [marked, effect, trace, texts_update, texts, h]
  | update path dest chunks =>
    cases h : w path with
    | none => simp [marked, effect, trace, texts, h]
    | some marks =>
      have hread : w.texts path = some (markText marks) := by simp [texts, h]
      have hnew : newText paths path [markChunk i] (markText marks) = some (markText (marks ++ [i])) := by
        rw [newText, deriveNewContents_mark]
        rfl
      simp [marked, effect, trace, hread, hnew, h, texts_place]

omit paths in
theorem trace_frame {op : Op P} {i : Nat} {w : Marks P} (h : op.trace i w = some w') (hq : q ∉ op.touches) :
    w' q = w q := by
  have hp : q ≠ op.path := fun he => hq (he ▸ mem_cons_self)
  cases op with
  | add path contents =>
    cases h
    exact update_of_ne hp _ _
  | delete path =>
    obtain ⟨marks, -, rfl⟩ := Option.map_eq_some_iff.mp h
    exact update_of_ne hp _ _
  | update path dest chunks =>
    obtain ⟨marks, -, rfl⟩ := Option.map_eq_some_iff.mp h
    cases dest with
    | none => exact update_of_ne hp _ _
    | some dest =>
      have hdest : q ≠ dest := fun he => hq (by simp [touches, footprint, Footprint.touches, he])
      exact (update_of_ne hp _ _).trans (update_of_ne hdest _ _)

omit paths in
theorem trace_touched {op : Op P} {i : Nat} {w : Marks P} (h : op.trace i w = some w') (hq : q ∈ op.touches) :
    (w' q = none ∧ q = op.path) ∨ ∃ marks, w' q = some (marks ++ [i]) := by
  cases op with
  | add path contents =>
    cases h
    rw [mem_singleton.mp hq]
    exact .inr ⟨[], update_self _ _ _⟩
  | delete path =>
    obtain ⟨marks, -, rfl⟩ := Option.map_eq_some_iff.mp h
    rw [mem_singleton.mp hq]
    exact .inl ⟨update_self _ _ _, rfl⟩
  | update path dest chunks =>
    obtain ⟨marks, -, rfl⟩ := Option.map_eq_some_iff.mp h
    cases dest with
    | none =>
      rw [mem_singleton.mp hq]
      exact .inr ⟨marks, update_self _ _ _⟩
    | some dest =>
      by_cases hp : q = path
      · subst hp
        exact .inl ⟨update_self _ _ _, rfl⟩
      · have hdest : q = dest := by
          simpa [touches, footprint, Footprint.touches, hp] using hq
        subst hdest
        exact .inr ⟨marks, (update_of_ne hp _ _).trans (update_self _ _ _)⟩

/-! ## Who touched a path last -/

def Untouched (fs : List (Footprint P)) (p : P) : Prop := ∀ f ∈ fs, p ∉ f.touches

structure LastTouch (fs : List (Footprint P)) (p : P) (i : Nat) (f : Footprint P) : Prop where
  at_index : fs[i]? = some f
  touches : p ∈ f.touches
  last : ∀ j f', i < j → fs[j]? = some f' → p ∉ f'.touches

structure Traced (fs : List (Footprint P)) (w : Marks P) : Prop where
  fresh : ∀ p, w p = some [] → Untouched fs p
  marked : ∀ p marks i, w p = some (marks ++ [i]) → ∃ f, LastTouch fs p i f
  gone : ∀ p, w p = none → Untouched fs p ∨ ∃ i f, LastTouch fs p i f ∧ f.path = p

section
omit [DecidableEq P]

variable {fs : List (Footprint P)} {p : P} {i : Nat} {f last : Footprint P}

theorem Untouched.concat (h : Untouched fs p) (hl : p ∉ last.touches) : Untouched (fs ++ [last]) p := by
  intro f hf
  rcases mem_append.mp hf with hf | hf
  · exact h f hf
  · rwa [mem_singleton.mp hf]

theorem LastTouch.concat (h : LastTouch fs p i f) (hl : p ∉ last.touches) :
    LastTouch (fs ++ [last]) p i f := by
  refine ⟨getElem?_concat_iff.mpr (.inl h.at_index), h.touches, fun j f' hij hj => ?_⟩
  rcases getElem?_concat_iff.mp hj with hj | ⟨-, rfl⟩
  · exact h.last j f' hij hj
  · exact hl

theorem LastTouch.new (fs : List (Footprint P)) (hl : p ∈ last.touches) :
    LastTouch (fs ++ [last]) p fs.length last := by
  refine ⟨getElem?_concat_iff.mpr (.inr ⟨rfl, rfl⟩), hl, fun j f' hij hj => ?_⟩
  rw [getElem?_eq_none (by simp; omega)] at hj
  cases hj

end

omit paths in
theorem Traced.concat {fs : List (Footprint P)} {w : Marks P} (h : Traced fs w) {op : Op P}
    (hop : op.trace fs.length w = some w') : Traced (fs ++ [op.footprint]) w' := by
  constructor
  · intro p hp
    by_cases hmem : p ∈ op.touches
    · rcases trace_touched hop hmem with ⟨hnone, -⟩ | ⟨marks, hmks⟩
      · rw [hnone] at hp
        cases hp
      · rw [hmks] at hp
        simp at hp
    · rw [trace_frame hop hmem] at hp
      exact (h.fresh p hp).concat hmem
  · intro p marks i hp
    by_cases hmem : p ∈ op.touches
    · rcases trace_touched hop hmem with ⟨hnone, -⟩ | ⟨marks', hmks⟩
      · rw [hnone] at hp
        cases hp
      · have hi : i = fs.length := by
          rw [hmks] at hp
          have := congrArg List.getLast? (Option.some.inj hp)
          simpa using this.symm
        rw [hi]
        exact ⟨_, .new fs hmem⟩
    · rw [trace_frame hop hmem] at hp
      obtain ⟨f, hf⟩ := h.marked p marks i hp
      exact ⟨f, hf.concat hmem⟩
  · intro p hp
    by_cases hmem : p ∈ op.touches
    · rcases trace_touched hop hmem with ⟨-, hpath⟩ | ⟨marks, hmks⟩
      · exact .inr ⟨fs.length, _, .new fs hmem, hpath.symm⟩
      · rw [hmks] at hp
        cases hp
    · rw [trace_frame hop hmem] at hp
      rcases h.gone p hp with hun | ⟨i, f, hf, hpath⟩
      · exact .inl (hun.concat hmem)
      · exact .inr ⟨i, f, hf.concat hmem, hpath⟩

/-! ## Marked runs -/

def blank (v : TextState P) : Marks P := fun p => (v p).map fun _ => []

theorem exists_trace {op : Op P} {v v' : TextState P} (h : op.effect paths v = some v') {w : Marks P}
    (hw : ∀ p, (w p).isSome = (v p).isSome) (i : Nat) :
    ∃ w', op.trace i w = some w' ∧ ∀ p, (w' p).isSome = (v' p).isSome := by
  have hupd : ∀ {x : Option (List Nat)} {y : Option Text} {u : Marks P} {u' : TextState P} (path : P),
      (∀ p, (u p).isSome = (u' p).isSome) → x.isSome = y.isSome →
      ∀ p, (Function.update u path x p).isSome = (Function.update u' path y p).isSome := by
    intro x y u u' path hu hxy p
    by_cases hp : p = path
    · subst hp
      simpa using hxy
    · simpa [update_of_ne hp] using hu p
  cases op with
  | add path contents =>
    cases h
    exact ⟨_, rfl, hupd path hw rfl⟩
  | delete path =>
    obtain ⟨content, hread, rfl⟩ := Option.map_eq_some_iff.mp h
    obtain ⟨marks, hmks⟩ : ∃ marks, w path = some marks := Option.isSome_iff_exists.mp (by simp [hw, hread])
    exact ⟨Function.update w path none, by simp [trace, hmks], hupd path hw rfl⟩
  | update path dest chunks =>
    obtain ⟨original, new, hread, -, rfl⟩ := effect_update_eq_some h
    obtain ⟨marks, hmks⟩ : ∃ marks, w path = some marks := Option.isSome_iff_exists.mp (by simp [hw, hread])
    refine ⟨place w path dest (marks ++ [i]), by simp [trace, hmks], ?_⟩
    cases dest with
    | none => exact hupd path hw rfl
    | some dest => exact hupd path (hupd dest hw rfl) rfl

/-- **Whatever patch can be applied, the marked one can, too**; its marks tell who touched what. -/
theorem exists_traced {ops : List (Op P)} {v v' : TextState P} (h : run paths v ops = some v') :
    ∃ w, run paths (blank v).texts (markAll ops) = some w.texts ∧ Traced (ops.map footprint) w ∧
      ∀ p, (w p).isSome = (v' p).isSome := by
  induction ops using List.reverseRecOn generalizing v' with
  | nil =>
    cases h
    refine ⟨blank v, rfl, ⟨?_, ?_, ?_⟩, ?_⟩
    · intro p _ f hf
      cases hf
    · intro p marks i hp
      cases hread : v p <;> simp [blank, hread] at hp
    · intro p _
      exact .inl fun f hf => by cases hf
    · intro p
      simp [blank]
  | append_singleton ops op ih =>
    rw [run_append, Option.bind_eq_some_iff] at h
    obtain ⟨v1, h1, h2⟩ := h
    rw [run_cons, Option.bind_eq_some_iff] at h2
    obtain ⟨v2, h2, h3⟩ := h2
    cases h3
    obtain ⟨w1, hrun, htr, hsome⟩ := ih h1
    obtain ⟨w2, htrace, hsome'⟩ := exists_trace paths h2 hsome ops.length
    refine ⟨w2, ?_, ?_, hsome'⟩
    · rw [markAll_concat, run_append, hrun, Option.bind_some, run_cons, effect_marked, htrace]
      rfl
    · rw [map_append, map_singleton]
      refine htr.concat ?_
      rwa [length_map]

/-! ## Marked patches that do what they show -/

def Op.Shows (i : Nat) (w : Marks P) : Op P → Prop
  | .add path _ => w path = some [i]
  | .delete path => w path = none
  | .update path none _ => w path = some [i]
  | .update path (some dest) _ => w dest = some [i] ∧ w path = none

variable {paths} {unifiedDiff : Nat → Text → Text → Text} {ops : List (Op P)} {v v' : TextState P}
  {changes : AList fun _ : P => ApplyPatchFileChange P}

omit [DecidableEq P] in
/-- A marked operation has a change if the operation has one. -/
theorem exists_change_marked (i : Nat) {op : Op P} {change : ApplyPatchFileChange P}
    (h : op.change paths unifiedDiff v = some change) :
    ∃ change', (op.marked i).change paths unifiedDiff (blank v).texts = some change' ∧
      ∀ w : Marks P, change'.Holds op.path w.texts → op.Shows i w := by
  have hmks : ∀ {w : Marks P} {p : P} {marks : List Nat}, w.texts p = some (markText marks) →
      w p = some marks := by
    intro w p marks hp
    obtain ⟨marks', hw, he⟩ := Option.map_eq_some_iff.mp hp
    rw [hw, markText_injective he]
  have hnone : ∀ {w : Marks P} {p : P}, w.texts p = none → w p = none := Option.map_eq_none_iff.mp
  cases op with
  | add path contents => exact ⟨.add (markText [i]), rfl, fun w h => hmks h⟩
  | delete path =>
    obtain ⟨content, hread, -⟩ := Option.map_eq_some_iff.mp h
    refine ⟨.delete (markText []), ?_, fun w h => hnone h⟩
    simp [marked, Op.change, texts, blank, hread]
  | update path dest chunks =>
    obtain ⟨original, new, hread, -, -⟩ := change_update_eq_some h
    have hblank : (blank v).texts path = some (markText []) := by simp [texts, blank, hread]
    have hnew : newText paths path [markChunk i] (markText []) = some (markText [i]) := by
      rw [newText, deriveNewContents_mark]
      rfl
    refine ⟨.update (unifiedDiff 1 (markText []) (markText [i])) dest (markText [i]), ?_, fun w h => ?_⟩
    · simp [marked, Op.change, hblank, hnew]
    · cases dest with
      | none => exact hmks h
      | some dest => exact ⟨hmks h.1, hnone h.2⟩

theorem exists_preview (h : ∀ op ∈ ops, ∃ change, op.change paths unifiedDiff v = some change) :
    ∃ changes, preview paths unifiedDiff v ops = some changes := by
  induction ops using List.reverseRecOn with
  | nil => exact ⟨∅, rfl⟩
  | append_singleton ops last ih =>
    obtain ⟨changes, hchs⟩ := ih fun op hop => h op (mem_append_left _ hop)
    obtain ⟨change, hc⟩ := h last (by simp)
    refine ⟨changes.insert last.path change, ?_⟩
    rw [preview, previewFrom] at hchs ⊢
    rw [foldlM_append, hchs]
    simp [hc]

theorem exists_preview_marked (h : preview paths unifiedDiff v ops = some changes) :
    ∃ changes', preview paths unifiedDiff (blank v).texts (markAll ops) = some changes' := by
  refine exists_preview fun op hop => ?_
  obtain ⟨i, hi⟩ := mem_iff_getElem?.mp hop
  rw [markAll, getElem?_mapIdx, Option.map_eq_some_iff] at hi
  obtain ⟨op', hop', rfl⟩ := hi
  obtain ⟨change, hc⟩ := exists_change h op' (mem_of_getElem? hop')
  obtain ⟨change', hchange', -⟩ := exists_change_marked i hc
  exact ⟨change', hchange'⟩

theorem shows_of_updatedBy (hprev : preview paths unifiedDiff v ops = some changes)
    (hmkd : preview paths unifiedDiff (blank v).texts (markAll ops) = some changes')
    (hupd : UpdatedBy changes' (blank v).texts w.texts) (heff : EffectiveOp ops i op) : op.Shows i w := by
  obtain ⟨change, hc⟩ := exists_change hprev op (mem_of_getElem? heff.1)
  obtain ⟨change', hchange', hshows⟩ := exists_change_marked i hc
  have hp : (op.marked i).path = op.path := by rw [path, footprint_marked, path]
  have heff' : EffectiveOp (markAll ops) i (op.marked i) := by
    refine ⟨getElem?_markAll heff.1, ?_⟩
    rw [footprint_markAll, footprint_marked]
    exact heff.2
  refine hshows w (hupd.changed op.path change' ?_)
  exact (lookup_preview hmkd _ _).mpr ⟨i, op.marked i, heff', hp, hchange'⟩

omit [DecidableEq P] in
theorem last_of_gone {fs : List (Footprint P)} (htr : Traced fs w) {f : Footprint P}
    (heff : Effective fs i f) (hgone : w f.path = none) :
    ∀ j f', i < j → fs[j]? = some f' → f.path ∉ f'.touches := by
  intro j f' hij hj hmem
  rcases htr.gone _ hgone with hun | ⟨k, g, hl, hp⟩
  · exact hun f' (mem_of_getElem? hj) hmem
  · -- the last one to touch the path is not behind the effective one
    rcases Nat.lt_or_ge i k with hik | hki
    · exact heff.last k g hik hl.at_index hp
    · exact hl.last j f' (by omega) hj hmem

omit [DecidableEq P] in
theorem last_of_mark {fs : List (Footprint P)} (htr : Traced fs w) (hmark : w q = some [i]) :
    ∀ j f', i < j → fs[j]? = some f' → q ∉ f'.touches := by
  obtain ⟨f, hl⟩ := htr.marked q [] i hmark
  exact hl.last

omit [DecidableEq P] in
theorem last_of_shows (htr : Traced (ops.map footprint) w) (heff : EffectiveOp ops i op) (hshows : op.Shows i w)
    (hq : q ∈ op.touches) :
    ∀ j f', i < j → (ops.map footprint)[j]? = some f' → q ∉ f'.touches := by
  cases op with
  | add path contents =>
    rw [mem_singleton.mp hq]
    exact last_of_mark htr hshows
  | delete path =>
    rw [mem_singleton.mp hq]
    exact last_of_gone htr heff.2 hshows
  | update path dest chunks =>
    cases dest with
    | none =>
      rw [mem_singleton.mp hq]
      exact last_of_mark htr hshows
    | some dest =>
      rcases mem_cons.mp hq with rfl | hq
      · exact last_of_gone htr heff.2 hshows.2
      · rw [mem_singleton.mp hq]
        exact last_of_mark htr hshows.1

theorem first_of_shows (hrun : run paths v ops = some v')
    (hmks : run paths (blank v).texts (markAll ops) = some w.texts)
    (htr : Traced (ops.map footprint) w) (heff : EffectiveOp ops i op) (hshows : op.Shows i w)
    (hreads : op.footprint.reads = true) : Untouched ((ops.take i).map footprint) op.path := by
  obtain ⟨u1, u2, hu1, -, -⟩ := run_at hrun heff.1
  obtain ⟨w1, hw1, htraced1, -⟩ := exists_traced paths hu1
  obtain ⟨v1, v2, h1, h2, h3⟩ := run_at hmks (getElem?_markAll heff.1)
  rw [take_markAll, hw1] at h1
  cases h1
  rw [effect_marked, Option.map_eq_some_iff] at h2
  obtain ⟨w2, htrace, rfl⟩ := h2
  -- what the operation leaves is there at the end
  have hend : ∀ q ∈ op.touches, w.texts q = w2.texts q := by
    intro q hq
    refine run_frame h3 fun op' hop' => ?_
    obtain ⟨j, hj⟩ := mem_iff_getElem?.mp hop'
    rw [getElem?_drop] at hj
    have hfoot := footprint_at hj
    rw [footprint_markAll] at hfoot
    exact last_of_shows htr heff hshows hq _ _ (by omega) hfoot
  -- so the mark it shows is the only one
  have halone : ∀ {q : P} {marks : List Nat}, q ∈ op.touches → w q = some [i] → w2 q = some (marks ++ [i]) →
      marks = [] := by
    intro q marks hq hw hw2
    have htexts := hend q hq
    rw [texts, texts, hw, hw2] at htexts
    have hmks := markText_injective (Option.some.inj htexts)
    simpa using congrArg List.length hmks
  cases op with
  | add path contents => cases hreads
  | delete path => cases hreads
  | update path dest chunks =>
    obtain ⟨marks, hread, rfl⟩ := Option.map_eq_some_iff.mp htrace
    have hnil : marks = [] := by
      cases dest with
      | none => exact halone mem_cons_self hshows (update_self _ _ _)
      | some dest =>
        have hne : dest ≠ path := by
          rintro rfl
          have hboth := hshows.1.symm.trans hshows.2
          cases hboth
        refine halone (by simp [touches, footprint, Footprint.touches]) hshows.1 ?_
        exact (update_of_ne hne _ _).trans (update_self _ _ _)
    rw [hnil] at hread
    exact htraced1.fresh path hread

theorem shown_of_updatedBy (hmkd : preview paths unifiedDiff (blank v).texts (markAll ops) = some changes')
    (hupd : UpdatedBy changes' (blank v).texts w.texts) (htr : Traced (ops.map footprint) w)
    {f : Footprint P} (hf : f ∈ ops.map footprint) (hq : q ∈ f.touches) :
    ∃ j f', Effective (ops.map footprint) j f' ∧ q ∈ f'.touches := by
  by_contra hnone
  have hoth : w.texts q = (blank v).texts q := by
    refine hupd.others q fun path change hl hmem => hnone ?_
    obtain ⟨j, op', heff, rfl, hc⟩ := (lookup_preview hmkd path change).mp hl
    rw [mentions_change hc] at hmem
    have heff' := heff.2
    rw [footprint_markAll] at heff'
    exact ⟨j, _, heff', hmem⟩
  cases hw : w q with
  | none =>
    rcases htr.gone q hw with hun | ⟨k, g, hlast, rfl⟩
    · exact hun f hf hq
    · obtain ⟨j, f', heff, hp⟩ := exists_effective (mem_of_getElem? hlast.at_index)
      exact hnone ⟨j, f', heff, hp ▸ mem_cons_self⟩
  | some marks =>
    rcases eq_nil_or_concat marks with rfl | ⟨init, k, rfl⟩
    · exact htr.fresh q hw f hf hq
    · rw [texts, texts, hw, blank] at hoth
      cases hv : v q with
      | none =>
        rw [hv] at hoth
        cases hoth
      | some content =>
        rw [hv] at hoth
        have hmks := markText_injective (Option.some.inj hoth)
        simp at hmks

/-- **A marked patch that does what it shows is orderly.** -/
theorem orderly_of_updatedBy (hprev : preview paths unifiedDiff v ops = some changes)
    (hrun : run paths v ops = some v')
    (h : ∀ changes' u, preview paths unifiedDiff (blank v).texts (markAll ops) = some changes' →
      run paths (blank v).texts (markAll ops) = some u → UpdatedBy changes' (blank v).texts u) :
    Orderly (ops.map footprint) := by
  obtain ⟨changes', hmkd⟩ := exists_preview_marked hprev
  obtain ⟨w, hmks, htr, -⟩ := exists_traced paths hrun
  have hupd := h changes' w.texts hmkd hmks
  have hshows : ∀ {i op}, EffectiveOp ops i op → op.Shows i w := shows_of_updatedBy hprev hmkd hupd
  constructor
  · intro i f heff q hq
    obtain ⟨op, heff', rfl⟩ := effectiveOp_of heff
    exact last_of_shows htr heff' (hshows heff') hq
  · intro i f heff hreads j f' hji hj
    obtain ⟨op, heff', rfl⟩ := effectiveOp_of heff
    refine first_of_shows hrun hmks htr heff' (hshows heff') hreads f' ?_
    rw [map_take]
    refine mem_of_getElem? (i := j) ?_
    rwa [getElem?_take_of_lt hji]
  · intro i f heff hdest
    obtain ⟨op, heff', rfl⟩ := effectiveOp_of heff
    have hs := hshows heff'
    cases op with
    | add path contents => cases hdest
    | delete path => cases hdest
    | update path dest chunks =>
      have hself : dest = some path := hdest
      subst hself
      have hboth := hs.1.symm.trans hs.2
      cases hboth
  · intro f hf q hq
    exact shown_of_updatedBy hmkd hupd htr hf hq

/-! ## Marked hunks -/

def Hunk.marked (i : Nat) : Hunk → Hunk
  | .addFile path _ => .addFile path (markText [i])
  | .deleteFile path => .deleteFile path
  | .updateFile path movePath _ => .updateFile path movePath [markChunk i]

omit [DecidableEq P] in
theorem resolve_marked (cwd : P) (i : Nat) (hunk : Hunk) :
    (hunk.marked i).resolve paths cwd = (hunk.resolve paths cwd).map (Op.marked i) := by
  have hpath : (hunk.marked i).resolvePath paths cwd = hunk.resolvePath paths cwd := by cases hunk <;> rfl
  cases hp : hunk.resolvePath paths cwd with
  | error e =>
    rw [Hunk.resolve, Hunk.resolve, hpath, hp]
    rfl
  | ok path =>
    rw [hp] at hpath
    cases hunk with
    | addFile p contents | deleteFile p =>
      rw [Hunk.resolve, Hunk.resolve, hpath, hp]
      rfl
    | updateFile p mv chunks =>
      rw [Hunk.resolve_updateFile hp, Hunk.marked, Hunk.resolve_updateFile hpath]
      cases joinMovePath paths cwd mv <;> rfl

def markHunks (hunks : List Hunk) : List Hunk := hunks.mapIdx Hunk.marked

omit [DecidableEq P] in
theorem resolve_markHunks {cwd : P} (h : hunks.mapM (Hunk.resolve paths cwd) = .ok ops) :
    (markHunks hunks).mapM (Hunk.resolve paths cwd) = .ok (markAll ops) := by
  -- the hunks behind the first one have their numbers raised
  have hfrom : ∀ k, (hunks.mapIdx fun i => Hunk.marked (i + k)).mapM (Hunk.resolve paths cwd) =
      .ok (ops.mapIdx fun i => Op.marked (i + k)) := by
    induction hunks generalizing ops with
    | nil =>
      cases h
      intro k
      rfl
    | cons hunk hunks ih =>
      obtain ⟨op, ops', hop, hops', rfl⟩ := mapM_cons_eq_ok.mp h
      intro k
      have hr := ih hops' (k + 1)
      simp only [← Nat.add_assoc, Nat.add_right_comm _ k 1] at hr
      rw [mapIdx_cons, mapIdx_cons]
      refine mapM_cons_eq_ok.mpr ⟨_, _, ?_, hr, rfl⟩
      rw [resolve_marked, hop]
      rfl
  exact hfrom 0

/-! ## Approved and applied -/

open Hunk

section
variable (paths) (unifiedDiff) (cwd base : P) (args : ApplyPatchArgs) (v)

theorem verify_of_preview (hbase : effectiveCwd paths cwd args.workdir = .ok base)
    (hops : args.hunks.mapM (resolve paths base) = .ok ops)
    (hprev : preview paths unifiedDiff v ops = some changes) :
    ∃ action v₁, tryVerifyApplyPatchArgs (textFs P) paths unifiedDiff args cwd v = .ok action v₁ ∧
      action.cwd = base ∧ action.changes = changes := by
  have hspec := tryVerifyApplyPatchArgs_textFs paths cwd unifiedDiff args v
  cases hverify : tryVerifyApplyPatchArgs (textFs P) paths unifiedDiff args cwd v with
  | ok action v₁ =>
    obtain ⟨-, hcwd, ops', hops', hpreview'⟩ := hspec.of_ok hverify
    rw [hbase] at hcwd
    cases hcwd
    rw [hops] at hops'
    cases hops'
    rw [hprev] at hpreview'
    cases hpreview'
    exact ⟨action, v₁, rfl, rfl, rfl⟩
  | error e v₁ =>
    have hnone := hspec.of_error hverify base ops hbase hops
    rw [hprev] at hnone
    cases hnone

theorem apply_of_run (hne : hunks ≠ []) (hops : hunks.mapM (resolve paths base) = .ok ops)
    (hrun : run paths v ops = some v') :
    ∃ delta, applyHunks (textFs P) paths quietly quietly hunks base v = .ok delta v' := by
  have hspec := applyHunks_textFs paths base hunks v
  cases happ : applyHunks (textFs P) paths quietly quietly hunks base v with
  | ok delta v'' =>
    obtain ⟨ops', hops', hrun'⟩ := hspec.of_ok happ
    rw [hops] at hops'
    cases hops'
    rw [hrun] at hrun'
    cases hrun'
    exact ⟨delta, rfl⟩
  | error e v'' =>
    rcases hspec.of_error happ with hnil | hnone
    · exact absurd hnil hne
    · rw [hnone ops hops] at hrun
      cases hrun

/-- **When what is approved is what is applied.**  Take a patch that can be verified and applied.
All patches that touch the same paths in the same way do what is shown, whatever their contents
and whatever the files, exactly if the operations are orderly. -/
theorem previews_iff (fs : List (Footprint P)) (hbase : effectiveCwd paths cwd args.workdir = .ok base)
    (hfs : args.hunks.mapM (Hunk.footprint paths base) = .ok fs)
    (hverify : ∃ action v₁, tryVerifyApplyPatchArgs (textFs P) paths unifiedDiff args cwd v = .ok action v₁)
    (happly : ∃ delta v', applyHunks (textFs P) paths quietly quietly args.hunks base v = .ok delta v') :
    (∀ args' v', effectiveCwd paths cwd args'.workdir = .ok base →
      args'.hunks.mapM (Hunk.footprint paths base) = .ok fs → Previews paths unifiedDiff cwd args' v') ↔
    Orderly fs := by
  constructor
  · intro h
    obtain ⟨ops, hops, rfl⟩ := mapM_map_eq_ok.mp hfs
    obtain ⟨action, v₁, hverify⟩ := hverify
    obtain ⟨delta, v', happly⟩ := happly
    obtain ⟨-, hcwd, ops', hops', hpreview⟩ :=
      (tryVerifyApplyPatchArgs_textFs paths cwd unifiedDiff args v).of_ok hverify
    rw [hbase] at hcwd
    cases hcwd
    rw [hops] at hops'
    cases hops'
    obtain ⟨ops', hops', hrun⟩ := (applyHunks_textFs paths action.cwd args.hunks v).of_ok happly
    rw [hops] at hops'
    cases hops'
    have hne : args.hunks ≠ [] := by
      intro hnil
      rw [hnil] at happly
      cases happly
    -- the marked patch touches the same paths, so it does what it shows
    refine orderly_of_updatedBy hpreview hrun fun changes' u hmarked hu => ?_
    have hmarkedOps := resolve_markHunks hops
    obtain ⟨action', v₁', hverify', hcwd', rfl⟩ := verify_of_preview paths unifiedDiff (blank v).texts
      cwd action.cwd { args with hunks := markHunks args.hunks } hbase hmarkedOps hmarked
    obtain ⟨delta', happly'⟩ := apply_of_run paths (blank v).texts action.cwd
      (show markHunks args.hunks ≠ [] by simpa [markHunks] using hne) hmarkedOps hu
    refine h { args with hunks := markHunks args.hunks } (blank v).texts hbase ?_ action' v₁' delta' u
      hverify' (by rw [hcwd']; exact happly')
    exact mapM_map_eq_ok.mpr ⟨markAll ops, hmarkedOps, (footprint_markAll ops).symm⟩
  · intro horderly args' v' hbase' hfs' action v₁ delta v'' hverify' happly'
    obtain ⟨ops, hops, rfl⟩ := mapM_map_eq_ok.mp hfs'
    obtain ⟨-, hcwd, ops', hops', hpreview⟩ :=
      (tryVerifyApplyPatchArgs_textFs paths cwd unifiedDiff args' v').of_ok hverify'
    rw [hbase'] at hcwd
    cases hcwd
    rw [hops] at hops'
    cases hops'
    obtain ⟨ops', hops', hrun⟩ := (applyHunks_textFs paths action.cwd args'.hunks v').of_ok happly'
    rw [hops] at hops'
    cases hops'
    exact updatedBy_of_orderly horderly hpreview hrun

end

def threeHunks : ApplyPatchArgs where
  patch := []
  environmentId := none
  hunks := [moveHunk, .addFile "c.txt".toList "new\n".toList, .deleteFile "d.txt".toList]

def twoFiles : TextState Text := Function.update oneFile "d.txt".toList (some "old\n".toList)

theorem previews_iff_threeHunks : Previews flatPaths (fun _ _ new => new) [] threeHunks twoFiles :=
  (previews_iff flatPaths (fun _ _ new => new) twoFiles [] [] threeHunks
    [⟨"a.txt".toList, some "b.txt".toList, true⟩, ⟨"c.txt".toList, none, false⟩, ⟨"d.txt".toList, none, false⟩]
    rfl rfl ⟨_, _, rfl⟩ ⟨_, _, rfl⟩).mpr (orderly_of_disjoint (by decide) (by decide)) threeHunks twoFiles rfl rfl

end ApplyPatch
