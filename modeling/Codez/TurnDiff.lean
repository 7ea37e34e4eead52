import Codez.Patch.Apply

/-!
The net diff of a turn (`core/src/turn_diff_tracker.rs`).

The tracker folds the committed changes of apply_patch into a baseline and a current content per
path, and renders their diff; it reports the net change (`track_reports`).
-/

open ApplyPatch

structure TrackedContent where
  content : Text
  revision : Nat
deriving DecidableEq

structure TrackedPath (P : Type) where
  environmentId : Text
  path : P
deriving DecidableEq

structure DiffCacheKey (P : Type) where
  leftPath : TrackedPath P
  leftRevision : Option Nat
  rightPath : TrackedPath P
  rightRevision : Option Nat
deriving DecidableEq

inductive TrackedMap where
  | baseline
  | current
  | origin

/-- What the tracker takes from libraries: paths, SHA-1, the diff of `similar` between two texts
under two headers, and the order of iteration. -/
structure DiffHost (P : Type) where
  stripPrefix : P → P → Option P
  display : P → Text
  gitBlobOid : Text → Text
  unifiedDiff : Text → Text → Text → Text → Text
  hashOrder : TrackedMap → List (TrackedPath P) → List (TrackedPath P)
  hashOrder_perm : ∀ m keys, (hashOrder m keys).Perm keys

structure TurnDiffTracker (P : Type) where
  valid : Bool := true
  displayRootsByEnvironment : AList fun _ : Text => P := ∅
  baselineByPath : AList fun _ : TrackedPath P => TrackedContent := ∅
  currentByPath : AList fun _ : TrackedPath P => TrackedContent := ∅
  originByCurrentPath : AList fun _ : TrackedPath P => TrackedPath P := ∅
  nextRevision : Nat := 0
  renderedDiffs : AList fun _ : DiffCacheKey P => Option Text := ∅
  unifiedDiff : Option Text := none

namespace TurnDiffTracker

open List Function

variable {P κ ν : Type} [DecidableEq P] {k : κ} {now base : κ → Option ν}

def withEnvironmentDisplayRoots (displayRoots : List (Text × P)) : TurnDiffTracker P :=
  { displayRootsByEnvironment :=
      displayRoots.foldl (fun roots (environmentId, root) => roots.insert environmentId root) ∅ }

def invalidate (t : TurnDiffTracker P) : TurnDiffTracker P :=
  { t with valid := false, renderedDiffs := ∅, unifiedDiff := none }

/-! ## Changes -/

def insertBaseline (t : TurnDiffTracker P) (path : TrackedPath P) (content : Text) : TurnDiffTracker P :=
  { t with
    baselineByPath := t.baselineByPath.insert path ⟨content, t.nextRevision⟩
    nextRevision := t.nextRevision + 1 }

def insertCurrent (t : TurnDiffTracker P) (path : TrackedPath P) (content : Text) : TurnDiffTracker P :=
  { t with
    currentByPath := t.currentByPath.insert path ⟨content, t.nextRevision⟩
    nextRevision := t.nextRevision + 1 }

def removeCurrent (t : TurnDiffTracker P) (path : TrackedPath P) : TurnDiffTracker P :=
  { t with currentByPath := t.currentByPath.erase path }

def noteBaseline (t : TurnDiffTracker P) (path : TrackedPath P) (content : Option Text) : TurnDiffTracker P :=
  if path ∉ t.currentByPath ∧ path ∉ t.baselineByPath then
    match content with
    | some content => t.insertBaseline path content
    | none => t
  else t

def applyAdd (t : TurnDiffTracker P) (path : TrackedPath P) (content : Text) (overwrittenContent : Option Text) :
    TurnDiffTracker P :=
  let t := { t with originByCurrentPath := t.originByCurrentPath.erase path }
  (t.noteBaseline path overwrittenContent).insertCurrent path content

def applyDelete (t : TurnDiffTracker P) (path : TrackedPath P) (content : Text) : TurnDiffTracker P :=
  let removed := t.currentByPath.lookup path
  let t := t.removeCurrent path
  let t := if removed = none ∧ path ∉ t.baselineByPath then t.insertBaseline path content else t
  { t with originByCurrentPath := t.originByCurrentPath.erase path }

def moveOrigin (origins : AList fun _ : TrackedPath P => TrackedPath P) (sourcePath destPath : TrackedPath P) :
    AList fun _ : TrackedPath P => TrackedPath P :=
  let origin := (origins.lookup sourcePath).getD sourcePath
  let origins := (origins.erase sourcePath).erase destPath
  if destPath ≠ origin then origins.insert destPath origin else origins

def applyUpdate (t : TurnDiffTracker P) (sourcePath : TrackedPath P) (movePath : Option (TrackedPath P))
    (oldContent : Text) (overwrittenMoveContent : Option Text) (newContent : Text) : TurnDiffTracker P :=
  let t := t.noteBaseline sourcePath (some oldContent)
  match movePath with
  | some destPath =>
    let t := t.noteBaseline destPath overwrittenMoveContent
    let t := (t.removeCurrent sourcePath).insertCurrent destPath newContent
    { t with originByCurrentPath := moveOrigin t.originByCurrentPath sourcePath destPath }
  | none => t.insertCurrent sourcePath newContent

def applyChange (environmentId : Text) (t : TurnDiffTracker P) (c : AppliedPatchChange P) : TurnDiffTracker P :=
  match c.change with
  | .add content overwrittenContent => t.applyAdd ⟨environmentId, c.path⟩ content overwrittenContent
  | .delete content => t.applyDelete ⟨environmentId, c.path⟩ content
  | .update movePath oldContent overwrittenMoveContent newContent =>
    t.applyUpdate ⟨environmentId, c.path⟩ (movePath.map (TrackedPath.mk environmentId)) oldContent
      overwrittenMoveContent newContent

/-! ## Rendering -/

section
variable (host : DiffHost P)

def displayPath (roots : AList fun _ : Text => P) (path : TrackedPath P) : Text :=
  let display := ((roots.lookup path.environmentId).bind fun root => host.stripPrefix path.path root).getD path.path
  let display := (host.display display).map fun c => if c = '\\' then '/' else c
  if 1 < roots.entries.length ∧ path.environmentId ≠ [] then path.environmentId ++ "/".toList ++ display else display

def renamePairs (t : TurnDiffTracker P) : AList fun _ : TrackedPath P => TrackedPath P :=
  let pairs := (host.hashOrder .origin t.originByCurrentPath.keys).filterMap fun destPath =>
    (t.originByCurrentPath.lookup destPath).bind fun originPath =>
      if destPath = originPath ∨ originPath ∈ t.currentByPath ∨ destPath ∉ t.currentByPath ∨
        originPath ∉ t.baselineByPath ∨ destPath ∈ t.baselineByPath then none
      else some (originPath, destPath)
  pairs.foldl (fun m (originPath, destPath) => m.insert originPath destPath) ∅

def zeroOid : Text := "0000000000000000000000000000000000000000".toList

def devNull : Text := "/dev/null".toList

def renderDiff (roots : AList fun _ : Text => P) (leftPath : TrackedPath P) (leftContent : Option Text)
    (rightPath : TrackedPath P) (rightContent : Option Text) : Option Text :=
  if leftContent = rightContent then none
  else
    let leftDisplay := displayPath host roots leftPath
    let rightDisplay := displayPath host roots rightPath
    let leftOid := (leftContent.map host.gitBlobOid).getD zeroOid
    let rightOid := (rightContent.map host.gitBlobOid).getD zeroOid
    let mode : Option Text :=
      match leftContent, rightContent with
      | none, some _ => some "new file mode 100644\n".toList
      | some _, none => some "deleted file mode 100644\n".toList
      | some _, some _ => some []
      | none, none => none
    mode.map fun mode =>
      let oldHeader := if leftContent.isSome then "a/".toList ++ leftDisplay else devNull
      let newHeader := if rightContent.isSome then "b/".toList ++ rightDisplay else devNull
      "diff --git a/".toList ++ leftDisplay ++ " b/".toList ++ rightDisplay ++ "\n".toList ++ mode ++
        "index ".toList ++ leftOid ++ "..".toList ++ rightOid ++ "\n".toList ++
        host.unifiedDiff (leftContent.getD []) (rightContent.getD []) oldHeader newHeader

structure Refresh (P : Type) where
  handled : List (TrackedPath P) := []
  previousDiffs : AList fun _ : DiffCacheKey P => Option Text
  renderedDiffs : AList fun _ : DiffCacheKey P => Option Text := ∅
  aggregated : Text := []

def pushDiff (aggregated : Text) : Option Text → Text
  | none => aggregated
  | some diff =>
    let aggregated := aggregated ++ diff
    if aggregated.getLast? = some '\n' then aggregated else aggregated ++ ['\n']

def diffCacheKey (t : TurnDiffTracker P) (leftPath rightPath : TrackedPath P) : DiffCacheKey P where
  leftPath := leftPath
  leftRevision := (t.baselineByPath.lookup leftPath).map TrackedContent.revision
  rightPath := rightPath
  rightRevision := (t.currentByPath.lookup rightPath).map TrackedContent.revision

/-- The diff from the baseline of `leftPath` to the current content of `rightPath`, from the cache if
it is there. -/
def renderPair (t : TurnDiffTracker P) (r : Refresh P) (leftPath rightPath : TrackedPath P) : Refresh P :=
  let key := t.diffCacheKey leftPath rightPath
  let rendered := (r.previousDiffs.lookup key).getD <|
    renderDiff host t.displayRootsByEnvironment
      leftPath ((t.baselineByPath.lookup leftPath).map TrackedContent.content)
      rightPath ((t.currentByPath.lookup rightPath).map TrackedContent.content)
  { r with
    previousDiffs := r.previousDiffs.erase key
    renderedDiffs := r.renderedDiffs.insert key rendered
    aggregated := pushDiff r.aggregated rendered }

def refreshPath (t : TurnDiffTracker P) (r : Refresh P) (path : TrackedPath P) : Refresh P :=
  if path ∈ r.handled then r
  else
    let r := { r with handled := path :: r.handled }
    if path ∈ (t.renamePairs host).entries.map Sigma.snd then r
    else
      match (t.renamePairs host).lookup path with
      | some dest => renderPair host t { r with handled := dest :: r.handled } path dest
      | none => renderPair host t r path path

def refreshPaths (t : TurnDiffTracker P) : List (TrackedPath P) :=
  let paths := host.hashOrder .baseline t.baselineByPath.keys ++ host.hashOrder .current t.currentByPath.keys
  let paths := paths.mergeSort fun a b =>
    displayPath host t.displayRootsByEnvironment a ≤ displayPath host t.displayRootsByEnvironment b
  paths.destutter (· ≠ ·)

def refreshUnifiedDiff (t : TurnDiffTracker P) : TurnDiffTracker P :=
  let r := (t.refreshPaths host).foldl (refreshPath host t) { previousDiffs := t.renderedDiffs }
  { t with
    renderedDiffs := r.renderedDiffs
    unifiedDiff := if r.aggregated = [] then none else some r.aggregated }

def trackDelta (t : TurnDiffTracker P) (environmentId : Text) (delta : AppliedPatchDelta P) : TurnDiffTracker P :=
  if !t.valid then t
  else if !delta.exact then t.invalidate
  else (delta.changes.foldl (applyChange environmentId) t).refreshUnifiedDiff host

end

/-! ## Net changes -/

/-- `base` and `now` are what `F₀` and `F` hold at every key that has an entry in one of them; elsewhere
nothing has changed. -/
structure Tracks {κ ν : Type} (F₀ F base now : κ → Option ν) : Prop where
  known : ∀ k, base k ≠ none ∨ now k ≠ none → base k = F₀ k ∧ now k = F k
  other : ∀ k, base k = none → now k = none → F k = F₀ k

def noteBase {κ ν : Type} [DecidableEq κ] (base now : κ → Option ν) (k : κ) (v : Option ν) : κ → Option ν :=
  if (base k).isNone && (now k).isNone then update base k v else base

theorem noteBase_of_none [DecidableEq κ] (v : Option ν) (h : base k = none ∧ now k = none) :
    noteBase base now k v = update base k v := by
  simp [noteBase, h]

theorem noteBase_of_not_none [DecidableEq κ] (v : Option ν) (h : ¬(base k = none ∧ now k = none)) :
    noteBase base now k v = base := by
  simp [noteBase, h]

theorem Tracks.write [DecidableEq κ] {F₀ F : κ → Option ν} (h : Tracks F₀ F base now) (k : κ) (v : Option ν) :
    Tracks F₀ (update F k v) (noteBase base now k (F k)) (update now k v) := by
  have hk : noteBase base now k (F k) k = F₀ k := by
    by_cases hnone : base k = none ∧ now k = none
    · rw [noteBase_of_none _ hnone, update_self, h.other k hnone.1 hnone.2]
    · rw [noteBase_of_not_none _ hnone]
      exact (h.known k (not_and_or.mp hnone)).1
  have hj : ∀ j, j ≠ k → noteBase base now k (F k) j = base j := by
    intro j hne
    unfold noteBase
    split
    · rw [update_of_ne hne]
    · rfl
  constructor
  · intro j hj'
    by_cases hjk : j = k
    · subst hjk
      exact ⟨hk, by rw [update_self, update_self]⟩
    · rw [hj j hjk, update_of_ne hjk] at hj' ⊢
      rw [update_of_ne hjk]
      exact h.known j hj'
  · intro j hbase hnow
    by_cases hjk : j = k
    · subst hjk
      rw [update_self] at hnow
      rw [update_self, hnow, ← hk, hbase]
    · rw [hj j hjk] at hbase
      rw [update_of_ne hjk] at hnow
      rw [update_of_ne hjk]
      exact h.other j hbase hnow

abbrev Files (P : Type) := TrackedPath P → Option Text

def replayChange (environmentId : Text) (F : Files P) (c : AppliedPatchChange P) : Files P :=
  let path : TrackedPath P := ⟨environmentId, c.path⟩
  match c.change with
  | .add content _ => update F path (some content)
  | .delete _ => update F path none
  | .update none _ _ newContent => update F path (some newContent)
  | .update (some movePath) _ _ newContent =>
    update (update F path none) ⟨environmentId, movePath⟩ (some newContent)

def ValidChange (environmentId : Text) (F : Files P) (c : AppliedPatchChange P) : Prop :=
  let path : TrackedPath P := ⟨environmentId, c.path⟩
  match c.change with
  | .add _ overwrittenContent => overwrittenContent = F path
  | .delete content => F path = some content
  | .update none oldContent _ _ => F path = some oldContent
  | .update (some movePath) oldContent overwrittenMoveContent _ =>
    F path = some oldContent ∧ movePath ≠ c.path ∧ overwrittenMoveContent = F ⟨environmentId, movePath⟩

instance (environmentId : Text) (F : Files P) (c : AppliedPatchChange P) : Decidable (ValidChange environmentId F c) :=
  match c with
  | ⟨_, .add _ overwrittenContent⟩ => inferInstanceAs (Decidable (overwrittenContent = _))
  | ⟨path, .delete content⟩ => inferInstanceAs (Decidable (F ⟨environmentId, path⟩ = some content))
  | ⟨path, .update none oldContent _ _⟩ => inferInstanceAs (Decidable (F ⟨environmentId, path⟩ = some oldContent))
  | ⟨path, .update (some movePath) oldContent overwrittenMoveContent _⟩ =>
    inferInstanceAs (Decidable (F ⟨environmentId, path⟩ = some oldContent ∧ movePath ≠ path ∧
      overwrittenMoveContent = F ⟨environmentId, movePath⟩))

/-! ## The recorded contents -/

def baseline (t : TurnDiffTracker P) : Files P := fun path =>
  (t.baselineByPath.lookup path).map TrackedContent.content

def current (t : TurnDiffTracker P) : Files P := fun path =>
  (t.currentByPath.lookup path).map TrackedContent.content

section
variable (t : TurnDiffTracker P) (path : TrackedPath P) (content : Text)

theorem not_mem_baselineByPath : path ∉ t.baselineByPath ↔ t.baseline path = none := by
  rw [baseline, Option.map_eq_none_iff, AList.lookup_eq_none]

theorem not_mem_currentByPath : path ∉ t.currentByPath ↔ t.current path = none := by
  rw [current, Option.map_eq_none_iff, AList.lookup_eq_none]

theorem map_content_insert (m : AList fun _ : TrackedPath P => TrackedContent) (c : TrackedContent) :
    (fun p => ((m.insert path c).lookup p).map TrackedContent.content) =
      update (fun p => (m.lookup p).map TrackedContent.content) path (some c.content) := by
  funext p
  by_cases hp : p = path
  · subst hp
    rw [AList.lookup_insert, update_self, Option.map_some]
  · rw [AList.lookup_insert_ne hp, update_of_ne hp]

@[simp] theorem baseline_insertBaseline :
    (t.insertBaseline path content).baseline = update t.baseline path (some content) :=
  map_content_insert path t.baselineByPath ⟨content, t.nextRevision⟩

@[simp] theorem current_insertBaseline : (t.insertBaseline path content).current = t.current := rfl

@[simp] theorem baseline_insertCurrent : (t.insertCurrent path content).baseline = t.baseline := rfl

@[simp] theorem current_insertCurrent :
    (t.insertCurrent path content).current = update t.current path (some content) :=
  map_content_insert path t.currentByPath ⟨content, t.nextRevision⟩

@[simp] theorem baseline_removeCurrent : (t.removeCurrent path).baseline = t.baseline := rfl

@[simp] theorem current_removeCurrent : (t.removeCurrent path).current = update t.current path none := by
  funext p
  by_cases hp : p = path
  · subst hp
    rw [current, removeCurrent, AList.lookup_erase, update_self, Option.map_none]
  · rw [current, removeCurrent, AList.lookup_erase_ne hp, update_of_ne hp, current]

@[simp] theorem current_noteBaseline (content : Option Text) : (t.noteBaseline path content).current = t.current := by
  unfold noteBaseline
  split
  · cases content <;> rfl
  · rfl

theorem baseline_noteBaseline (content : Option Text) :
    (t.noteBaseline path content).baseline = noteBase t.baseline t.current path content := by
  have hiff : path ∉ t.currentByPath ∧ path ∉ t.baselineByPath ↔ t.baseline path = none ∧ t.current path = none := by
    rw [not_mem_baselineByPath, not_mem_currentByPath, and_comm]
  unfold noteBaseline
  by_cases hnone : t.baseline path = none ∧ t.current path = none
  · rw [if_pos (hiff.mpr hnone), noteBase_of_none _ hnone]
    cases content with
    | none => exact (update_eq_self_iff.mpr hnone.1.symm).symm
    | some content => rw [baseline_insertBaseline]
  · rw [if_neg (mt hiff.mp hnone), noteBase_of_not_none _ hnone]

@[simp] theorem baseline_withOrigins (origins : AList fun _ : TrackedPath P => TrackedPath P) :
    ({ t with originByCurrentPath := origins } : TurnDiffTracker P).baseline = t.baseline := rfl

@[simp] theorem current_withOrigins (origins : AList fun _ : TrackedPath P => TrackedPath P) :
    ({ t with originByCurrentPath := origins } : TurnDiffTracker P).current = t.current := rfl

end

section
variable {F₀ F : Files P} {t : TurnDiffTracker P} {path : TrackedPath P} {oldContent : Text}

theorem applyAdd_tracks (h : Tracks F₀ F t.baseline t.current) (content : Text) :
    Tracks F₀ (update F path (some content)) (t.applyAdd path content (F path)).baseline
      (t.applyAdd path content (F path)).current := by
  simpa [applyAdd, baseline_noteBaseline] using h.write path (some content)

theorem applyDelete_tracks (h : Tracks F₀ F t.baseline t.current) {content : Text} (hF : F path = some content) :
    Tracks F₀ (update F path none) (t.applyDelete path content).baseline
      (t.applyDelete path content).current := by
  have hbase : (t.applyDelete path content).baseline = noteBase t.baseline t.current path (F path) := by
    have hiff : t.currentByPath.lookup path = none ∧ path ∉ (t.removeCurrent path).baselineByPath ↔
        t.baseline path = none ∧ t.current path = none := by
      rw [not_mem_baselineByPath, baseline_removeCurrent, and_comm, current, Option.map_eq_none_iff]
    unfold applyDelete
    rw [baseline_withOrigins, hF]
    by_cases hnone : t.baseline path = none ∧ t.current path = none
    · rw [if_pos (hiff.mpr hnone), noteBase_of_none _ hnone, baseline_insertBaseline, baseline_removeCurrent]
    · rw [if_neg (mt hiff.mp hnone), noteBase_of_not_none _ hnone, baseline_removeCurrent]
  have hnow : (t.applyDelete path content).current = update t.current path none := by
    simp only [applyDelete, current_withOrigins]
    split
    · rw [current_insertBaseline, current_removeCurrent]
    · rw [current_removeCurrent]
  rw [hbase, hnow]
  exact h.write path none

theorem applyUpdate_tracks (h : Tracks F₀ F t.baseline t.current) (hF : F path = some oldContent)
    (overwrittenMoveContent : Option Text) (newContent : Text) :
    Tracks F₀ (update F path (some newContent))
      (t.applyUpdate path none oldContent overwrittenMoveContent newContent).baseline
      (t.applyUpdate path none oldContent overwrittenMoveContent newContent).current := by
  simpa [applyUpdate, baseline_noteBaseline, hF] using h.write path (some newContent)

theorem applyMove_tracks (h : Tracks F₀ F t.baseline t.current) {dest : TrackedPath P} (hne : dest ≠ path)
    (hF : F path = some oldContent) (newContent : Text) :
    Tracks F₀ (update (update F path none) dest (some newContent))
      (t.applyUpdate path (some dest) oldContent (F dest) newContent).baseline
      (t.applyUpdate path (some dest) oldContent (F dest) newContent).current := by
  have hwr := (h.write path none).write dest (some newContent)
  rw [update_of_ne hne] at hwr
  simpa [applyUpdate, baseline_noteBaseline, hF, noteBase, update_of_ne hne] using hwr

theorem applyChange_tracks {environmentId : Text} {c : AppliedPatchChange P} (h : Tracks F₀ F t.baseline t.current)
    (hval : ValidChange environmentId F c) :
    Tracks F₀ (replayChange environmentId F c) (applyChange environmentId t c).baseline
      (applyChange environmentId t c).current := by
  obtain ⟨p, change⟩ := c
  cases change with
  | add content overwrittenContent =>
    obtain rfl : overwrittenContent = F ⟨environmentId, p⟩ := hval
    exact applyAdd_tracks h content
  | delete content => exact applyDelete_tracks h hval
  | update mv oldContent overwrittenMoveContent newContent =>
    cases mv with
    | none => exact applyUpdate_tracks h hval overwrittenMoveContent newContent
    | some mv =>
      obtain ⟨hF, hne, rfl⟩ := hval
      have hp : (⟨environmentId, mv⟩ : TrackedPath P) ≠ ⟨environmentId, p⟩ := by
        intro heq
        exact hne (congrArg TrackedPath.path heq)
      exact applyMove_tracks h hp hF newContent

end

/-! ## The cache -/

section
variable (host : DiffHost P) {m : AList fun _ : κ => ν} {cache : AList fun _ : DiffCacheKey P => Option Text}
  {r r' : Refresh P}

/-- A cached diff is the one between the contents that its revisions name; `log` lists the contents
by revision. -/
structure Cached (roots : AList fun _ : Text => P) (log : List Text) (key : DiffCacheKey P)
    (rendered : Option Text) : Prop where
  left : ∀ r, key.leftRevision = some r → r < log.length
  right : ∀ r, key.rightRevision = some r → r < log.length
  rendered_eq : rendered = renderDiff host roots key.leftPath (key.leftRevision.bind (log[·]?))
    key.rightPath (key.rightRevision.bind (log[·]?))

def CacheOk (roots : AList fun _ : Text => P) (log : List Text)
    (cache : AList fun _ : DiffCacheKey P => Option Text) : Prop :=
  ∀ key rendered, cache.lookup key = some rendered → Cached host roots log key rendered

/-- The tracker is in use, and every content it has is known under its revision. -/
structure Logged (log : List Text) (t : TurnDiffTracker P) : Prop where
  valid : t.valid = true
  length : log.length = t.nextRevision
  baseline : ∀ path c, t.baselineByPath.lookup path = some c → log[c.revision]? = some c.content
  current : ∀ path c, t.currentByPath.lookup path = some c → log[c.revision]? = some c.content
  cache : CacheOk host t.displayRootsByEnvironment log t.renderedDiffs

variable {host} {roots : AList fun _ : Text => P} {log : List Text} {t : TurnDiffTracker P}

theorem lookup_insert_cases [DecidableEq κ] {k' : κ} {v v' : ν} (h : (m.insert k v).lookup k' = some v') :
    (k' = k ∧ v' = v) ∨ m.lookup k' = some v' := by
  by_cases hk : k' = k
  · subst hk
    rw [AList.lookup_insert, Option.some.injEq] at h
    exact .inl ⟨rfl, h.symm⟩
  · rw [AList.lookup_insert_ne hk] at h
    exact .inr h

theorem lookup_of_lookup_erase [DecidableEq κ] {k' : κ} {v' : ν} (h : (m.erase k).lookup k' = some v') :
    m.lookup k' = some v' := by
  by_cases hk : k' = k
  · subst hk
    rw [AList.lookup_erase] at h
    cases h
  · rwa [AList.lookup_erase_ne hk] at h

theorem CacheOk.append (h : CacheOk host roots log cache) (content : Text) :
    CacheOk host roots (log ++ [content]) cache := by
  have hbind : ∀ revision : Option Nat, (∀ r, revision = some r → r < log.length) →
      revision.bind ((log ++ [content])[·]?) = revision.bind (log[·]?) := by
    intro revision hlt
    cases revision with
    | none => rfl
    | some r => exact getElem?_append_left (hlt r rfl)
  have hlen : ∀ r, r < log.length → r < (log ++ [content]).length := by
    intro r hr
    rw [length_append]
    exact Nat.lt_add_right _ hr
  intro key rendered hkey
  obtain ⟨hl, hright, heq⟩ := h key rendered hkey
  refine ⟨fun r hr => hlen r (hl r hr), fun r hr => hlen r (hright r hr), ?_⟩
  rw [heq, hbind _ hl, hbind _ hright]

theorem getElem?_append_of_some {content : Text} {r : Nat} {c : Text} (h : log[r]? = some c) :
    (log ++ [content])[r]? = some c := by
  obtain ⟨hr, -⟩ := List.getElem?_eq_some_iff.mp h
  rw [getElem?_append_left hr, h]

theorem Logged.insertBaseline (h : Logged host log t) (path : TrackedPath P) (content : Text) :
    Logged host (log ++ [content]) (t.insertBaseline path content) where
  valid := h.valid
  length := by rw [length_append, h.length]; rfl
  baseline p c hc := by
    rcases lookup_insert_cases hc with ⟨-, rfl⟩ | hc
    · rw [← h.length]
      exact getElem?_concat_length
    · exact getElem?_append_of_some (h.baseline p c hc)
  current p c hc := getElem?_append_of_some (h.current p c hc)
  cache := h.cache.append content

theorem Logged.insertCurrent (h : Logged host log t) (path : TrackedPath P) (content : Text) :
    Logged host (log ++ [content]) (t.insertCurrent path content) where
  valid := h.valid
  length := by rw [length_append, h.length]; rfl
  baseline p c hc := getElem?_append_of_some (h.baseline p c hc)
  current p c hc := by
    rcases lookup_insert_cases hc with ⟨-, rfl⟩ | hc
    · rw [← h.length]
      exact getElem?_concat_length
    · exact getElem?_append_of_some (h.current p c hc)
  cache := h.cache.append content

theorem Logged.removeCurrent (h : Logged host log t) (path : TrackedPath P) :
    Logged host log (t.removeCurrent path) where
  valid := h.valid
  length := h.length
  baseline := h.baseline
  current p c hc := h.current p c (lookup_of_lookup_erase hc)
  cache := h.cache

theorem Logged.withOrigins (h : Logged host log t) (origins : AList fun _ : TrackedPath P => TrackedPath P) :
    Logged host log { t with originByCurrentPath := origins } where
  valid := h.valid
  length := h.length
  baseline := h.baseline
  current := h.current
  cache := h.cache

theorem Logged.noteBaseline (h : Logged host log t) (path : TrackedPath P) (content : Option Text) :
    ∃ log, Logged host log (t.noteBaseline path content) := by
  unfold TurnDiffTracker.noteBaseline
  split
  · cases content with
    | none => exact ⟨log, h⟩
    | some content => exact ⟨log ++ [content], h.insertBaseline path content⟩
  · exact ⟨log, h⟩

theorem Logged.applyChange (h : Logged host log t) (environmentId : Text) (c : AppliedPatchChange P) :
    ∃ log, Logged host log (applyChange environmentId t c) := by
  obtain ⟨p, change⟩ := c
  cases change with
  | add content overwrittenContent =>
    obtain ⟨log', h'⟩ := (h.withOrigins _).noteBaseline ⟨environmentId, p⟩ overwrittenContent
    exact ⟨_, h'.insertCurrent ⟨environmentId, p⟩ content⟩
  | delete content =>
    have hrem := h.removeCurrent ⟨environmentId, p⟩
    simp only [TurnDiffTracker.applyChange, applyDelete]
    split
    · exact ⟨_, (hrem.insertBaseline ⟨environmentId, p⟩ content).withOrigins _⟩
    · exact ⟨_, hrem.withOrigins _⟩
  | update mv oldContent overwrittenMoveContent newContent =>
    obtain ⟨log', h'⟩ := h.noteBaseline ⟨environmentId, p⟩ (some oldContent)
    cases mv with
    | none => exact ⟨_, h'.insertCurrent ⟨environmentId, p⟩ newContent⟩
    | some dest =>
      obtain ⟨log'', h''⟩ := h'.noteBaseline ⟨environmentId, dest⟩ overwrittenMoveContent
      exact ⟨_, ((h''.removeCurrent ⟨environmentId, p⟩).insertCurrent ⟨environmentId, dest⟩ newContent).withOrigins _⟩

/-! ## Rendering with a cache -/

theorem Logged.cached (h : Logged host log t) (lp rp : TrackedPath P) :
    Cached host t.displayRootsByEnvironment log (t.diffCacheKey lp rp)
      (renderDiff host t.displayRootsByEnvironment lp (t.baseline lp) rp (t.current rp)) := by
  have hlt : ∀ {r : Nat} {c : Text}, log[r]? = some c → r < log.length :=
    fun hr => (List.getElem?_eq_some_iff.mp hr).1
  have hbind : ∀ o : Option TrackedContent, (∀ c, o = some c → log[c.revision]? = some c.content) →
      (∀ r, o.map TrackedContent.revision = some r → r < log.length) ∧
        (o.map TrackedContent.revision).bind (log[·]?) = o.map TrackedContent.content := by
    intro o ho
    cases o with
    | none => exact ⟨nofun, rfl⟩
    | some c =>
      refine ⟨fun r hr => ?_, ho c rfl⟩
      rw [Option.map_some, Option.some.injEq] at hr
      exact hr ▸ hlt (ho c rfl)
  obtain ⟨hl, hleft'⟩ := hbind _ (h.baseline lp)
  obtain ⟨hright, hright'⟩ := hbind _ (h.current rp)
  refine ⟨hl, hright, ?_⟩
  simp only [diffCacheKey]
  rw [hleft', hright']
  rfl

theorem Logged.lookup_getD (h : Logged host log t) (hcache : CacheOk host t.displayRootsByEnvironment log cache)
    (lp rp : TrackedPath P) :
    (cache.lookup (t.diffCacheKey lp rp)).getD
        (renderDiff host t.displayRootsByEnvironment lp (t.baseline lp) rp (t.current rp)) =
      renderDiff host t.displayRootsByEnvironment lp (t.baseline lp) rp (t.current rp) := by
  cases hkey : cache.lookup (t.diffCacheKey lp rp) with
  | none => rfl
  | some rendered =>
    rw [Option.getD_some, (hcache _ _ hkey).rendered_eq, (h.cached lp rp).rendered_eq]

structure Agree (host : DiffHost P) (t : TurnDiffTracker P) (log : List Text) (r r' : Refresh P) : Prop where
  handled : r'.handled = r.handled
  renderedDiffs : r'.renderedDiffs = r.renderedDiffs
  aggregated : r'.aggregated = r.aggregated
  previous : CacheOk host t.displayRootsByEnvironment log r.previousDiffs
  previous' : CacheOk host t.displayRootsByEnvironment log r'.previousDiffs
  rendered : CacheOk host t.displayRootsByEnvironment log r.renderedDiffs

theorem CacheOk.erase (h : CacheOk host roots log cache) (key : DiffCacheKey P) :
    CacheOk host roots log (cache.erase key) :=
  fun key' rendered hkey => h key' rendered (lookup_of_lookup_erase hkey)

theorem Agree.handle (h : Agree host t log r r') (path : TrackedPath P) :
    Agree host t log { r with handled := path :: r.handled } { r' with handled := path :: r'.handled } :=
  { h with handled := congrArg (path :: ·) h.handled }

theorem Agree.renderPair (hlog : Logged host log t) (h : Agree host t log r r') (lp rp : TrackedPath P) :
    Agree host t log (renderPair host t r lp rp) (renderPair host t r' lp rp) := by
  have hr := hlog.lookup_getD h.previous lp rp
  have hr' := hlog.lookup_getD h.previous' lp rp
  unfold TurnDiffTracker.renderPair
  simp only [baseline, current] at hr hr'
  simp only [hr, hr']
  refine ⟨h.handled, ?_, ?_, h.previous.erase _, h.previous'.erase _, ?_⟩
  · rw [h.renderedDiffs]
  · rw [h.aggregated]
  · intro key rendered hkey
    rcases lookup_insert_cases hkey with ⟨rfl, rfl⟩ | hkey
    · exact hlog.cached lp rp
    · exact h.rendered key rendered hkey

theorem Agree.refreshPath (hlog : Logged host log t) (h : Agree host t log r r') (path : TrackedPath P) :
    Agree host t log (refreshPath host t r path) (refreshPath host t r' path) := by
  unfold TurnDiffTracker.refreshPath
  rw [h.handled]
  split
  · exact h
  · have hhandled := h.handle path
    rw [h.handled] at hhandled
    split
    · exact hhandled
    · split
      · next dest _ =>
        exact (hhandled.handle dest).renderPair hlog path dest
      · exact hhandled.renderPair hlog path path

theorem Logged.refreshUnifiedDiff (h : Logged host log t) : Logged host log (t.refreshUnifiedDiff host) ∧
      (t.refreshUnifiedDiff host).unifiedDiff =
        (({ t.refreshUnifiedDiff host with renderedDiffs := ∅ } :
          TurnDiffTracker P).refreshUnifiedDiff host).unifiedDiff := by
  have hnil : CacheOk host t.displayRootsByEnvironment log ∅ := by
    intro key rendered hkey
    rw [AList.lookup_empty] at hkey
    cases hkey
  have hst : Agree host t log { previousDiffs := t.renderedDiffs } { previousDiffs := ∅ } :=
    ⟨rfl, rfl, rfl, h.cache, hnil, hnil⟩
  have hagree := foldl_rel hst
    fun path (_ : path ∈ t.refreshPaths host) r r' hr => hr.refreshPath h path
  refine ⟨⟨h.valid, h.length, h.baseline, h.current, hagree.rendered⟩, ?_⟩
  -- neither the paths nor their diffs depend on what refreshing writes
  exact congrArg (fun aggregated : Text => if aggregated = [] then none else some aggregated) hagree.aggregated.symm

end

section
variable (host : DiffHost P) (displayRoots : List (Text × P)) (F₀ : Files P) {environmentId : Text}
  {t : TurnDiffTracker P} {F : Files P}

def changesOf (deltas : List (Text × AppliedPatchDelta P)) : List (Text × AppliedPatchChange P) :=
  deltas.flatMap fun (environmentId, delta) => delta.changes.map fun c => (environmentId, c)

def replay (F : Files P) (changes : List (Text × AppliedPatchChange P)) : Files P :=
  changes.foldl (fun F x => replayChange x.1 F x.2) F

def ValidChanges (F : Files P) (changes : List (Text × AppliedPatchChange P)) : Prop :=
  Run.AllSteps (fun F x => ValidChange x.1 F x.2) (fun F x => replayChange x.1 F x.2) F changes

instance (F : Files P) (changes : List (Text × AppliedPatchChange P)) : Decidable (ValidChanges F changes) :=
  Run.AllSteps.decidable _ _ _

def track (deltas : List (Text × AppliedPatchDelta P)) : TurnDiffTracker P :=
  deltas.foldl (fun t (environmentId, delta) => t.trackDelta host environmentId delta)
    (withEnvironmentDisplayRoots displayRoots)

/-- What holds of the tracker when the files are `F`, before and after the diff is refreshed. -/
structure Records (F : Files P) (t : TurnDiffTracker P) : Prop where
  tracks : Tracks F₀ F t.baseline t.current
  logged : ∃ log, Logged host log t

structure Reports (F : Files P) (t : TurnDiffTracker P) : Prop extends Records host F₀ F t where
  fresh : t.unifiedDiff = (({ t with renderedDiffs := ∅ } : TurnDiffTracker P).refreshUnifiedDiff host).unifiedDiff

variable {host F₀}

theorem withEnvironmentDisplayRoots_reports : Reports host F₀ F₀ (withEnvironmentDisplayRoots displayRoots) where
  tracks := ⟨fun path hp => by rcases hp with hp | hp <;> exact absurd rfl hp, fun _ _ _ => rfl⟩
  logged := by
    refine ⟨[], rfl, rfl, ?_, ?_, ?_⟩
    · intro path c hc
      cases hc
    · intro path c hc
      cases hc
    · intro key rendered hkey
      cases hkey
  fresh := by
    have hkeys : ∀ m, host.hashOrder m [] = [] := fun m => (host.hashOrder_perm m []).eq_nil
    have hpaths : ({ withEnvironmentDisplayRoots displayRoots with renderedDiffs := ∅ } :
        TurnDiffTracker P).refreshPaths host = [] := by
      simp [refreshPaths, withEnvironmentDisplayRoots, hkeys]
    simp only [refreshUnifiedDiff, hpaths]
    rfl

theorem Records.applyChanges (changes : List (AppliedPatchChange P)) (h : Records host F₀ F t)
    (hval : ValidChanges F (changes.map fun c => (environmentId, c))) :
    Records host F₀ (replay F (changes.map fun c => (environmentId, c)))
      (changes.foldl (applyChange environmentId) t) := by
  induction changes generalizing F t with
  | nil => exact h
  | cons c changes ih =>
    obtain ⟨log, hlog⟩ := h.logged
    exact ih ⟨applyChange_tracks h.tracks hval.1, hlog.applyChange environmentId c⟩ hval.2

theorem Reports.trackDelta (h : Reports host F₀ F t) {delta : AppliedPatchDelta P} (hex : delta.exact = true)
    (hval : ValidChanges F (delta.changes.map fun c => (environmentId, c))) :
    Reports host F₀ (replay F (delta.changes.map fun c => (environmentId, c)))
      (t.trackDelta host environmentId delta) := by
  obtain ⟨log, hlog⟩ := h.logged
  obtain ⟨htr, log', hlog'⟩ := h.toRecords.applyChanges delta.changes hval
  obtain ⟨hrefreshed, hfresh⟩ := hlog'.refreshUnifiedDiff
  simp only [TurnDiffTracker.trackDelta, hlog.valid, hex, Bool.not_true, Bool.false_eq_true, if_false]
  exact ⟨⟨htr, log', hrefreshed⟩, hfresh⟩

theorem track_reports_all (ds : List (Text × AppliedPatchDelta P)) (hex : ∀ d ∈ ds, d.2.exact = true)
    (hval : ValidChanges F₀ (changesOf ds)) :
    Reports host F₀ (replay F₀ (changesOf ds)) (track host displayRoots ds) := by
  induction ds using reverseRecOn with
  | nil => exact withEnvironmentDisplayRoots_reports displayRoots
  | append_singleton ds d ih =>
    obtain ⟨environmentId, delta⟩ := d
    have hchs : changesOf (ds ++ [(environmentId, delta)]) =
        changesOf ds ++ delta.changes.map fun c => (environmentId, c) := by
      simp [changesOf]
    rw [hchs] at hval ⊢
    obtain ⟨hpre, hdel⟩ := (Run.allSteps_append _ _ _).mp hval
    have hreports := (ih (fun d hd => hex d (mem_append_left _ hd)) hpre).trackDelta
      (hex (environmentId, delta) (mem_append_right _ mem_cons_self)) hdel
    rw [replay, foldl_append, track, foldl_append]
    exact hreports

/-- The tracker reports the net change of the turn: a path it has an entry for is recorded with what it held
at first and holds now, any other path is unchanged, and the diff is the one rendered from scratch. -/
theorem track_reports (deltas done : List (Text × AppliedPatchDelta P)) (hdone : done <+: deltas)
    (hexact : ∀ d ∈ deltas, d.2.exact = true) (hvalid : ValidChanges F₀ (changesOf deltas)) :
    let t := track host displayRoots done
    let F := replay F₀ (changesOf done)
    (∀ path, path ∈ t.baselineByPath ∨ path ∈ t.currentByPath →
      (t.baselineByPath.lookup path).map TrackedContent.content = F₀ path ∧
        (t.currentByPath.lookup path).map TrackedContent.content = F path) ∧
    (∀ path, path ∉ t.baselineByPath → path ∉ t.currentByPath → F path = F₀ path) ∧
    t.unifiedDiff = (({ t with renderedDiffs := ∅ } : TurnDiffTracker P).refreshUnifiedDiff host).unifiedDiff := by
  obtain ⟨rest, rfl⟩ := hdone
  have hvalid' : ValidChanges F₀ (changesOf done) := by
    rw [changesOf, flatMap_append] at hvalid
    exact ((Run.allSteps_append _ _ _).mp hvalid).1
  intro t F
  have h : Reports host F₀ F t :=
    track_reports_all displayRoots done (fun d hd => hexact d (mem_append_left _ hd)) hvalid'
  refine ⟨fun path hpath => h.tracks.known path ?_, fun path hbase hnow => h.tracks.other path ?_ ?_, h.fresh⟩
  · rcases hpath with hpath | hpath
    · exact .inl fun hnone => (not_mem_baselineByPath t path).mpr hnone hpath
    · exact .inr fun hnone => (not_mem_currentByPath t path).mpr hnone hpath
  · exact (not_mem_baselineByPath t path).mp hbase
  · exact (not_mem_currentByPath t path).mp hnow

end

def plainHost : DiffHost Text where
  stripPrefix path root := Text.stripPrefix root path
  display path := path
  gitBlobOid content := content
  unifiedDiff old new oldHeader newHeader :=
    "--- ".toList ++ oldHeader ++ "\n+++ ".toList ++ newHeader ++ "\n".toList ++ old ++ new
  hashOrder _ keys := keys
  hashOrder_perm _ keys := .refl keys

def moveTwice : List (Text × AppliedPatchDelta Text) :=
  [([], { changes := [⟨['a'], .update (some ['b']) ['1'] none ['2']⟩, ⟨['a'], .add ['3'] none⟩] }),
    ([], { changes := [⟨['a'], .update (some ['c']) ['3'] none ['4']⟩] }),
    ([], { changes := [⟨['c'], .update none ['4'] none ['5']⟩] })]

def onlyA : Files Text := fun path => if path = ⟨[], ['a']⟩ then some ['1'] else none

theorem track_reports_moveTwice : let t := track plainHost [([], ['/'])] moveTwice
    (∀ d ∈ moveTwice, d.2.exact = true) ∧ ValidChanges onlyA (changesOf moveTwice) ∧
    (t.baselineByPath.lookup ⟨[], ['a']⟩).map TrackedContent.content = some ['1'] ∧
    (t.currentByPath.lookup ⟨[], ['a']⟩).map TrackedContent.content = none ∧
    (t.currentByPath.lookup ⟨[], ['c']⟩).map TrackedContent.content = some ['5'] ∧
    t.unifiedDiff =
      (({ t with renderedDiffs := ∅ } : TurnDiffTracker Text).refreshUnifiedDiff plainHost).unifiedDiff := by
  have hexact : ∀ d ∈ moveTwice, d.2.exact = true := by decide
  have hvalid : ValidChanges onlyA (changesOf moveTwice) := by decide +kernel
  obtain ⟨htracked, -, hdiff⟩ :=
    @track_reports _ _ plainHost [([], ['/'])] _ moveTwice moveTwice (prefix_refl _) hexact hvalid
  obtain ⟨hbase, hgone⟩ := htracked ⟨[], ['a']⟩ (.inl (by decide +kernel))
  exact ⟨hexact, hvalid, hbase, hgone.trans (by decide +kernel),
    (htracked ⟨[], ['c']⟩ (.inr (by decide +kernel))).2.trans (by decide +kernel), hdiff⟩

end TurnDiffTracker
