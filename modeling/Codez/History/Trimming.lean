import Codez.History.Normalize

/-!
Trimming the oldest item of the history (`remove_first_item`, with `remove_corresponding_for` of
`context_manager/normalize.rs`).

With a call its output goes, and with an output its call, so that a history whose calls and outputs
are paired stays one (`removeFirstItem_callsPaired`).
-/

namespace ContextManager

open Codex List

def removeFirstMatching (items : List ResponseItem) (predicate : ResponseItem → Bool) : List ResponseItem :=
  items.eraseP predicate

def isFunctionCall (callId : String) : ResponseItem → Bool
  | .functionCall c => c.callId == callId
  | _ => false

def isLocalShellCall (callId : String) : ResponseItem → Bool
  | .localShellCall (some existing) => existing == callId
  | _ => false

def isFunctionCallOutput (callId : String) : ResponseItem → Bool
  | .functionCallOutput o => o.callId == callId
  | _ => false

def isToolSearchCall (callId : String) : ResponseItem → Bool
  | .toolSearchCall (some existing) _ _ => existing == callId
  | _ => false

def isToolSearchOutput (callId : String) : ResponseItem → Bool
  | .toolSearchOutput (some existing) _ _ _ => existing == callId
  | _ => false

def isCustomToolCall (callId : String) : ResponseItem → Bool
  | .customToolCall c => c.callId == callId
  | _ => false

def isCustomToolCallOutput (callId : String) : ResponseItem → Bool
  | .customToolCallOutput o => o.callId == callId
  | _ => false

def removeCorrespondingFor (items : List ResponseItem) : ResponseItem → List ResponseItem
  | .functionCall c => removeFirstMatching items (isFunctionCallOutput c.callId)
  | .functionCallOutput o =>
    if items.any (isFunctionCall o.callId) then removeFirstMatching items (isFunctionCall o.callId)
    else removeFirstMatching items (isLocalShellCall o.callId)
  | .toolSearchCall (some callId) _ _ => removeFirstMatching items (isToolSearchOutput callId)
  | .toolSearchOutput (some callId) _ _ _ => removeFirstMatching items (isToolSearchCall callId)
  | .customToolCall c => removeFirstMatching items (isCustomToolCallOutput c.callId)
  | .customToolCallOutput o => removeFirstMatching items (isCustomToolCall o.callId)
  | .localShellCall (some callId) => removeFirstMatching items (isFunctionCallOutput callId)
  | _ => items

def removeFirstItem : List ResponseItem → List ResponseItem
  | [] => []
  | removed :: items => removeCorrespondingFor items removed

/-- The ids of calls are distinct per kind of output, and the outputs are theirs, one for each. -/
structure CallsPaired (items : List ResponseItem) : Prop where
  nodup : (items.filterMap callKey).Nodup
  perm : (items.filterMap outputKey).Perm (items.filterMap callKey)

def Partners (x y : ResponseItem) : Prop :=
  ∃ k, callKey x = some k ∧ outputKey y = some k ∨ outputKey x = some k ∧ callKey y = some k

variable {items : List ResponseItem} {x y : ResponseItem} {k : OutputKind × String} (id : String)

theorem isFunctionCallOutput_iff :
    isFunctionCallOutput id y = true ↔ outputKey y = some (.function, id) := by
  rcases y with _ | _ | _ | _ | _ | _ | _ | _ | _ | ⟨_ | _⟩ <;> simp [isFunctionCallOutput, outputKey]

theorem isToolSearchOutput_iff :
    isToolSearchOutput id y = true ↔ outputKey y = some (.toolSearch, id) := by
  rcases y with _ | _ | _ | _ | _ | _ | _ | _ | _ | ⟨_ | _⟩ <;> simp [isToolSearchOutput, outputKey]

theorem isCustomToolCallOutput_iff :
    isCustomToolCallOutput id y = true ↔ outputKey y = some (.customTool, id) := by
  rcases y with _ | _ | _ | _ | _ | _ | _ | _ | _ | ⟨_ | _⟩ <;> simp [isCustomToolCallOutput, outputKey]

theorem isToolSearchCall_iff :
    isToolSearchCall id y = true ↔ callKey y = some (.toolSearch, id) := by
  rcases y with _ | _ | _ | ⟨_ | _⟩ | _ | ⟨_ | _⟩ <;> simp [isToolSearchCall, callKey]

theorem isCustomToolCall_iff :
    isCustomToolCall id y = true ↔ callKey y = some (.customTool, id) := by
  rcases y with _ | _ | _ | ⟨_ | _⟩ | _ | ⟨_ | _⟩ <;> simp [isCustomToolCall, callKey]

theorem isFunctionCall_or_isLocalShellCall :
    isFunctionCall id y = true ∨ isLocalShellCall id y = true ↔ callKey y = some (.function, id) := by
  rcases y with _ | _ | _ | ⟨_ | _⟩ | _ | ⟨_ | _⟩ <;> simp [isFunctionCall, isLocalShellCall, callKey]

def WithoutPartner (x : ResponseItem) (items items' : List ResponseItem) : Prop :=
  ∃ y l l', items = l ++ y :: l' ∧ items' = l ++ l' ∧ Partners x y

theorem withoutPartner_removeFirstMatching {p : ResponseItem → Bool} (hp : ∀ y, p y = true → Partners x y)
    (h : ∃ y ∈ items, p y = true) : WithoutPartner x items (removeFirstMatching items p) := by
  obtain ⟨y, hy, hpy⟩ := h
  obtain ⟨z, l, l', -, hz, hi, herase⟩ := exists_of_eraseP hy hpy
  exact ⟨z, l, l', hi, herase, hp z hz⟩

theorem withoutPartner_of_call (hx : callKey x = some k) (h : ∃ y ∈ items, outputKey y = some k) :
    WithoutPartner x items (removeCorrespondingFor items x) := by
  have hpar : ∀ y, outputKey y = some k → Partners x y := fun y hy => ⟨k, .inl ⟨hx, hy⟩⟩
  unfold callKey at hx
  split at hx <;> cases hx <;> apply withoutPartner_removeFirstMatching <;>
    simpa only [isFunctionCallOutput_iff, isToolSearchOutput_iff, isCustomToolCallOutput_iff]

theorem withoutPartner_of_output (hx : outputKey x = some k) (h : ∃ y ∈ items, callKey y = some k) :
    WithoutPartner x items (removeCorrespondingFor items x) := by
  have hpar : ∀ y, callKey y = some k → Partners x y := fun y hy => ⟨k, .inr ⟨hx, hy⟩⟩
  unfold outputKey at hx
  split at hx
  · next o =>
    cases hx
    simp only [← isFunctionCall_or_isLocalShellCall] at hpar h
    rw [removeCorrespondingFor]
    split
    · next hany =>
      exact withoutPartner_removeFirstMatching (fun y hy => hpar y (.inl hy)) (any_eq_true.mp hany)
    · next hany =>
      obtain ⟨y, hy, hcall⟩ := h
      refine withoutPartner_removeFirstMatching (fun y hy => hpar y (.inr hy)) ⟨y, hy, hcall.resolve_left ?_⟩
      exact fun hfn => hany (any_eq_true.mpr ⟨y, hy, hfn⟩)
  · cases hx
    apply withoutPartner_removeFirstMatching <;> simpa only [isCustomToolCall_iff]
  · cases hx
    apply withoutPartner_removeFirstMatching <;> simpa only [isToolSearchCall_iff]
  · cases hx

theorem removeCorrespondingFor_other (hcall : callKey x = none) (hout : outputKey x = none) :
    removeCorrespondingFor items x = items := by
  rcases x with _ | _ | _ | ⟨_ | _⟩ | _ | ⟨_ | _⟩ | _ | _ | _ | ⟨_ | _⟩ <;>
    first | rfl | (cases hcall; done) | cases hout

theorem callKey_eq_none (h : outputKey x = some k) : callKey x = none := by
  by_contra hne
  obtain ⟨k', hk'⟩ := Option.ne_none_iff_exists'.mp hne
  have hnone : outputKey x = none := callKinds.answers_of_asks x k' hk'
  rw [hnone] at h
  cases h

theorem CallsPaired.of_withoutPartner {items' : List ResponseItem} (h : CallsPaired (x :: items))
    (hi : WithoutPartner x items items') : CallsPaired items' := by
  obtain ⟨hnd, hperm⟩ := h
  obtain ⟨y, l, l', rfl, rfl, k, ⟨hx, hy⟩ | ⟨hx, hy⟩⟩ := hi
  · have hx' : outputKey x = none := callKinds.answers_of_asks x k hx
    simp only [filterMap_cons, filterMap_append, hx, hx', hy, callKey_eq_none hy] at hnd hperm
    refine ⟨by rw [filterMap_append]; exact (nodup_cons.mp hnd).2, ?_⟩
    rw [filterMap_append, filterMap_append]
    exact (perm_middle.symm.trans hperm).cons_inv
  · have hy' : outputKey y = none := callKinds.answers_of_asks y k hy
    simp only [filterMap_cons, filterMap_append, hx, hy', hy, callKey_eq_none hx] at hnd hperm
    refine ⟨by rw [filterMap_append]; exact (nodup_cons.mp (perm_middle.nodup_iff.mp hnd)).2, ?_⟩
    rw [filterMap_append, filterMap_append]
    exact (hperm.trans perm_middle).cons_inv

theorem CallsPaired.removeFirstItem_cons (h : CallsPaired (x :: items)) :
    WithoutPartner x items (removeFirstItem (x :: items)) ∨
      removeFirstItem (x :: items) = items ∧ callKey x = none ∧ outputKey x = none := by
  cases hcall : callKey x with
  | some k =>
    have hmem : k ∈ (x :: items).filterMap outputKey :=
      h.perm.mem_iff.mpr (mem_filterMap.mpr ⟨x, mem_cons_self, hcall⟩)
    have hx : outputKey x = none := callKinds.answers_of_asks x k hcall
    rw [filterMap_cons_none hx] at hmem
    exact .inl (withoutPartner_of_call hcall (mem_filterMap.mp hmem))
  | none =>
    cases hout : outputKey x with
    | some k =>
      have hmem : k ∈ (x :: items).filterMap callKey :=
        h.perm.mem_iff.mp (mem_filterMap.mpr ⟨x, mem_cons_self, hout⟩)
      rw [filterMap_cons_none hcall] at hmem
      exact .inl (withoutPartner_of_output hout (mem_filterMap.mp hmem))
    | none => exact .inr ⟨removeCorrespondingFor_other hcall hout, rfl, rfl⟩

theorem CallsPaired.removeFirstItem (h : CallsPaired items) :
    CallsPaired (removeFirstItem items) ∧ ContextManager.removeFirstItem items <+ items ∧
      ∃ mates, items.Perm (items.head?.toList ++ mates ++ ContextManager.removeFirstItem items) ∧
        ∀ y ∈ mates, ∃ x ∈ items.head?, Partners x y := by
  cases items with
  | nil => exact ⟨h, Sublist.refl _, [], Perm.refl _, by simp⟩
  | cons x items =>
    rcases h.removeFirstItem_cons with hpar | ⟨heq, hcall, hout⟩
    · refine ⟨h.of_withoutPartner hpar, ?_⟩
      obtain ⟨y, l, l', rfl, hr, hxy⟩ := hpar
      rw [hr]
      exact ⟨((sublist_cons_self y l').append_left l).cons x, [y], perm_middle.cons x, by simpa using hxy⟩
    · rw [heq]
      refine ⟨⟨?_, ?_⟩, sublist_cons_self x items, [], Perm.refl _, by simp⟩
      · simpa only [filterMap_cons_none hcall] using h.nodup
      · simpa only [filterMap_cons_none hcall, filterMap_cons_none hout] using h.perm

/-- **Trimming keeps calls and outputs paired**: besides the items at the front only their partners go. -/
theorem removeFirstItem_callsPaired (h : CallsPaired items) (n : Nat) :
    let front := (range n).flatMap fun i => (removeFirstItem^[i] items).head?.toList
    CallsPaired (removeFirstItem^[n] items) ∧ removeFirstItem^[n] items <+ items ∧
      ∃ mates, items.Perm (front ++ mates ++ removeFirstItem^[n] items) ∧ ∀ y ∈ mates, ∃ x ∈ front, Partners x y := by
  induction n with
  | zero => exact ⟨h, Sublist.refl _, [], Perm.refl _, by simp⟩
  | succ n ih =>
    obtain ⟨hpaired, hsub, mates, hperm, hmates⟩ := ih
    obtain ⟨hpaired', hsub', mates', hperm', hmates'⟩ := hpaired.removeFirstItem
    simp only [Function.iterate_succ_apply', range_succ, flatMap_append, flatMap_singleton]
    refine ⟨hpaired', hsub'.trans hsub, mates ++ mates', ?_, ?_⟩
    · refine (hperm.trans (hperm'.append_left _)).trans (perm_iff_count.mpr fun a => ?_)
      simp only [count_append]
      omega
    · simp only [mem_append]
      rintro y (hy | hy)
      · obtain ⟨x, hx, hxy⟩ := hmates y hy
        exact ⟨x, .inl hx, hxy⟩
      · obtain ⟨x, hx, hxy⟩ := hmates' y hy
        exact ⟨x, .inr (Option.mem_toList.mpr hx), hxy⟩

def answeredShell : List ResponseItem :=
  [.functionCallOutput { callId := "a", output := aborted }, .message { role := "user", content := [] },
    .localShellCall (some "a"), .compactionTrigger]

theorem removeFirstItem_callsPaired_shell :
    CallsPaired (removeFirstItem^[1] answeredShell) ∧ (removeFirstItem^[1] answeredShell).length = 2 :=
  ⟨(removeFirstItem_callsPaired ⟨by decide, by decide⟩ 1).1, rfl⟩

theorem CallsPaired.forPrompt_eq_map (h : CallsPaired items) (inputModalities : List InputModality) :
    forPrompt inputModalities items = items.map (keepItem inputModalities) := by
  rw [forPrompt_eq, Pairing.Kinds.prune_complete_of_paired ⟨?_, ?_⟩]
  · intro x hx k hk
    exact mem_filterMap.mp (h.perm.mem_iff.mpr (mem_filterMap.mpr ⟨x, hx, hk⟩))
  · intro y hy k hk _
    exact mem_filterMap.mp (h.perm.mem_iff.mp (mem_filterMap.mpr ⟨y, hy, hk⟩))

/-- **Trimming shows the model nothing new**: no output is made up for a call that stays. -/
theorem forPrompt_removeFirstItem (h : CallsPaired items) (inputModalities : List InputModality) (n : Nat) :
    forPrompt inputModalities (removeFirstItem^[n] items) <+ forPrompt inputModalities items := by
  have htrim : CallsPaired (removeFirstItem^[n] items) ∧ removeFirstItem^[n] items <+ items := by
    induction n with
    | zero => exact ⟨h, Sublist.refl _⟩
    | succ n ih =>
      obtain ⟨hpaired, hsub, -⟩ := ih.1.removeFirstItem
      rw [Function.iterate_succ_apply']
      exact ⟨hpaired, hsub.trans ih.2⟩
  rw [htrim.1.forPrompt_eq_map, h.forPrompt_eq_map]
  exact htrim.2.map _

theorem forPrompt_removeFirstItem_shell :
    forPrompt [] (removeFirstItem^[1] answeredShell) <+ forPrompt [] answeredShell :=
  forPrompt_removeFirstItem ⟨by decide, by decide⟩ [] 1

end ContextManager
