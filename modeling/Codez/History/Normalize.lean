import Codez.Lib.Pairing
import Codez.Protocol

/-!
Preparing the history for a prompt (`context_manager/normalize.rs`): every call gets an
output, every output without a call goes, and images are replaced where the model does
not take them.
-/

namespace ContextManager

open Codex Pairing List

def functionOutputIds (items : List ResponseItem) : List String :=
  items.filterMap fun
    | .functionCallOutput o => some o.callId
    | _ => none

def toolSearchOutputIds (items : List ResponseItem) : List String :=
  items.filterMap fun
    | .toolSearchOutput callId _ _ _ => callId
    | _ => none

def customToolOutputIds (items : List ResponseItem) : List String :=
  items.filterMap fun
    | .customToolCallOutput o => some o.callId
    | _ => none

def aborted : FunctionCallOutputPayload := { body := .text "aborted" }

def missingOutput (items : List ResponseItem) (item : ResponseItem) : Option ResponseItem :=
  match item with
  | .functionCall c =>
    if c.callId ∈ functionOutputIds items then none
    else some (.functionCallOutput { callId := c.callId, output := aborted })
  | .toolSearchCall (some callId) _ _ =>
    if callId ∈ toolSearchOutputIds items then none
    else some (.toolSearchOutput (some callId) "completed" "client" [])
  | .customToolCall c =>
    if c.callId ∈ customToolOutputIds items then none
    else some (.customToolCallOutput { callId := c.callId, output := aborted })
  | .localShellCall (some callId) =>
    if callId ∈ functionOutputIds items then none
    else some (.functionCallOutput { callId := callId, output := aborted })
  | _ => none

def ensureCallOutputsPresent (items : List ResponseItem) : List ResponseItem :=
  (items.zipIdx.filterMap fun (item, idx) => (missingOutput items item).map fun output => (idx, output)).reverse.foldl
    (fun items (idx, output) => items.insertIdx (idx + 1) output) items

def functionCallIds (items : List ResponseItem) : List String :=
  items.filterMap fun
    | .functionCall c => some c.callId
    | _ => none

def toolSearchCallIds (items : List ResponseItem) : List String :=
  items.filterMap fun
    | .toolSearchCall callId _ _ => callId
    | _ => none

def localShellCallIds (items : List ResponseItem) : List String :=
  items.filterMap fun
    | .localShellCall callId => callId
    | _ => none

def customToolCallIds (items : List ResponseItem) : List String :=
  items.filterMap fun
    | .customToolCall c => some c.callId
    | _ => none

def removeOrphanOutputs (items : List ResponseItem) : List ResponseItem :=
  items.filter fun
    | .functionCallOutput o => decide (o.callId ∈ functionCallIds items) || decide (o.callId ∈ localShellCallIds items)
    | .customToolCallOutput o => decide (o.callId ∈ customToolCallIds items)
    | .toolSearchOutput callId _ execution _ =>
      if execution = "server" then true
      else
        match callId with
        | some callId => decide (callId ∈ toolSearchCallIds items)
        | none => true
    | _ => true

inductive InputModality where
  | text
  | image
deriving DecidableEq

def imageContentOmittedPlaceholder : String := "image content omitted because you do not support image input"

def stripContentItem : ContentItem → ContentItem
  | .inputImage _ => .inputText imageContentOmittedPlaceholder
  | content => content

def stripOutputItem : FunctionCallOutputContentItem → FunctionCallOutputContentItem
  | .inputImage _ => .inputText imageContentOmittedPlaceholder
  | content => content

def stripOutput (output : FunctionCallOutputPayload) : FunctionCallOutputPayload :=
  match output.body with
  | .text _ => output
  | .contentItems items => { output with body := .contentItems (items.map stripOutputItem) }

def stripItem : ResponseItem → ResponseItem
  | .message m => .message { m with content := m.content.map stripContentItem }
  | .functionCallOutput o => .functionCallOutput { o with output := stripOutput o.output }
  | .customToolCallOutput o => .customToolCallOutput { o with output := stripOutput o.output }
  | .imageGenerationCall id status revisedPrompt _ => .imageGenerationCall id status revisedPrompt ""
  | item => item

def stripImagesWhenUnsupported (inputModalities : List InputModality) (items : List ResponseItem) :
    List ResponseItem :=
  if .image ∈ inputModalities then items else items.map stripItem

def forPrompt (inputModalities : List InputModality) (items : List ResponseItem) : List ResponseItem :=
  stripImagesWhenUnsupported inputModalities (removeOrphanOutputs (ensureCallOutputsPresent items))

/-! ## Calls and outputs by key -/

inductive OutputKind where
  | function
  | customTool
  | toolSearch
deriving DecidableEq

def callKey : ResponseItem → Option (OutputKind × String)
  | .functionCall c => some (.function, c.callId)
  | .localShellCall (some callId) => some (.function, callId)
  | .customToolCall c => some (.customTool, c.callId)
  | .toolSearchCall (some callId) _ _ => some (.toolSearch, callId)
  | _ => none

def outputKey : ResponseItem → Option (OutputKind × String)
  | .functionCallOutput o => some (.function, o.callId)
  | .customToolCallOutput o => some (.customTool, o.callId)
  | .toolSearchOutput (some callId) _ _ _ => some (.toolSearch, callId)
  | _ => none

def serverExecuted : ResponseItem → Bool
  | .toolSearchOutput _ _ execution _ => execution == "server"
  | _ => false

def abortedOutput : OutputKind × String → ResponseItem
  | (.function, callId) => .functionCallOutput { callId, output := aborted }
  | (.customTool, callId) => .customToolCallOutput { callId, output := aborted }
  | (.toolSearch, callId) => .toolSearchOutput (some callId) "completed" "client" []

def callKinds : Kinds ResponseItem (OutputKind × String) where
  asks := callKey
  answers := outputKey
  exempt := serverExecuted
  answer := abortedOutput
  answers_answer := by rintro ⟨_ | _ | _, callId⟩ <;> rfl
  asks_answer := by rintro ⟨_ | _ | _, callId⟩ <;> rfl
  answers_of_asks := by
    intro item k h
    unfold callKey at h
    split at h <;> first | rfl | cases h

section
variable (items : List ResponseItem) (id : String)

theorem mem_filterMap_iff_key {ids : ResponseItem → Option String} {key : ResponseItem → Option (OutputKind × String)}
    {kind : OutputKind} (h : ∀ item, ids item = some id ↔ key item = some (kind, id)) :
    id ∈ items.filterMap ids ↔ ∃ item ∈ items, key item = some (kind, id) := by
  rw [mem_filterMap]
  exact exists_congr fun item => and_congr_right fun _ => h item

theorem mem_functionOutputIds :
    id ∈ functionOutputIds items ↔ ∃ item ∈ items, outputKey item = some (.function, id) := by
  apply mem_filterMap_iff_key
  rintro (_ | _ | _ | _ | _ | _ | _ | _ | _ | ⟨_ | _⟩) <;> simp [outputKey]

theorem mem_customToolOutputIds :
    id ∈ customToolOutputIds items ↔ ∃ item ∈ items, outputKey item = some (.customTool, id) := by
  apply mem_filterMap_iff_key
  rintro (_ | _ | _ | _ | _ | _ | _ | _ | _ | ⟨_ | _⟩) <;> simp [outputKey]

theorem mem_toolSearchOutputIds :
    id ∈ toolSearchOutputIds items ↔ ∃ item ∈ items, outputKey item = some (.toolSearch, id) := by
  apply mem_filterMap_iff_key
  rintro (_ | _ | _ | _ | _ | _ | _ | _ | _ | ⟨_ | _⟩) <;> simp [outputKey]

theorem mem_functionCallIds_or : (id ∈ functionCallIds items ∨ id ∈ localShellCallIds items) ↔
      ∃ item ∈ items, callKey item = some (.function, id) := by
  rw [functionCallIds, localShellCallIds, mem_filterMap, mem_filterMap, ← exists_or]
  refine exists_congr fun item => ?_
  rw [← and_or_left]
  refine and_congr_right fun _ => ?_
  rcases item with _ | _ | _ | ⟨_ | _⟩ | _ | ⟨_ | _⟩ <;> simp [callKey]

theorem mem_customToolCallIds :
    id ∈ customToolCallIds items ↔ ∃ item ∈ items, callKey item = some (.customTool, id) := by
  apply mem_filterMap_iff_key
  rintro (_ | _ | _ | ⟨_ | _⟩ | _ | ⟨_ | _⟩) <;> simp [callKey]

theorem mem_toolSearchCallIds :
    id ∈ toolSearchCallIds items ↔ ∃ item ∈ items, callKey item = some (.toolSearch, id) := by
  apply mem_filterMap_iff_key
  rintro (_ | _ | _ | ⟨_ | _⟩ | _ | ⟨_ | _⟩) <;> simp [callKey]

end

open Kinds

theorem missingOutput_eq (items : List ResponseItem) (item : ResponseItem) :
    missingOutput items item = callKinds.missing items item := by
  have hmiss : ∀ k, callKey item = some k → callKinds.missing items item =
      if ∃ y ∈ items, outputKey y = some k then none else some (abortedOutput k) :=
    fun k hk => @missing_of_asks _ _ _ callKinds items item k hk _
  unfold missingOutput
  simp only [mem_functionOutputIds, mem_customToolOutputIds, mem_toolSearchOutputIds]
  split
  · next c => exact (hmiss _ rfl).symm
  · next cid _ _ => exact (hmiss _ rfl).symm
  · next c => exact (hmiss _ rfl).symm
  · next cid => exact (hmiss _ rfl).symm
  · next hfn hsearch hcustom hshell =>
    have hnone : callKey item = none := by
      unfold callKey
      split
      · exact absurd rfl (hfn _)
      · exact absurd rfl (hshell _)
      · exact absurd rfl (hcustom _)
      · exact absurd rfl (hsearch _ _ _)
      · rfl
    simp [missing, callKinds, hnone]

theorem ensureCallOutputsPresent_eq (items : List ResponseItem) :
    ensureCallOutputsPresent items = callKinds.complete items := by
  rw [ensureCallOutputsPresent, foldl_insertIdx, complete]
  simp only [missingOutput_eq]

theorem removeOrphanOutputs_eq (items : List ResponseItem) :
    removeOrphanOutputs items = callKinds.prune items := by
  refine filter_congr fun item hit => ?_
  clear hit
  have horphan : ∀ k, outputKey item = some k → (!callKinds.orphan items item) =
      (serverExecuted item || decide (∃ y ∈ items, callKey y = some k)) :=
    fun k hk => @orphan_of_answers _ _ _ callKinds items item k hk _
  have hkept : outputKey item = none → (!callKinds.orphan items item) = true := by
    intro hnone
    simp [orphan, callKinds, hnone]
  split
  · next o =>
    rw [horphan _ rfl]
    simp [serverExecuted, ← mem_functionCallIds_or]
  · next o =>
    rw [horphan _ rfl]
    simp [serverExecuted, ← mem_customToolCallIds]
  · next cid status execution tools =>
    cases cid with
    | none =>
      rw [hkept rfl]
      simp
    | some cid =>
      rw [horphan _ rfl]
      simp only [serverExecuted, ← mem_toolSearchCallIds]
      split
      · next hsrv => simp [hsrv]
      · next hsrv => simp [hsrv]
  · next hfn hcustom hsearch =>
    refine (hkept ?_).symm
    unfold outputKey
    split
    · exact absurd rfl (hfn _)
    · exact absurd rfl (hcustom _)
    · exact absurd rfl (hsearch _ _ _ _)
    · rfl

/-! ## Only images change -/

inductive SameButImages : ResponseItem → ResponseItem → Prop where
  | refl (item : ResponseItem) : SameButImages item item
  | message (m : Message) (content : List ContentItem)
      (h : List.Forall₂ (fun c c' => c' = c ∨ ∃ url, c = .inputImage url) m.content content) :
      SameButImages (.message m) (.message { m with content })
  | functionCallOutput (o : FunctionCallOutput) (items items' : List FunctionCallOutputContentItem)
      (hbody : o.output.body = .contentItems items)
      (h : List.Forall₂ (fun c c' => c' = c ∨ ∃ url, c = .inputImage url) items items') :
      SameButImages (.functionCallOutput o)
        (.functionCallOutput { o with output := { o.output with body := .contentItems items' } })
  | customToolCallOutput (o : CustomToolCallOutput) (items items' : List FunctionCallOutputContentItem)
      (hbody : o.output.body = .contentItems items)
      (h : List.Forall₂ (fun c c' => c' = c ∨ ∃ url, c = .inputImage url) items items') :
      SameButImages (.customToolCallOutput o)
        (.customToolCallOutput { o with output := { o.output with body := .contentItems items' } })
  | imageGenerationCall (id : Option String) (status : String)
    (revisedPrompt : Option String) (result result' : String) :
      SameButImages (.imageGenerationCall id status revisedPrompt result)
        (.imageGenerationCall id status revisedPrompt result')

theorem stripContentItem_cases (c : ContentItem) : stripContentItem c = c ∨ ∃ url, c = .inputImage url := by
  cases c with
  | inputText text | outputText text => exact .inl rfl
  | inputImage url => exact .inr ⟨url, rfl⟩

theorem stripOutputItem_cases (c : FunctionCallOutputContentItem) :
    stripOutputItem c = c ∨ ∃ url, c = .inputImage url := by
  cases c with
  | inputText text | encryptedContent text => exact .inl rfl
  | inputImage url => exact .inr ⟨url, rfl⟩

variable (output : FunctionCallOutputPayload) (inputModalities : List InputModality)

theorem stripOutput_cases : stripOutput output = output ∨ ∃ items, output.body = .contentItems items ∧
      stripOutput output = { output with body := .contentItems (items.map stripOutputItem) } := by
  unfold stripOutput
  split
  · exact .inl rfl
  · next items hbody => exact .inr ⟨items, hbody, rfl⟩

theorem sameButImages_stripItem (item : ResponseItem) : SameButImages item (stripItem item) := by
  unfold stripItem
  split
  · next m => exact .message m _ (forall₂_map_right_iff.mpr (forall₂_same.mpr fun c _ => stripContentItem_cases c))
  · next o =>
    rcases stripOutput_cases o.output with heq | ⟨items, hbody, heq⟩
    · rw [heq]
      exact .refl _
    · rw [heq]
      exact .functionCallOutput o items _ hbody (forall₂_map_right_iff.mpr <| forall₂_same.mpr fun c _ =>
        stripOutputItem_cases c)
  · next o =>
    rcases stripOutput_cases o.output with heq | ⟨items, hbody, heq⟩
    · rw [heq]
      exact .refl _
    · rw [heq]
      exact .customToolCallOutput o items _ hbody (forall₂_map_right_iff.mpr <| forall₂_same.mpr fun c _ =>
        stripOutputItem_cases c)
  · exact .imageGenerationCall _ _ _ _ _
  · exact .refl _

theorem stripOutput_stripOutput : stripOutput (stripOutput output) = stripOutput output := by
  have hit : ∀ c, stripOutputItem (stripOutputItem c) = stripOutputItem c := by
    intro c
    cases c <;> rfl
  rcases stripOutput_cases output with heq | ⟨items, -, heq⟩
  · rw [heq, heq]
  · rw [heq]
    simp [stripOutput, hit]

theorem stripItem_stripItem (item : ResponseItem) : stripItem (stripItem item) = stripItem item := by
  have hcontent : ∀ c, stripContentItem (stripContentItem c) = stripContentItem c := by
    intro c
    cases c <;> rfl
  cases item <;> simp [stripItem, hcontent, stripOutput_stripOutput]

theorem keys_stripItem (item : ResponseItem) :
    callKey (stripItem item) = callKey item ∧ outputKey (stripItem item) = outputKey item ∧
      serverExecuted (stripItem item) = serverExecuted item := by
  cases item <;> exact ⟨rfl, rfl, rfl⟩

def keepItem (inputModalities : List InputModality) (item : ResponseItem) : ResponseItem :=
  if .image ∈ inputModalities then item else stripItem item

theorem stripImagesWhenUnsupported_eq (items : List ResponseItem) :
    stripImagesWhenUnsupported inputModalities items = items.map (keepItem inputModalities) := by
  unfold stripImagesWhenUnsupported
  split
  · next h =>
    have hid : keepItem inputModalities = id := funext fun item => if_pos h
    rw [hid, map_id]
  · next h =>
    have hstrip : keepItem inputModalities = stripItem := funext fun item => if_neg h
    rw [hstrip]

section
variable (inputModalities : List InputModality) (item : ResponseItem)

theorem sameButImages_keepItem : SameButImages item (keepItem inputModalities item) := by
  unfold keepItem
  split
  · exact .refl item
  · exact sameButImages_stripItem item

theorem keepItem_keepItem :
    keepItem inputModalities (keepItem inputModalities item) = keepItem inputModalities item := by
  unfold keepItem
  split
  · rfl
  · exact stripItem_stripItem item

theorem keys_keepItem :
    callKey (keepItem inputModalities item) = callKey item ∧
      outputKey (keepItem inputModalities item) = outputKey item ∧
      serverExecuted (keepItem inputModalities item) = serverExecuted item := by
  unfold keepItem
  split
  · exact ⟨rfl, rfl, rfl⟩
  · exact keys_stripItem item

theorem keepItem_abortedOutput (k : OutputKind × String) :
    keepItem inputModalities (abortedOutput k) = abortedOutput k := by
  unfold keepItem
  split
  · rfl
  · rcases k with ⟨_ | _ | _, cid⟩ <;> rfl

end

theorem forPrompt_eq (items : List ResponseItem) :
    forPrompt inputModalities items =
      (callKinds.prune (callKinds.complete items)).map (keepItem inputModalities) := by
  rw [forPrompt, stripImagesWhenUnsupported_eq, removeOrphanOutputs_eq, ensureCallOutputsPresent_eq]

theorem forPrompt_eq_flatMap (items : List ResponseItem) :
    forPrompt inputModalities items = items.flatMap fun item =>
      if callKinds.orphan items item then []
      else keepItem inputModalities item :: (callKinds.missing items item).toList := by
  rw [forPrompt_eq, prune_complete_eq, map_flatMap]
  refine flatMap_congr fun item _ => ?_
  split
  · rfl
  · cases hmiss : callKinds.missing items item with
    | none => rfl
    | some output =>
      obtain ⟨k, -, -, rfl⟩ := missing_eq_some.mp hmiss
      have hkeep : keepItem inputModalities (callKinds.answer k) = callKinds.answer k :=
        keepItem_abortedOutput inputModalities k
      simp [hkeep]

theorem paired_forPrompt (items : List ResponseItem) :
    callKinds.Paired (forPrompt inputModalities items) := by
  rw [forPrompt_eq]
  exact paired_prune_complete.map (fun item => (keys_keepItem inputModalities item).1)
    (fun item => (keys_keepItem inputModalities item).2.1) fun item => (keys_keepItem inputModalities item).2.2

/-- The history for a prompt is paired.  It is the recorded one, item by item: an output without a
call is dropped, a call without an output gets one right behind it, and what stays is the same
up to images the model does not take.  Preparing it again changes nothing. -/
theorem forPrompt_wellPaired (inputModalities : List InputModality) (items : List ResponseItem) :
    callKinds.Paired (forPrompt inputModalities items) ∧
    (∃ keep : ResponseItem → ResponseItem,
      (∀ item, SameButImages item (keep item)) ∧ (.image ∈ inputModalities → ∀ item, keep item = item) ∧
      forPrompt inputModalities items = items.flatMap fun item =>
        if callKinds.orphan items item then [] else keep item :: (callKinds.missing items item).toList) ∧
    forPrompt inputModalities (forPrompt inputModalities items) = forPrompt inputModalities items := by
  refine ⟨paired_forPrompt inputModalities items, ⟨keepItem inputModalities,
    sameButImages_keepItem inputModalities, fun h item => if_pos h, forPrompt_eq_flatMap inputModalities items⟩, ?_⟩
  rw [forPrompt_eq inputModalities (forPrompt inputModalities items),
    Kinds.prune_complete_of_paired (paired_forPrompt inputModalities items), forPrompt_eq, map_map]
  exact map_congr_left fun item _ => keepItem_keepItem inputModalities item

end ContextManager
