import Codez.Lib.Text
import Codez.Rollout

/-!
The model's history and its instruction turns (`context_manager/history.rs`).

An instruction turn begins at a message of the user that is not contextual, or at one of another
agent.
-/

open Codex

/-- What the history takes from elsewhere: the reading of hook prompts (XML), of other contextual
fragments and of messages between agents (JSON), the truncation of an output under the
model's policy, the history that a compaction without one stands for, and of UUIDs. -/
structure ReplayHost where
  parseHookPromptFragment : String → Option HookPromptFragment
  isStandardContextualUserText : String → Bool
  isInterAgentText : String → Bool
  truncateFunctionOutputPayload : FunctionCallOutputPayload → FunctionCallOutputPayload
  buildCompactedHistory : List ResponseItem → String → List ResponseItem
  parseUuidV7 : String → Option String

structure ContextManager where
  items : List ResponseItem := []
  historyVersion : Nat := 0
  referenceContextItem : Option TurnContextItem := none

namespace ContextManager

open List

/-! ## Messages -/

def contextualDeveloperPrefixes : List String :=
  ["<permissions instructions>", "<model_switch>", "<collaboration_mode>", "<multi_agent_mode>",
    "<realtime_conversation>", "<skills_instructions>", "<personality_spec>", "<token_budget>", "<rollout_budget>"]

def isContextualDevFragment : ContentItem → Bool
  | .inputText text =>
    let trimmed := Text.trimStart text.toList
    contextualDeveloperPrefixes.any fun p =>
      (trimmed.take p.toList.length).map Char.toLower = p.toList.map Char.toLower
  | _ => false

def isContextualDevMessageContent (content : List ContentItem) : Bool := content.any isContextualDevFragment

def hasNonContextualDevMessageContent (content : List ContentItem) : Bool :=
  content.any fun c => !isContextualDevFragment c

section
variable (host : ReplayHost)

def isContextualUserFragment : ContentItem → Bool
  | .inputText text => (host.parseHookPromptFragment text).isSome || host.isStandardContextualUserText text
  | _ => false

def isContextualUserMessageContent (content : List ContentItem) : Bool := content.any (isContextualUserFragment host)

def isInterAgentInstructionContent : List ContentItem → Bool
  | [.inputText text] => host.isInterAgentText text
  | [.outputText text] => host.isInterAgentText text
  | _ => false

def isUserTurnBoundary : ResponseItem → Bool
  | .agentMessage _ => true
  | .message m =>
    (m.role == "user" && !isContextualUserMessageContent host m.content) ||
      (m.role == "assistant" && isInterAgentInstructionContent host m.content)
  | _ => false

def isContextual : ResponseItem → Bool
  | .message m =>
    (m.role == "developer" && isContextualDevMessageContent m.content) ||
      (m.role == "user" && isContextualUserMessageContent host m.content)
  | _ => false

def isApiMessage : ResponseItem → Bool
  | .message m => m.role != "system"
  | .compactionTrigger => false
  | .other => false
  | _ => true

def processItem : ResponseItem → ResponseItem
  | .functionCallOutput o => .functionCallOutput { o with output := host.truncateFunctionOutputPayload o.output }
  | .customToolCallOutput o => .customToolCallOutput { o with output := host.truncateFunctionOutputPayload o.output }
  | item => item

def recordItem (h : ContextManager) (item : ResponseItem) : ContextManager :=
  if isApiMessage item then { h with items := h.items ++ [processItem host item] } else h

def replace (h : ContextManager) (items : List ResponseItem) : ContextManager :=
  { h with items, historyVersion := h.historyVersion + 1 }

def userMessagePositions (items : List ResponseItem) : List Nat :=
  items.zipIdx.filterMap fun (item, idx) => if isUserTurnBoundary host item then some idx else none

/-- The cut is moved back over contextual messages, not before the first instruction turn.  Trimming
a developer message that also has other text clears the reference. -/
def trimPreTurnContextUpdates (snapshot : List ResponseItem) (firstInstructionTurnIdx : Nat) :
    Nat → Option TurnContextItem → Nat × Option TurnContextItem
  | 0, reference => (0, reference)
  | cutIdx + 1, reference =>
    if firstInstructionTurnIdx < cutIdx + 1 then
      match snapshot[cutIdx]? with
      | some (.message m) =>
        if m.role = "developer" ∧ isContextualDevMessageContent m.content then
          trimPreTurnContextUpdates snapshot firstInstructionTurnIdx cutIdx
            (if hasNonContextualDevMessageContent m.content then none else reference)
        else if m.role = "user" ∧ isContextualUserMessageContent host m.content then
          trimPreTurnContextUpdates snapshot firstInstructionTurnIdx cutIdx reference
        else (cutIdx + 1, reference)
      | _ => (cutIdx + 1, reference)
    else (cutIdx + 1, reference)

def dropLastNUserTurns (h : ContextManager) (numTurns : Nat) : ContextManager :=
  if numTurns = 0 then h
  else
    let userPositions := userMessagePositions host h.items
    match userPositions.head? with
    | none => h.replace h.items
    | some firstInstructionTurnIdx =>
      let cutIdx :=
        if userPositions.length ≤ numTurns then firstInstructionTurnIdx
        else userPositions.getD (userPositions.length - numTurns) 0
      let (cutIdx, reference) :=
        trimPreTurnContextUpdates host h.items firstInstructionTurnIdx cutIdx h.referenceContextItem
      { h with referenceContextItem := reference }.replace (h.items.take cutIdx)

end

/-! ## What recording keeps -/

section
variable (host : ReplayHost) {item : ResponseItem} {items : List ResponseItem}

theorem isUserTurnBoundary_processItem (item : ResponseItem) :
    isUserTurnBoundary host (processItem host item) = isUserTurnBoundary host item := by
  cases item <;> rfl

theorem isContextual_processItem (item : ResponseItem) :
    isContextual host (processItem host item) = isContextual host item := by
  cases item <;> rfl

variable {host}

theorem isContextual_of_boundary (h : isUserTurnBoundary host item = true) :
    isContextual host item = false := by
  cases item with
  | message m =>
    rw [isUserTurnBoundary] at h
    rw [isContextual]
    by_cases huser : m.role = "user"
    · simp [huser] at h
      simp [huser, h]
    · simp [huser] at h
      simp [h.1]
  | _ => rfl

theorem recorded_of_boundary (h : isUserTurnBoundary host item = true) :
    isApiMessage item = true ∧ processItem host item = item := by
  cases item with
  | message m =>
    rw [isUserTurnBoundary] at h
    refine ⟨?_, rfl⟩
    by_cases hsystem : m.role = "system"
    · simp [hsystem] at h
    · simpa [isApiMessage] using hsystem
  | agentMessage m => exact ⟨rfl, rfl⟩
  | _ => cases h

theorem recorded_of_contextual (h : isContextual host item = true) :
    isApiMessage item = true ∧ processItem host item = item := by
  cases item with
  | message m =>
    rw [isContextual] at h
    refine ⟨?_, rfl⟩
    by_cases hsystem : m.role = "system"
    · simp [hsystem] at h
    · simpa [isApiMessage] using hsystem
  | _ => cases h

variable (host)

def recorded (items : List ResponseItem) : List ResponseItem := (items.filter isApiMessage).map (processItem host)

@[simp] theorem recorded_nil : recorded host [] = [] := rfl

theorem recorded_append (xs ys : List ResponseItem) :
    recorded host (xs ++ ys) = recorded host xs ++ recorded host ys := by
  simp [recorded]

theorem items_recordItem (h : ContextManager) (item : ResponseItem) :
    (h.recordItem host item).items = h.items ++ recorded host [item] := by
  unfold recordItem
  cases hapi : isApiMessage item <;> simp [recorded, hapi]

theorem items_foldl_recordItem (items : List ResponseItem) (h : ContextManager) :
    (items.foldl (recordItem host) h).items = h.items ++ recorded host items := by
  induction items generalizing h with
  | nil => simp
  | cons item items ih =>
    rw [foldl_cons, ih, items_recordItem, append_assoc, ← recorded_append]
    rfl

theorem forall_mem_recorded {P : ResponseItem → Prop} (hP : ∀ item, P (processItem host item) ↔ P item)
    (h : ∀ item ∈ items, P item) : ∀ item ∈ recorded host items, P item := by
  intro item hit
  obtain ⟨x, hx, rfl⟩ := mem_map.mp hit
  exact (hP x).mpr (h x (mem_of_mem_filter hx))

theorem recorded_eq_self (h : ∀ item ∈ items, isApiMessage item = true ∧ processItem host item = item) :
    recorded host items = items := by
  induction items with
  | nil => rfl
  | cons item items ih =>
    obtain ⟨hapi, hprocess⟩ := h item mem_cons_self
    have hr := ih (forall_mem_cons.mp h).2
    rw [recorded] at hr ⊢
    rw [filter_cons_of_pos hapi, map_cons, hprocess, hr]

end

/-! ## What dropping leaves -/

section
variable (host : ReplayHost) {x : ResponseItem} {before turns : List ResponseItem}

theorem userMessagePositions_append (xs ys : List ResponseItem) : userMessagePositions host (xs ++ ys) =
      userMessagePositions host xs ++ (userMessagePositions host ys).map (xs.length + ·) := by
  unfold userMessagePositions
  rw [zipIdx_append, filterMap_append, Nat.zero_add, map_filterMap]
  congr 1
  have hshift : ys.zipIdx xs.length = ys.zipIdx.map fun (item, idx) => (item, xs.length + idx) := by
    rw [zipIdx_eq_map_add]
  rw [hshift, filterMap_map]
  refine filterMap_congr fun e _ => ?_
  obtain ⟨item, idx⟩ := e
  simp only [Function.comp_apply]
  split <;> rfl

theorem length_userMessagePositions (items : List ResponseItem) :
    (userMessagePositions host items).length = items.countP (isUserTurnBoundary host) := by
  induction items with
  | nil => rfl
  | cons item items ih =>
    rw [← singleton_append, userMessagePositions_append, length_append, length_map, ih, countP_append]
    congr 1
    cases hit : isUserTurnBoundary host item <;> simp [userMessagePositions, hit]

theorem userMessagePositions_cons (hx : isUserTurnBoundary host x = true) (xs : List ResponseItem) :
    userMessagePositions host (x :: xs) = 0 :: (userMessagePositions host xs).map (1 + ·) := by
  rw [← singleton_append, userMessagePositions_append]
  simp [userMessagePositions, hx]

theorem mem_userMessagePositions {items : List ResponseItem} {idx : Nat} (h : idx ∈ userMessagePositions host items) :
    ∃ item, items[idx]? = some item ∧ isUserTurnBoundary host item = true := by
  obtain ⟨⟨item, i⟩, hmem, heq⟩ := mem_filterMap.mp h
  rw [mk_mem_zipIdx_iff_getElem?] at hmem
  simp only at heq
  split at heq
  · next hit =>
    rw [Option.some.injEq] at heq
    exact ⟨item, heq ▸ hmem, hit⟩
  · cases heq

variable {host}

theorem take_trimPreTurnContextUpdates {snapshot : List ResponseItem} {first : Nat} (hx : snapshot[first]? = some x)
    (hcontextual : isContextual host x = false) (cutIdx : Nat) (reference : Option TurnContextItem)
    (hlt : first < cutIdx) (hle : cutIdx ≤ snapshot.length) :
    snapshot.take (trimPreTurnContextUpdates host snapshot first cutIdx reference).1 =
      (snapshot.take cutIdx).rdropWhile (isContextual host) := by
  induction cutIdx generalizing reference with
  | zero => omega
  | succ cutIdx ih =>
    have hget : snapshot[cutIdx]? = some snapshot[cutIdx] := getElem?_eq_getElem hle
    have htake : snapshot.take (cutIdx + 1) = snapshot.take cutIdx ++ [snapshot[cutIdx]] :=
      (take_concat_get' snapshot cutIdx hle).symm
    generalize snapshot[cutIdx] = y at hget htake
    -- an item that is trimmed is not the one at `first`
    have hback : isContextual host y = true → ∀ reference,
        snapshot.take (trimPreTurnContextUpdates host snapshot first cutIdx reference).1 =
          (snapshot.take (cutIdx + 1)).rdropWhile (isContextual host) := by
      intro hy reference
      have hne : first ≠ cutIdx := by
        rintro rfl
        rw [hx, Option.some.injEq] at hget
        rw [hget, hy] at hcontextual
        cases hcontextual
      rw [ih reference (by omega) (by omega), htake, rdropWhile_concat_pos _ _ _ hy]
    have hstop : isContextual host y = false →
        snapshot.take (cutIdx + 1) = (snapshot.take (cutIdx + 1)).rdropWhile (isContextual host) := by
      intro hy
      rw [htake, rdropWhile_concat_neg _ _ _ (by simp [hy])]
    rw [trimPreTurnContextUpdates, if_pos hlt, hget]
    cases y with
    | message m =>
      simp only
      split
      · next hdev => exact hback (by simp [isContextual, hdev]) _
      · next hdev =>
        split
        · next huser => exact hback (by simp [isContextual, huser]) _
        · next huser =>
          refine hstop ?_
          rw [not_and, Bool.not_eq_true] at hdev huser
          by_cases hrole : m.role = "developer"
          · simp [isContextual, hrole, hdev hrole]
          · by_cases hrole' : m.role = "user"
            · simp [isContextual, hrole', huser hrole']
            · simp [isContextual, hrole, hrole']
    | _ => exact hstop rfl

theorem items_dropLastNUserTurns_of_none (h : ContextManager) (numTurns : Nat)
    (hnone : numTurns = 0 ∨ ∀ item ∈ h.items, isUserTurnBoundary host item = false) :
    (h.dropLastNUserTurns host numTurns).items = h.items := by
  unfold dropLastNUserTurns
  split
  · rfl
  · next hzero =>
    have hcnt : (userMessagePositions host h.items).length = 0 := by
      rw [length_userMessagePositions, countP_eq_zero]
      intro item hit
      rw [hnone.resolve_left hzero item hit]
      exact Bool.false_ne_true
    rw [length_eq_zero_iff.mp hcnt]
    rfl

theorem items_dropLastNUserTurns_all (h : ContextManager) {numTurns : Nat} (hi : h.items = before ++ x :: turns)
    (hx : isUserTurnBoundary host x = true) (hpre : ∀ item ∈ before, isUserTurnBoundary host item = false)
    (hcnt : (x :: turns).countP (isUserTurnBoundary host) ≤ numTurns) :
    (h.dropLastNUserTurns host numTurns).items = before := by
  have hnone : userMessagePositions host before = [] := by
    rw [← length_eq_zero_iff, length_userMessagePositions, countP_eq_zero]
    intro item hit
    rw [hpre item hit]
    exact Bool.false_ne_true
  have hpos : userMessagePositions host h.items =
      before.length :: ((userMessagePositions host turns).map (1 + ·)).map (before.length + ·) := by
    rw [hi, userMessagePositions_append, hnone, userMessagePositions_cons host hx]
    rfl
  have hlen : (userMessagePositions host h.items).length ≤ numTurns := by
    rw [length_userMessagePositions, hi, countP_append,
      countP_eq_zero.mpr fun item hit => by rw [hpre item hit]; exact Bool.false_ne_true]
    omega
  have hzero : numTurns ≠ 0 := by
    rintro rfl
    rw [countP_cons_of_pos hx] at hcnt
    omega
  have htrim : ∀ reference, (trimPreTurnContextUpdates host h.items before.length before.length reference).1 =
      before.length := by
    intro reference
    cases before with
    | nil => rfl
    | cons y before => rw [length_cons, trimPreTurnContextUpdates, if_neg (Nat.lt_irrefl _)]
  unfold dropLastNUserTurns
  rw [if_neg hzero]
  simp only [if_pos hlen]
  rw [hpos]
  simp only [head?_cons, replace, htrim]
  rw [hi, take_left']
  rfl

theorem items_dropLastNUserTurns_some (h : ContextManager) (hi : h.items = before ++ x :: turns)
    (hx : isUserTurnBoundary host x = true) (hpre : ∃ item ∈ before, isUserTurnBoundary host item = true) :
    (h.dropLastNUserTurns host ((x :: turns).countP (isUserTurnBoundary host))).items =
      before.rdropWhile (isContextual host) := by
  obtain ⟨first, later, hfst⟩ : ∃ first later, userMessagePositions host before = first :: later := by
    refine exists_cons_of_ne_nil fun hnil => ?_
    have hcnt := length_userMessagePositions host before
    rw [hnil, length_nil, eq_comm, countP_eq_zero] at hcnt
    obtain ⟨item, hit, hboundary⟩ := hpre
    exact hcnt item hit hboundary
  have hpos : ∃ rest, userMessagePositions host h.items = (first :: later) ++ before.length :: rest := by
    rw [hi, userMessagePositions_append, hfst, userMessagePositions_cons host hx]
    exact ⟨_, rfl⟩
  obtain ⟨rest, hpos⟩ := hpos
  have hlen : (userMessagePositions host h.items).length =
      (first :: later).length + (x :: turns).countP (isUserTurnBoundary host) := by
    rw [length_userMessagePositions, hi, countP_append, ← hfst, length_userMessagePositions]
  obtain ⟨item, hget, hboundary⟩ : ∃ item, before[first]? = some item ∧ isUserTurnBoundary host item = true :=
    mem_userMessagePositions host (by rw [hfst]; exact mem_cons_self)
  have hlt : first < before.length := (List.getElem?_eq_some_iff.mp hget).1
  have hget' : h.items[first]? = some item := by rw [hi, getElem?_append_left hlt, hget]
  have hzero : (x :: turns).countP (isUserTurnBoundary host) ≠ 0 := by
    rw [countP_cons_of_pos hx]
    omega
  generalize hn : (x :: turns).countP (isUserTurnBoundary host) = n at hlen hzero
  have hcut : (userMessagePositions host h.items).getD ((userMessagePositions host h.items).length - n) 0 =
      before.length := by
    rw [hlen, Nat.add_sub_cancel, hpos]
    simp
  have hmore : ¬(userMessagePositions host h.items).length ≤ n := by
    rw [hlen, length_cons]
    omega
  unfold dropLastNUserTurns
  rw [if_neg hzero]
  simp only [if_neg hmore, hcut]
  rw [hpos]
  simp only [cons_append, head?_cons, replace]
  rw [take_trimPreTurnContextUpdates hget' (isContextual_of_boundary hboundary) before.length _ hlt
    (by rw [hi, length_append]; omega), hi, take_left']
  rfl

end

end ContextManager
