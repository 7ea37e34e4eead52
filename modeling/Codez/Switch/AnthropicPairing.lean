import Codez.Switch.AnthropicMessages

/-!
Calls and results in an Anthropic request.

Every `tool_use` block has exactly one `tool_result` block with its id, in a later user message.
-/

namespace LlmSwitch.AnthropicReq

open Codex Fallible Run List

def toolUseId? (block : Value) : Option String :=
  if block.strField "type" = some "tool_use" then block.strField "id" else none

def toolResultId? (block : Value) : Option String :=
  if block.strField "type" = some "tool_result" then block.strField "tool_use_id" else none

open Value

@[simp] theorem toolUseId?_textBlock (t : String) : toolUseId? (textBlock t) = none := by
  simp [toolUseId?, textBlock, strField, get_mkObj, List.lookup, asStr]

@[simp] theorem toolResultId?_textBlock (t : String) : toolResultId? (textBlock t) = none := by
  simp [toolResultId?, textBlock, strField, get_mkObj, List.lookup, asStr]

@[simp] theorem toolUseId?_toolUseBlock (c : FunctionCall) (input : Value) :
    toolUseId? (toolUseBlock c input) = some c.callId := by
  simp [toolUseId?, toolUseBlock, strField, get_mkObj, List.lookup, asStr]

@[simp] theorem toolResultId?_toolUseBlock (c : FunctionCall) (input : Value) :
    toolResultId? (toolUseBlock c input) = none := by
  simp [toolResultId?, toolUseBlock, strField, get_mkObj, List.lookup, asStr]

@[simp] theorem toolUseId?_resultBlock (id text : String) : toolUseId? (resultBlock id text) = none := by
  simp [toolUseId?, resultBlock, strField, get_mkObj, List.lookup, asStr]

@[simp] theorem toolResultId?_resultBlock (id text : String) :
    toolResultId? (resultBlock id text) = some id := by
  simp [toolResultId?, resultBlock, strField, get_mkObj, List.lookup, asStr]

theorem toolResultBlock_ids (id : String) (output : FunctionCallOutputPayload) (block : Value)
    (h : toolResultBlock id output = .ok block) :
    toolUseId? block = none ∧ toolResultId? block = some id := by
  obtain ⟨text, -, rfl⟩ := map_eq_ok h
  split
  · have hget : ∀ k, k ≠ "is_error" → ((resultBlock id text).set "is_error" (.bool true)).strField k =
        (resultBlock id text).strField k := by
      intro k hk
      rw [strField, get_set_ne hk]
      rfl
    unfold toolUseId? toolResultId?
    rw [hget "type" (by decide), hget "tool_use_id" (by decide), hget "id" (by decide)]
    exact ⟨toolUseId?_resultBlock id text, toolResultId?_resultBlock id text⟩
  · simp

theorem textBlock_of_mem_content {content : List ContentItem} {v : Value}
    (h : v ∈ content.filterMap fun c => (contentItemToBlock c).toOption) : ∃ t, v = textBlock t := by
  obtain ⟨c, -, hc⟩ := mem_filterMap.mp h
  cases c with
  | inputText t | outputText t => exact ⟨t, (Option.some.inj hc).symm⟩
  | inputImage u => cases hc

theorem textBlock_of_mem_agent {content : List AgentMessageInputContent} {v : Value}
    (h : v ∈ content.filterMap fun c => (agentBlock c).toOption) : ∃ t, v = textBlock t := by
  obtain ⟨c, -, hc⟩ := mem_filterMap.mp h
  cases c with
  | inputText t => exact ⟨t, (Option.some.inj hc).symm⟩
  | encryptedContent t => cases hc

/-! ## Blocks of an item -/

variable {id : String} {item : ResponseItem} {seen : List String} {block : Value} {bpre bpost : List (String × Value)}

theorem itemBlocks_toolUse {env : BuildEnv} {role : String}
    (h : itemBlocks env seen item = bpre ++ (role, block) :: bpost) (hid : toolUseId? block = some id) :
    ∃ c, item = .functionCall c ∧ c.callId = id ∧ role = "assistant" ∧ bpre = [] ∧ bpost = [] := by
  have hmem : (role, block) ∈ itemBlocks env seen item := by rw [h]; simp
  cases item with
  | message m =>
    obtain ⟨v, hv, heq⟩ := mem_map.mp hmem
    obtain ⟨t, rfl⟩ := textBlock_of_mem_content hv
    cases heq
    simp at hid
  | agentMessage m =>
    obtain ⟨v, hv, heq⟩ := mem_map.mp hmem
    obtain ⟨t, rfl⟩ := textBlock_of_mem_agent hv
    cases heq
    simp at hid
  | functionCall c =>
    cases hp : env.serde.fromStr c.arguments with
    | error e => simp [itemBlocks, hp, Except.toOption] at hmem
    | ok input =>
      have hone : [("assistant", toolUseBlock c input)] = bpre ++ (role, block) :: bpost := by
        rw [← h]
        simp [itemBlocks, hp, Except.toOption]
      cases bpre with
      | nil =>
        cases hone
        exact ⟨c, rfl, by simpa using hid, rfl, rfl, rfl⟩
      | cons b bpre => simp at hone
  | functionCallOutput o =>
    simp only [itemBlocks] at hmem
    split at hmem
    · cases hr : toolResultBlock o.callId o.output with
      | error e => simp [hr, Except.toOption] at hmem
      | ok v =>
        obtain rfl : block = v := by
          rw [hr] at hmem
          simp [Except.toOption] at hmem
          exact hmem.2
        rw [(toolResultBlock_ids _ _ _ hr).1] at hid
        cases hid
    · simp at hmem
  | _ => simp [itemBlocks] at hmem

def itemResults (seen : List String) : ResponseItem → List String
  | .functionCallOutput o => if o.callId ∈ seen then [o.callId] else []
  | _ => []

theorem itemBlocks_toolResults {env : BuildEnv} (h : (itemBlocks env seen item).map Prod.fst = itemRoles seen item) :
    (itemBlocks env seen item).filterMap (fun b => toolResultId? b.2) = itemResults seen item := by
  cases item with
  | message m =>
    refine filterMap_eq_nil_iff.mpr fun b hb => ?_
    obtain ⟨v, hv, rfl⟩ := mem_map.mp hb
    obtain ⟨t, rfl⟩ := textBlock_of_mem_content hv
    exact toolResultId?_textBlock t
  | agentMessage m =>
    refine filterMap_eq_nil_iff.mpr fun b hb => ?_
    obtain ⟨v, hv, rfl⟩ := mem_map.mp hb
    obtain ⟨t, rfl⟩ := textBlock_of_mem_agent hv
    exact toolResultId?_textBlock t
  | functionCall c =>
    refine filterMap_eq_nil_iff.mpr fun b hb => ?_
    obtain ⟨v, -, rfl⟩ := mem_map.mp hb
    exact toolResultId?_toolUseBlock c v
  | functionCallOutput o =>
    simp only [itemBlocks, itemRoles, itemResults] at h ⊢
    split
    · next hseen =>
      cases hr : toolResultBlock o.callId o.output with
      | error e => simp [hseen, hr, Except.toOption] at h
      | ok v => simp [Except.toOption, (toolResultBlock_ids _ _ _ hr).2]
    · rfl
  | _ => rfl

theorem count_itemResults_of_not_mem (seen : List String) (items : List ResponseItem) (hseen : id ∉ seen)
    (hcs : id ∉ callIds items) : (emit itemResults seenAfter seen items).count id = 0 := by
  induction items generalizing seen with
  | nil => rfl
  | cons item items ih =>
    have hspl : callIds (item :: items) = (callId? item).toList ++ callIds items := by
      rw [← singleton_append, callIds_append, callIds_singleton]
    rw [hspl, mem_append, not_or] at hcs
    have hnext : id ∉ seenAfter seen item := by
      intro hm
      have := (mem_foldl_seenAfter id seen [item]).mp hm
      rw [callIds_singleton] at this
      exact this.elim hseen hcs.1
    rw [emit, count_append, ih _ hnext hcs.2]
    cases item with
    | functionCallOutput o =>
      simp only [itemResults]
      split
      · next hm =>
        have hne : o.callId ≠ id := fun hc => hseen (hc ▸ hm)
        simp [hne]
      · rfl
    | _ => rfl

theorem count_itemResults_of_mem (seen : List String) (items : List ResponseItem) (hseen : id ∈ seen) :
    (emit itemResults seenAfter seen items).count id = (outputsFor id items).length := by
  induction items generalizing seen with
  | nil => rfl
  | cons item items ih =>
    have hnext : id ∈ seenAfter seen item := (mem_foldl_seenAfter id seen [item]).mpr (.inl hseen)
    have hh : ((itemResults seen item).count id) = (outputsFor id [item]).length := by
      cases item with
      | functionCallOutput o =>
        by_cases ho : o.callId = id
        · simp [itemResults, outputsFor, outputFor, ho, hseen]
        · by_cases hm : o.callId ∈ seen <;> simp [itemResults, outputsFor, outputFor, ho, hm]
      | _ => rfl
    rw [emit, count_append, ih _ hnext, hh, ← length_append, ← outputsFor_append]
    rfl

/-! ## From a call to its result -/

def awaiting (id : String) (post : List ResponseItem) : List ResponseItem :=
  post.takeWhile fun item => (outputFor id item).isNone

def seenWith (pre : List ResponseItem) (c : FunctionCall) : List String :=
  seenAfter (pre.foldl seenAfter []) (.functionCall c)

/-- Between the call and its output the user speaks and is answered. -/
def Interrupted (pre : List ResponseItem) (c : FunctionCall) (post : List ResponseItem) : Prop :=
  List.Sublist ["user", "assistant"] (inputRoles (seenWith pre c) (awaiting c.callId post))

theorem awaiting_cases (id : String) (post : List ResponseItem) :
    (outputsFor id post = [] ∧ awaiting id post = post) ∨
      ∃ o rest, post = awaiting id post ++ .functionCallOutput o :: rest ∧ o.callId = id := by
  induction post with
  | nil => exact .inl ⟨rfl, rfl⟩
  | cons item post ih =>
    cases hit : outputFor id item with
    | none =>
      have hst : awaiting id (item :: post) = item :: awaiting id post := by
        simp [awaiting, hit]
      rw [hst]
      rcases ih with ⟨hnone, heq⟩ | ⟨o, rest, heq, ho⟩
      · exact .inl ⟨by simpa [outputsFor, hit] using hnone, by rw [heq]⟩
      · exact .inr ⟨o, rest, by rw [cons_append, ← heq], ho⟩
    | some out =>
      have hstop : awaiting id (item :: post) = [] := by simp [awaiting, hit]
      rw [hstop]
      cases item with
      | functionCallOutput o =>
        refine Or.inr ⟨o, post, rfl, ?_⟩
        by_contra hne
        simp [outputFor, hne] at hit
      | _ => cases hit

theorem inputRoles_mem (seen : List String) (items : List ResponseItem) :
    ∀ role ∈ inputRoles seen items, role = "assistant" ∨ role = "user" := by
  induction items generalizing seen with
  | nil => simp [inputRoles, emit]
  | cons item items ih =>
    intro role hrole
    rcases mem_append.mp hrole with hrole | hrole
    · cases item with
      | message m =>
        obtain ⟨_, -, rfl⟩ := mem_map.mp hrole
        unfold messageRole
        split
        · exact .inl rfl
        · exact .inr rfl
      | agentMessage m =>
        obtain ⟨_, -, rfl⟩ := mem_map.mp hrole
        exact .inl rfl
      | functionCall c => exact .inl (mem_singleton.mp hrole)
      | functionCallOutput o =>
        simp only [itemRoles] at hrole
        split at hrole
        · exact .inr (mem_singleton.mp hrole)
        · cases hrole
      | _ => cases hrole
    · exact ih _ role hrole

section
variable {env : BuildEnv} {pre post : List ResponseItem} {c : FunctionCall} {needing : List String}

theorem mem_needing_iff (hnd : (callIds (pre ++ .functionCall c :: post)).Nodup)
    (hneed : Needing (pre ++ .functionCall c :: post) needing) :
    c.callId ∈ needing ↔ outputsFor c.callId post = [] := by
  rw [hneed.mem_iff, afterCall_of_nodup hnd rfl]
  simp [callId?, callIds]

theorem count_toolResults (hnd : (callIds (pre ++ .functionCall c :: post)).Nodup)
    (hone : (outputsFor c.callId (pre ++ .functionCall c :: post)).length ≤ 1)
    (hmapped : Mapped env [] (pre ++ .functionCall c :: post))
    (hneed : Needing (pre ++ .functionCall c :: post) needing) :
    ((inputBlocks env [] (pre ++ .functionCall c :: post) ++ needing.map anthropicPlaceholder).filterMap
      fun b => toolResultId? b.2).count c.callId = 1 := by
  have hblocks : (inputBlocks env [] (pre ++ .functionCall c :: post)).filterMap
      (fun b => toolResultId? b.2) = emit itemResults seenAfter [] (pre ++ .functionCall c :: post) :=
    emit_filterMap (hmapped.mono fun _ _ => itemBlocks_toolResults)
  have hplaceholders : (needing.map anthropicPlaceholder).filterMap (fun b => toolResultId? b.2) =
      needing := by
    rw [filterMap_map]
    simp [Function.comp_def, anthropicPlaceholder]
  have hfresh : c.callId ∉ callIds pre := by
    rw [callIds_append] at hnd
    exact fun hm => (nodup_append.mp hnd).2.2 _ hm _ (by simp [callIds, callId?]) rfl
  have hseen : c.callId ∈ seenAfter (pre.foldl seenAfter []) (.functionCall c) := by
    simp [seenAfter]
  have hcnt : (emit itemResults seenAfter [] (pre ++ .functionCall c :: post)).count c.callId =
      (outputsFor c.callId post).length := by
    rw [emit_append, emit, count_append, count_append,
      count_itemResults_of_not_mem [] pre (by simp) hfresh, count_itemResults_of_mem _ post hseen]
    simp [itemResults]
  have hpost : (outputsFor c.callId post).length ≤ 1 := by
    rw [outputsFor_append, length_append] at hone
    have : outputsFor c.callId (.functionCall c :: post) = outputsFor c.callId post := rfl
    rw [this] at hone
    omega
  rw [filterMap_append, hblocks, hplaceholders, count_append, hcnt]
  by_cases hnone : outputsFor c.callId post = []
  · rw [hnone, count_eq_one_of_mem hneed.nodup ((mem_needing_iff hnd hneed).mpr hnone)]
    rfl
  · rw [count_eq_zero_of_not_mem fun hm => hnone ((mem_needing_iff hnd hneed).mp hm)]
    have := length_pos_iff.mpr hnone
    omega

theorem exists_toolResult (hnd : (callIds (pre ++ .functionCall c :: post)).Nodup)
    (hmapped : Mapped env (seenWith pre c) post)
    (hneed : Needing (pre ++ .functionCall c :: post) needing) :
    ∃ mid result rest n, inputBlocks env (seenWith pre c) post ++
          needing.map anthropicPlaceholder = mid ++ ("user", result) :: rest ∧
        toolResultId? result = some c.callId ∧
        mid.map Prod.fst =
          inputRoles (seenWith pre c) (awaiting c.callId post) ++ List.replicate n "user" := by
  have hseen : c.callId ∈ seenWith pre c := by simp [seenWith, seenAfter]
  generalize seenWith pre c = seen at hmapped hseen ⊢
  rcases awaiting_cases c.callId post with ⟨hnone, heq⟩ | ⟨o, rest, heq, ho⟩
  · obtain ⟨l₁, behind, rfl⟩ := append_of_mem ((mem_needing_iff hnd hneed).mpr hnone)
    refine ⟨inputBlocks env seen post ++ l₁.map anthropicPlaceholder,
      (anthropicPlaceholder c.callId).2, behind.map anthropicPlaceholder, l₁.length, ?_,
      toolResultId?_resultBlock _ _, ?_⟩
    · simp [anthropicPlaceholder]
    · rw [map_append, hmapped.roles, heq, map_map]
      simp [Function.comp_def, anthropicPlaceholder, map_const']
  · generalize awaiting c.callId post = wait at heq
    subst heq
    obtain ⟨hwait, hout, -⟩ := (allSteps_append _ _ _).mp hmapped
    have hm : o.callId ∈ wait.foldl seenAfter seen := by
      rw [mem_foldl_seenAfter, ho]
      exact .inl hseen
    -- the output was accepted, so its block is there
    cases hr : toolResultBlock o.callId o.output with
    | error e => simp [itemBlocks, itemRoles, hm, hr, Except.toOption] at hout
    | ok block =>
      refine ⟨inputBlocks env seen wait, block,
        inputBlocks env (seenAfter (wait.foldl seenAfter seen) (.functionCallOutput o)) rest ++
          needing.map anthropicPlaceholder, 0, ?_, ?_, ?_⟩
      · rw [inputBlocks, emit_append, emit, itemBlocks, if_pos hm, hr, append_assoc, append_assoc]
        rfl
      · rw [(toolResultBlock_ids _ _ _ hr).2, ho]
      · rw [Mapped.roles hwait]
        simp

end

theorem toolUse_split {env : BuildEnv} {items : List ResponseItem} {needing : List String} {role : String}
    (h : inputBlocks env [] items ++ needing.map anthropicPlaceholder = bpre ++ (role, block) :: bpost)
    (hid : toolUseId? block = some id) :
    ∃ pre c post, items = pre ++ .functionCall c :: post ∧ c.callId = id ∧ role = "assistant" ∧
      bpre = inputBlocks env [] pre ∧
      bpost = inputBlocks env (seenWith pre c) post ++ needing.map anthropicPlaceholder := by
  -- placeholders are results
  have hnot : (role, block) ∉ needing.map anthropicPlaceholder := by
    intro hm
    obtain ⟨id', -, heq⟩ := mem_map.mp hm
    cases heq
    simp at hid
  rcases append_eq_append_iff.mp h with ⟨mid, -, htail⟩ | ⟨mid, hblocks, htail⟩
  · exact absurd (by rw [htail]; simp) hnot
  · cases mid with
    | nil => exact absurd (by rw [← nil_append (needing.map _), ← htail]; simp) hnot
    | cons b mid =>
      obtain ⟨rfl, rfl⟩ := List.cons.inj htail
      obtain ⟨pre, item, post, ipre, ipost, rfl, hit, rfl, rfl⟩ :=
        emit_eq_append_cons _ _ _ _ _ _ _ hblocks
      obtain ⟨c, rfl, hc, hrole, rfl, rfl⟩ := itemBlocks_toolUse hit hid
      refine ⟨pre, c, post, rfl, hc, hrole, append_nil _, ?_⟩
      rw [nil_append, foldl_append]
      rfl

/-- **Results of calls in an Anthropic request.**  Every `tool_use` block is the block of a call
of the input.  Exactly one `tool_result` block has its id.  It lies in a later user message, and
in the next one exactly when the call is not interrupted before its output. -/
theorem buildAnthropicRequest_toolResults (env : BuildEnv) (req : ResponsesApiRequest)
    (ctx : EgressCtx) (body : Value) (hnd : (callIds req.input).Nodup)
    (hone : ∀ id, (outputsFor id req.input).length ≤ 1)
    (h : buildAnthropicRequest env req ctx = .ok body) :
    ∃ messages, body.get "messages" = some (.array messages) ∧
      ∀ i m block id, messages[i]? = some m → block ∈ blocksOf m → toolUseId? block = some id →
        ((messages.flatMap blocksOf).filterMap toolResultId?).count id = 1 ∧
        ∃ pre c post, req.input = pre ++ .functionCall c :: post ∧ c.callId = id ∧
          ∃ j m', i < j ∧ messages[j]? = some m' ∧ roleOf m' = some "user" ∧
            id ∈ (blocksOf m').filterMap toolResultId? ∧
            (j = i + 1 ↔ ¬ Interrupted pre c post) := by
  obtain ⟨needing, hneed, hmapped, hms⟩ := buildAnthropicRequest_messages env req ctx body hnd h
  refine ⟨_, hms, ?_⟩
  intro i m block id hm hb hid
  rw [getElem?_map] at hm
  obtain ⟨⟨role, as⟩, hg, rfl⟩ := Option.map_eq_some_iff.mp hm
  rw [blocksOf_turnMessage] at hb
  obtain ⟨bpre, bpost, hsplit, hlen⟩ := Grouping.exists_of_getElem?_group _ i role as block hg hb
  obtain ⟨pre, c, post, hinput, rfl, rfl, rfl, rfl⟩ := toolUse_split hsplit hid
  rw [hinput] at hnd hneed hmapped hsplit ⊢
  refine ⟨?_, pre, c, post, rfl, rfl, ?_⟩
  · rw [flatMap_map]
    simp only [blocksOf_turnMessage]
    rw [Grouping.flatMap_snd_group, filterMap_map]
    exact count_toolResults hnd (hinput ▸ hone c.callId) hmapped hneed
  · have hpost : Mapped env (seenWith pre c) post := ((allSteps_append _ _ _).mp hmapped).2.2
    obtain ⟨mid, result, rest, n, hmid, hresult, hroles⟩ := exists_toolResult hnd hpost hneed
    -- the result is as many messages behind the call as the role changes between them
    rw [hsplit, hmid]
    obtain ⟨as', hj, hmem⟩ := Grouping.getElem?_group_apart hlen mid ("user", result) rest
    rw [hroles, Grouping.changes_replicate_snoc] at hj
    have hpos := Grouping.changes_snoc_pos (a := "assistant") (b := "user") (by decide)
      (inputRoles (seenWith pre c) (awaiting c.callId post))
    have hnext := Grouping.changes_snoc_eq_one_iff (a := "assistant") (b := "user") (by decide)
      _ (inputRoles_mem (seenWith pre c) (awaiting c.callId post))
    refine ⟨_, _, ?_, by rw [getElem?_map, hj]; rfl, roleOf_turnMessage _, ?_, ?_⟩
    · exact Nat.lt_add_of_pos_right hpos
    · rw [blocksOf_turnMessage]
      exact mem_filterMap.mpr ⟨result, hmem, hresult⟩
    · rw [Interrupted, ← hnext]
      exact Nat.add_left_cancel_iff

def interruptedRequest : ResponsesApiRequest where
  input := [.functionCall { name := "shell", arguments := "\x7b\x7d", callId := "a" },
    .message { role := "user", content := [.inputText "wait"] },
    .message { role := "assistant", content := [.outputText "waiting"] },
    .functionCallOutput ⟨"a", ⟨.text "done", none⟩⟩]

theorem interruptedRequest_accepted :
    ∃ body, buildAnthropicRequest plainEnv interruptedRequest { model := "m" } = .ok body :=
  (decides_buildAnthropicRequest plainEnv interruptedRequest { model := "m" }).ok_iff.mpr (by decide)

theorem interruptedRequest_outputs (id : String) : (outputsFor id interruptedRequest.input).length ≤ 1 := by
  by_cases h : "a" = id <;> simp [interruptedRequest, outputsFor, outputFor, filterMap_cons, h]

theorem buildAnthropicRequest_toolResults_interrupted :
    ∃ body, buildAnthropicRequest plainEnv interruptedRequest { model := "m" } = .ok body ∧
      ∃ messages, body.get "messages" = some (.array messages) ∧
        ∀ i m block id, messages[i]? = some m → block ∈ blocksOf m → toolUseId? block = some id →
          ((messages.flatMap blocksOf).filterMap toolResultId?).count id = 1 ∧
          ∃ pre c post, interruptedRequest.input = pre ++ .functionCall c :: post ∧ c.callId = id ∧
            ∃ j m', i < j ∧ messages[j]? = some m' ∧ roleOf m' = some "user" ∧
              id ∈ (blocksOf m').filterMap toolResultId? ∧
              (j = i + 1 ↔ ¬ Interrupted pre c post) := by
  obtain ⟨body, hbody⟩ := interruptedRequest_accepted
  exact ⟨body, hbody, buildAnthropicRequest_toolResults plainEnv interruptedRequest { model := "m" } body
    (by decide) interruptedRequest_outputs hbody⟩

theorem toolResult_not_adjacent : (callIds interruptedRequest.input).Nodup ∧
    (∀ id, (outputsFor id interruptedRequest.input).length ≤ 1) ∧
    ∃ body messages, buildAnthropicRequest plainEnv interruptedRequest { model := "m" } = .ok body ∧
      body.get "messages" = some (.array messages) ∧
      ¬ ∀ i m block id, messages[i]? = some m → block ∈ blocksOf m → toolUseId? block = some id →
        ∃ m', messages[i + 1]? = some m' ∧ id ∈ (blocksOf m').filterMap toolResultId? := by
  refine ⟨by decide, interruptedRequest_outputs, ?_⟩
  obtain ⟨body, hbody⟩ := interruptedRequest_accepted
  obtain ⟨needing, hneed, -, hms⟩ :=
    buildAnthropicRequest_messages plainEnv interruptedRequest { model := "m" } body (by decide) hbody
  obtain rfl : needing = [] := by
    rw [eq_nil_iff_forall_not_mem]
    intro id hid
    obtain ⟨hcall, hout⟩ := (hneed.mem_iff id).mp hid
    obtain rfl : id = "a" := by simpa [interruptedRequest, callIds, callId?, filterMap_cons] using hcall
    cases hout
  refine ⟨body, _, hbody, hms, fun hall => ?_⟩
  obtain ⟨m', hm', hid⟩ := hall 0 _ (toolUseBlock { name := "shell", arguments := "\x7b\x7d", callId := "a" }
    (.object [])) "a" rfl (by decide) (by simp)
  cases hm'
  revert hid
  decide

end LlmSwitch.AnthropicReq
