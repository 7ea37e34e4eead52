import Codez.Switch.ChatReorder

/-!
The messages of a chat request.

The builder collects messages in input order, adds a placeholder for every call without a result and
lets `reorderToolMessages` put the results behind their calls.
-/

namespace LlmSwitch.ChatReq

open Codex Fallible Run List

def chatImage : ResponseItem → Option Value
  | .message m => (mapMessage m.role m.content).toOption
  | .functionCall c => some (callMessage c)
  | .agentMessage m => (mapAgentMessage m.content).toOption
  | _ => none

def chatPlaceholder (id : String) : Value := chatToolMessage id "[No output available yet]"

def chatResults (id : String) (outputs : List FunctionCallOutputPayload) : List Value :=
  if outputs = [] then [chatPlaceholder id]
  else outputs.filterMap fun o => (mapFunctionCallOutput id o).toOption

def chatMessages : List ResponseItem → List Value
  | [] => []
  | item :: items =>
    (chatImage item).toList ++
      ((callId? item).toList.flatMap fun id => chatResults id (outputsFor id items)) ++
      chatMessages items

/-! ### What the messages carry -/

open Value

@[simp] theorem toolMessageId_callMessage (c : FunctionCall) : toolMessageId (callMessage c) = none := by
  simp [toolMessageId, callMessage, strField, get_mkObj, List.lookup, asStr]

@[simp] theorem toolCallIds_callMessage (c : FunctionCall) : toolCallIds (callMessage c) = [c.callId] := by
  simp [toolCallIds, callMessage, strField, get_mkObj, List.lookup, asStr, asArray]

@[simp] theorem toolMessageId_chatToolMessage (id text : String) :
    toolMessageId (chatToolMessage id text) = some id := by
  simp [toolMessageId, chatToolMessage, strField, get_mkObj, List.lookup, asStr]

def textMessage (role text : String) : Value :=
  .mkObj [("role", .string role), ("content", .string text)]

@[simp] theorem toolMessageId_textMessage (role text : String) :
    toolMessageId (textMessage role text) = none := by
  simp [toolMessageId, textMessage, strField, get_mkObj, List.lookup]

@[simp] theorem toolCallIds_textMessage (role text : String) : toolCallIds (textMessage role text) = [] := by
  simp [toolCallIds, textMessage, get_mkObj, List.lookup]

variable (item : ResponseItem) {done items : List ResponseItem} {x : ResponseItem} {sys : List Value} {acc : ChatAcc}
  (env : BuildEnv) (req : ResponsesApiRequest) (ctx : EgressCtx)

theorem chatImage_cases (v : Value) (h : chatImage item = some v) :
    (∃ role text, v = textMessage role text ∧ callId? item = none) ∨
      ∃ c, item = .functionCall c ∧ v = callMessage c := by
  cases item with
  | message m =>
    obtain ⟨text, ht⟩ : ∃ text, v = textMessage m.role text := by
      unfold chatImage mapMessage at h
      cases hc : concatText chatContentText m.content with
      | error e => simp [hc, Except.map, Except.toOption] at h
      | ok t => exact ⟨t, by simpa [hc, Except.map, Except.toOption, textMessage] using h.symm⟩
    exact .inl ⟨m.role, text, ht, rfl⟩
  | agentMessage m =>
    obtain ⟨text, ht⟩ : ∃ text, v = textMessage "assistant" text := by
      unfold chatImage mapAgentMessage at h
      cases hc : concatText chatAgentText m.content with
      | error e => simp [hc, Except.map, Except.toOption] at h
      | ok t => exact ⟨t, by simpa [hc, Except.map, Except.toOption, textMessage] using h.symm⟩
    exact .inl ⟨"assistant", text, ht, rfl⟩
  | functionCall c => exact .inr ⟨c, rfl, (Option.some.inj h).symm⟩
  | _ => cases h

theorem mapFunctionCallOutput_eq_ok (id : String) (o : FunctionCallOutputPayload) (v : Value)
    (h : mapFunctionCallOutput id o = .ok v) : ∃ text, v = chatToolMessage id text := by
  obtain ⟨t, -, ht⟩ := map_eq_ok h
  exact ⟨_, ht.symm⟩

/-! ### The item loop -/

inductive ChatStep (acc : ChatAcc) (item : ResponseItem) : ChatAcc → Prop
  | text (v : Value) (himage : chatImage item = some v) (hcall : callId? item = none)
      (hout : ∀ id, outputFor id item = none) (hv : toolMessageId v = none) :
      ChatStep acc item (acc.push v)
  | call (c : FunctionCall) (hitem : item = .functionCall c) : ChatStep acc item
        { messages := acc.messages ++ [callMessage c]
          seenCalls := acc.seenCalls.insert c.callId
          callsNeedingResult := acc.callsNeedingResult.insert c.callId }
  | result (o : FunctionCallOutput) (v : Value) (hitem : item = .functionCallOutput o)
      (hseen : o.callId ∈ acc.seenCalls) (hv : mapFunctionCallOutput o.callId o.output = .ok v) :
      ChatStep acc item
        { acc with
          messages := acc.messages ++ [v]
          callsNeedingResult := acc.callsNeedingResult.filter fun id => id ≠ o.callId }
  | dropped (himage : chatImage item = none) (hcall : callId? item = none)
      (hout : ∀ id ∈ acc.seenCalls, outputFor id item = none) : ChatStep acc item acc

theorem chatItem_step (acc acc' : ChatAcc) (item : ResponseItem)
    (h : chatItem acc item = .ok acc') : ChatStep acc item acc' := by
  cases item with
  | message m =>
    obtain ⟨v, hv, rfl⟩ := map_eq_ok h
    obtain ⟨t, -, ht⟩ := map_eq_ok hv
    refine .text v (by simp [chatImage, hv, Except.toOption]) rfl (fun _ => rfl) ?_
    rw [← ht]
    exact toolMessageId_textMessage m.role t
  | agentMessage m =>
    obtain ⟨v, hv, rfl⟩ := map_eq_ok h
    obtain ⟨t, -, ht⟩ := map_eq_ok hv
    refine .text v (by simp [chatImage, hv, Except.toOption]) rfl (fun _ => rfl) ?_
    rw [← ht]
    exact toolMessageId_textMessage "assistant" t
  | functionCall c =>
    simp only [chatItem] at h
    split at h
    · cases h
    · cases h
      exact .call c rfl
  | functionCallOutput o =>
    simp only [chatItem] at h
    split at h
    · next hseen =>
      obtain ⟨v, hv, rfl⟩ := map_eq_ok h
      exact .result o v rfl hseen hv
    · next hseen =>
      cases h
      refine .dropped rfl rfl fun id hid => ?_
      have hne : o.callId ≠ id := fun hc => hseen (hc ▸ hid)
      simp [outputFor, hne]
  | reasoning | compactionTrigger =>
    cases h
    exact .dropped rfl rfl fun _ _ => rfl
  | _ => cases h

def resultMessages (id : String) (items : List ResponseItem) : List Value :=
  (outputsFor id items).filterMap fun o => (mapFunctionCallOutput id o).toOption

structure LoopInv (sys : List Value) (done : List ResponseItem) (acc : ChatAcc) : Prop where
  seen : ∀ id, id ∈ acc.seenCalls ↔ id ∈ callIds done
  images : nonTool acc.messages = sys ++ done.filterMap chatImage
  results : ∀ id, resultsIn acc.messages id = resultMessages id (afterCall id done)
  needing : Needing done acc.callsNeedingResult
  mapped : ∀ id, ∀ o ∈ outputsFor id (afterCall id done), ∃ v, mapFunctionCallOutput id o = .ok v

theorem resultMessages_snoc (id : String) (done : List ResponseItem) (x : ResponseItem)
    (h : id ∈ callIds done → outputFor id x = none) :
    resultMessages id (afterCall id (done ++ [x])) = resultMessages id (afterCall id done) := by
  unfold resultMessages
  rw [outputsFor_afterCall_snoc]
  split
  · next hid => simp [h hid]
  · simp

theorem mem_outputsFor_snoc {id : String} {o : FunctionCallOutputPayload}
    (h : o ∈ outputsFor id (afterCall id (done ++ [x]))) :
    o ∈ outputsFor id (afterCall id done) ∨ (id ∈ callIds done ∧ outputFor id x = some o) := by
  rw [outputsFor_afterCall_snoc, mem_append] at h
  rcases h with h | h
  · exact .inl h
  · split at h
    · next hid => exact .inr ⟨hid, by simpa using h⟩
    · cases h

theorem LoopInv.step {acc' : ChatAcc} (hi : LoopInv sys done acc) (hx : ChatStep acc x acc')
    (hfresh : ∀ id, callId? x = some id → id ∉ callIds done) : LoopInv sys (done ++ [x]) acc' := by
  cases hx with
  | text v himage hcall hout hv =>
    refine ⟨fun id => ?_, ?_, fun id => ?_, hi.needing.skip x hcall fun id _ => hout id, fun id o ho => ?_⟩
    · simpa [hcall, ChatAcc.push] using hi.seen id
    · simp [ChatAcc.push, hi.images, hv, himage]
    · rw [resultMessages_snoc id done x fun _ => hout id, ← hi.results id]
      simp [ChatAcc.push, hv]
    · rcases mem_outputsFor_snoc ho with ho | ⟨-, ho⟩
      · exact hi.mapped id o ho
      · rw [hout id] at ho
        cases ho
  | call c hit =>
    subst hit
    have hnew : c.callId ∉ callIds done := hfresh c.callId rfl
    refine ⟨fun id => ?_, ?_, fun id => ?_,
      hi.needing.call c hnew hi.needing.nodup.insert fun id => mem_insert_iff, fun id o ho => ?_⟩
    · rw [mem_insert_iff, hi.seen id]
      simp [callId?, or_comm]
    · simp [hi.images, chatImage]
    · rw [resultMessages_snoc id done _ fun _ => rfl, ← hi.results id]
      simp
    · rcases mem_outputsFor_snoc ho with ho | ⟨-, ho⟩
      · exact hi.mapped id o ho
      · cases ho
  | result o v hit hseen hv =>
    subst hit
    obtain ⟨text, rfl⟩ := mapFunctionCallOutput_eq_ok _ _ _ hv
    have hmem : o.callId ∈ callIds done := (hi.seen o.callId).mp hseen
    refine ⟨fun id => ?_, ?_, fun id => ?_, hi.needing.result o hmem, fun id o' ho => ?_⟩
    · simpa [callId?] using hi.seen id
    · have himage : chatImage (.functionCallOutput o) = none := rfl
      simp [hi.images, himage]
    · by_cases hid : id = o.callId
      · subst hid
        have hr := hi.results o.callId
        unfold resultMessages at hr ⊢
        rw [outputsFor_afterCall_snoc, if_pos hmem]
        have hv' : (mapFunctionCallOutput o.callId o.output).toOption =
            some (chatToolMessage o.callId text) := by rw [hv]; rfl
        simp [hr, outputFor, hv']
      · have hne : o.callId ≠ id := fun hc => hid hc.symm
        rw [resultMessages_snoc id done _ fun _ => by simp [outputFor, hne], ← hi.results id]
        simp [hne]
    · rcases mem_outputsFor_snoc ho with ho | ⟨-, ho⟩
      · exact hi.mapped id o' ho
      · by_cases hid : o.callId = id
        · subst hid
          have heq : o.output = o' := by simpa [outputFor] using ho
          exact ⟨_, heq ▸ hv⟩
        · simp [outputFor, hid] at ho
  | dropped himage hcall hout =>
    have hout' : ∀ id ∈ callIds done, outputFor id x = none :=
      fun id hid => hout id ((hi.seen id).mpr hid)
    refine ⟨fun id => ?_, ?_, fun id => ?_, hi.needing.skip x hcall hout', fun id o ho => ?_⟩
    · simpa [hcall] using hi.seen id
    · simpa [himage] using hi.images
    · rw [resultMessages_snoc id done x (hout' id)]
      exact hi.results id
    · rcases mem_outputsFor_snoc ho with ho | ⟨hid, ho⟩
      · exact hi.mapped id o ho
      · rw [hout' id hid] at ho
        cases ho

/-! ### Placeholders and reordering -/

theorem nonTool_placeholders (ids : List String) : nonTool (ids.map chatPlaceholder) = [] := by
  simp [nonTool, chatPlaceholder]

theorem resultsIn_placeholders (ids : List String) (h : ids.Nodup) (id : String) :
    resultsIn (ids.map chatPlaceholder) id = if id ∈ ids then [chatPlaceholder id] else [] := by
  induction ids with
  | nil => simp [resultsIn]
  | cons a ids ih =>
    obtain ⟨ha, hids⟩ := nodup_cons.mp h
    have hcons : (a :: ids).map chatPlaceholder = [chatPlaceholder a] ++ ids.map chatPlaceholder := rfl
    rw [hcons, resultsIn_append, resultsIn_singleton, ih hids]
    by_cases hid : id = a
    · subst hid
      simp [chatPlaceholder, ha]
    · have hne : a ≠ id := fun hc => hid hc.symm
      simp [chatPlaceholder, hid, hne]

theorem callId?_of_chatImage_eq_none (h : chatImage item = none) : callId? item = none := by
  cases item with
  | functionCall c => cases h
  | _ => rfl

theorem toolCallIds_chatImage : (chatImage item).toList.flatMap toolCallIds = (callId? item).toList := by
  cases h : chatImage item with
  | none => simp [callId?_of_chatImage_eq_none item h]
  | some v =>
    rcases chatImage_cases item v h with ⟨role, text, rfl, hcall⟩ | ⟨c, rfl, rfl⟩
    · simp [hcall]
    · simp [callId?]

theorem toolCallIds_images (items : List ResponseItem) :
    (items.filterMap chatImage).flatMap toolCallIds = callIds items := by
  induction items with
  | nil => rfl
  | cons item items ih =>
    have hspl : (item :: items).filterMap chatImage =
        (chatImage item).toList ++ items.filterMap chatImage := by
      cases h : chatImage item <;> simp [h]
    rw [hspl, flatMap_append, toolCallIds_chatImage, ih, ← callIds_singleton, ← callIds_append]
    rfl

theorem flatMap_images (R : String → List Value) (items : List ResponseItem)
    (h : ∀ pre c post, items = pre ++ .functionCall c :: post →
      R c.callId = chatResults c.callId (outputsFor c.callId post)) :
    ((items.filterMap chatImage).flatMap fun m => m :: (toolCallIds m).flatMap R) = chatMessages items := by
  induction items with
  | nil => rfl
  | cons item items ih =>
    have htail := ih fun pre c post heq => h (item :: pre) c post (by rw [heq]; rfl)
    unfold chatMessages
    rw [← htail]
    cases himage : chatImage item with
    | none => simp [himage, callId?_of_chatImage_eq_none item himage]
    | some v =>
      rcases chatImage_cases item v himage with ⟨role, text, rfl, hcall⟩ | ⟨c, rfl, rfl⟩
      · simp [himage, hcall]
      · simp [himage, callId?, h [] c items rfl]

theorem resultsIn_final (hi : LoopInv sys items acc) {ids : List String} (hids : ids.Perm acc.callsNeedingResult)
    (id : String) :
    resultsIn (acc.messages ++ ids.map chatPlaceholder) id =
      if id ∈ callIds items then chatResults id (outputsFor id (afterCall id items)) else [] := by
  have hmem : id ∈ ids ↔ id ∈ callIds items ∧ outputsFor id (afterCall id items) = [] :=
    hids.mem_iff.trans (hi.needing.mem_iff id)
  rw [resultsIn_append, hi.results id, resultsIn_placeholders ids (hids.nodup_iff.mpr hi.needing.nodup)]
  by_cases hc : id ∈ callIds items
  · by_cases ho : outputsFor id (afterCall id items) = []
    · simp [hmem, hc, ho, resultMessages, chatResults]
    · simp [hmem, hc, ho, resultMessages, chatResults]
  · simp [hmem, hc, resultMessages, afterCall_eq_nil id items hc, outputsFor]

theorem reorderToolMessages_final (hsys : ∀ m ∈ sys, toolCallIds m = []) (hi : LoopInv sys items acc)
    (hnd : (callIds items).Nodup) :
    reorderToolMessages env
        (acc.messages ++ (env.hashOrder acc.callsNeedingResult).map chatPlaceholder) =
      sys ++ chatMessages items := by
  generalize hids : env.hashOrder acc.callsNeedingResult = ids
  have hperm : ids.Perm acc.callsNeedingResult := hids ▸ env.perm _
  have hr : nonTool (acc.messages ++ ids.map chatPlaceholder) = sys ++ items.filterMap chatImage := by
    rw [nonTool_append, nonTool_placeholders, hi.images, append_nil]
  have hsys' : sys.flatMap toolCallIds = [] := by simpa using hsys
  have hcs : (sys ++ items.filterMap chatImage).flatMap toolCallIds = callIds items := by
    rw [flatMap_append, hsys', toolCallIds_images, nil_append]
  have hres := resultsIn_final hi hperm
  rw [reorderToolMessages_eq env _ (by rw [hr, hcs]; exact hnd), hr, flatMap_append]
  · congr 1
    · -- a message of `sys` makes no calls
      rw [flatMap_congr (g := fun m => [m]) fun m hm => by simp [hsys m hm]]
      simp
    · apply flatMap_images
      intro pre c post heq
      have hmem : c.callId ∈ callIds items := by
        rw [heq]
        exact mem_filterMap.mpr ⟨.functionCall c, by simp, rfl⟩
      rw [hres, if_pos hmem, afterCall_of_nodup hnd heq]
  · -- a tool message has its call in the input
    intro m hm id hid
    rw [hr, hcs]
    by_contra hno
    have hmem : m ∈ resultsIn (acc.messages ++ ids.map chatPlaceholder) id :=
      mem_filter.mpr ⟨hm, by simpa using hid⟩
    rw [hres, if_neg hno] at hmem
    cases hmem

/-! ## The request -/

theorem chatTools_messages (tools : Option (List Value)) (choice : String) (body body' : Value)
    (h : chatTools env tools choice body = .ok body') :
    body'.get "messages" = body.get "messages" := by
  cases tools with
  | none =>
    cases h
    rfl
  | some ts =>
    obtain ⟨tc, -, rfl⟩ := map_eq_ok h
    cases tc with
    | none => exact get_set_ne (by decide)
    | some tc =>
      rw [get_set_ne (by decide), get_set_ne (by decide)]

theorem applyFieldDowngrade_messages (body : Value) (req : ResponsesApiRequest) :
    (applyFieldDowngrade body req).get "messages" = body.get "messages" := by
  unfold applyFieldDowngrade
  cases (req.text.bind (·.format)).map textFormatValue with
  | none =>
    cases req.reasoning.bind (·.effort) with
    | none => rfl
    | some e => exact get_set_ne (by decide)
  | some fmt =>
    cases req.reasoning.bind (·.effort) with
    | none =>
      dsimp only
      split
      · exact get_set_ne (by decide)
      · rfl
    | some e =>
      dsimp only
      split
      · rw [get_set_ne (by decide), get_set_ne (by decide)]
      · exact get_set_ne (by decide)

theorem systemMessages_cases (m : Value) (h : m ∈ systemMessages req) :
    m = textMessage "system" req.instructions := by
  unfold systemMessages at h
  split at h
  · cases h
  · exact mem_singleton.mp h

theorem loopInv_input (acc : ChatAcc) (hnd : (callIds req.input).Nodup)
    (h : req.input.foldlM chatItem { messages := systemMessages req } = .ok acc) :
    LoopInv (systemMessages req) req.input acc := by
  have hsys : ∀ m ∈ systemMessages req, toolMessageId m = none := by
    intro m hm
    rw [systemMessages_cases req m hm]
    exact toolMessageId_textMessage _ _
  refine foldlM_invariant (LoopInv (systemMessages req)) req.input ?_ ?_ h
  · intro done x todo s s' heq hi hx
    refine hi.step (chatItem_step s s' x hx) fun id hid hm => ?_
    -- a second call with the id of an earlier one
    rw [heq, callIds_append] at hnd
    exact (nodup_append.mp hnd).2.2 id hm id
      (mem_filterMap.mpr ⟨x, mem_cons_self, hid⟩) rfl
  · refine ⟨by simp [callIds], ?_, fun id => ?_, .nil, by simp [afterCall, outputsFor]⟩
    · simpa [nonTool] using hsys
    · rw [afterCall, resultMessages, outputsFor, filterMap_nil, filterMap_nil, resultsIn, filter_eq_nil_iff]
      intro m hm
      simp [hsys m hm]

theorem chatBody_messages (req : ResponsesApiRequest) (acc : ChatAcc) (hnd : (callIds req.input).Nodup)
    (h : req.input.foldlM chatItem { messages := systemMessages req } = .ok acc) :
    chatBody env ctx req acc = .mkObj [("model", .string ctx.model),
        ("messages", .array (systemMessages req ++ chatMessages req.input)),
        ("stream", .bool true), ("stream_options", .mkObj [("include_usage", .bool true)]),
        ("parallel_tool_calls", .bool req.parallelToolCalls)] := by
  have hsys : ∀ m ∈ systemMessages req, toolCallIds m = [] := by
    intro m hm
    rw [systemMessages_cases req m hm]
    exact toolCallIds_textMessage _ _
  have hr := reorderToolMessages_final env hsys (loopInv_input req acc hnd h) hnd
  unfold chatBody
  simp only
  rw [← hr]
  rfl

theorem buildChatRequest_eq_ok (body : Value) (h : buildChatRequest env req ctx = .ok body) :
    ∃ tools acc body', mapTools env req.tools = .ok tools ∧
      req.input.foldlM chatItem { messages := systemMessages req } = .ok acc ∧
      chatTools env tools req.toolChoice (chatBody env ctx req acc) = .ok body' ∧
      applyFieldDowngrade body' req = body := by
  obtain ⟨tools, ht, h⟩ := bind_eq_ok h
  obtain ⟨acc, ha, h⟩ := bind_eq_ok h
  obtain ⟨body', hb, h⟩ := bind_eq_ok h
  exact ⟨tools, acc, body', ht, ha, hb, Except.ok.inj h⟩

theorem buildChatRequest_messages (body : Value) (hnd : (callIds req.input).Nodup)
    (h : buildChatRequest env req ctx = .ok body) :
    body.get "messages" = some (.array (systemMessages req ++ chatMessages req.input)) := by
  obtain ⟨tools, acc, body', -, ha, hb, rfl⟩ := buildChatRequest_eq_ok env req ctx body h
  rw [applyFieldDowngrade_messages, chatTools_messages env tools _ _ _ hb,
    chatBody_messages env ctx req acc hnd ha, get_mkObj]
  rfl

theorem buildChatRequest_hashOrder (order : List String → List String) (hperm : ∀ l, (order l).Perm l)
    (req : ResponsesApiRequest) (ctx : EgressCtx) (body : Value) (hnd : (callIds req.input).Nodup)
    (h : buildChatRequest env req ctx = .ok body) :
    buildChatRequest { env with hashOrder := order, perm := hperm } req ctx = .ok body := by
  obtain ⟨tools, acc, body', ht, ha, hb, rfl⟩ := buildChatRequest_eq_ok env req ctx body h
  rw [chatBody_messages env ctx req acc hnd ha] at hb
  have hb' := chatBody_messages { env with hashOrder := order, perm := hperm } ctx req acc hnd ha
  unfold buildChatRequest
  change (mapTools env req.tools >>= _) = _
  rw [ht]
  change (req.input.foldlM chatItem { messages := systemMessages req } >>= _) = _
  rw [ha]
  change (chatTools env tools req.toolChoice (chatBody _ ctx req acc) >>= _) = _
  rw [hb', hb]
  rfl

end LlmSwitch.ChatReq
