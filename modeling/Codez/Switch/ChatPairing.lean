import Codez.Switch.ChatMessages

/-!
Calls and results in a chat request.

A request is a list of blocks: a message and, if it is a call, its results (`messages_eq_blocks`).
-/

namespace LlmSwitch.ChatReq

open Codex Fallible Run List

def answers (items : List ResponseItem) (id : String) : List Value :=
  chatResults id (outputsFor id (afterCall id items))

def withResults (R : String → List Value) (m : Value) : List Value :=
  m :: (toolCallIds m).flatMap R

variable (req : ResponsesApiRequest)

theorem messages_eq_blocks (hnd : (callIds req.input).Nodup) :
    systemMessages req ++ chatMessages req.input =
      (systemMessages req ++ req.input.filterMap chatImage).flatMap
        (withResults (answers req.input)) := by
  have himages := flatMap_images (answers req.input) req.input fun pre c post heq => by
    rw [answers, afterCall_of_nodup hnd heq]
  have hsys : (systemMessages req).flatMap (withResults (answers req.input)) = systemMessages req := by
    unfold systemMessages
    split
    · rfl
    · have hids := toolCallIds_textMessage "system" req.instructions
      unfold textMessage at hids
      simp [withResults, hids]
  rw [flatMap_append, hsys, ← himages]
  rfl

theorem head_cases (m : Value)
    (h : m ∈ systemMessages req ++ req.input.filterMap chatImage) :
    (∃ role text, m = textMessage role text) ∨ ∃ c, c.callId ∈ callIds req.input ∧ m = callMessage c := by
  rcases mem_append.mp h with h | h
  · exact .inl ⟨_, _, systemMessages_cases req m h⟩
  · obtain ⟨item, hit, himage⟩ := mem_filterMap.mp h
    rcases chatImage_cases item m himage with ⟨role, text, rfl, -⟩ | ⟨c, rfl, rfl⟩
    · exact .inl ⟨role, text, rfl⟩
    · exact .inr ⟨c, mem_filterMap.mpr ⟨_, hit, rfl⟩, rfl⟩

theorem mem_chatResults (id : String) (os : List FunctionCallOutputPayload) (m : Value)
    (h : m ∈ chatResults id os) : ∃ text, m = chatToolMessage id text := by
  unfold chatResults at h
  split at h
  · exact ⟨_, mem_singleton.mp h⟩
  · obtain ⟨o, -, ho⟩ := mem_filterMap.mp h
    cases hm : mapFunctionCallOutput id o with
    | error e =>
      rw [hm] at ho
      cases ho
    | ok v =>
      rw [hm] at ho
      obtain ⟨text, rfl⟩ := mapFunctionCallOutput_eq_ok id o v hm
      exact ⟨text, (Option.some.inj ho).symm⟩

theorem length_chatResults (id : String) (os : List FunctionCallOutputPayload)
    (h : ∀ o ∈ os, ∃ v, mapFunctionCallOutput id o = .ok v) :
    (chatResults id os).length = max 1 os.length := by
  have hlen : (os.filterMap fun o => (mapFunctionCallOutput id o).toOption).length = os.length := by
    rw [length_filterMap_eq_countP, countP_eq_length]
    intro o ho
    obtain ⟨v, hv⟩ := h o ho
    rw [hv]
    rfl
  unfold chatResults
  split
  · next hos => simp [hos]
  · next hos =>
    have hpos : 0 < os.length := length_pos_iff.mpr hos
    rw [hlen]
    omega

structure ChatPaired (req : ResponsesApiRequest) (messages : List Value) : Prop where
  /-- A message with calls is followed by the tool messages of its id, which stand nowhere else:
  at least one, and only one when there is at most one output behind the call. -/
  followed : ∀ pre msg post, messages = pre ++ msg :: post → (msg.get "tool_calls").isSome →
    ∃ id results rest, toolCallIds msg = [id] ∧ post = results ++ rest ∧ results ≠ [] ∧
      (∀ m ∈ results, toolMessageId m = some id) ∧
      (∀ m ∈ pre ++ rest, m.strField "tool_call_id" ≠ some id) ∧
      ((outputsFor id (afterCall id req.input)).length ≤ 1 → results.length = 1)
  /-- A message with a `tool_call_id` stands among the tool messages behind the call. -/
  behind : ∀ pre msg post, messages = pre ++ msg :: post → (msg.get "tool_call_id").isSome →
    ∃ id pre' call results, toolMessageId msg = some id ∧ pre = pre' ++ call :: results ∧
      toolCallIds call = [id] ∧ ∀ m ∈ results, toolMessageId m = some id
  others : (messages.filter fun m => (m.get "tool_call_id").isNone) =
    systemMessages req ++ req.input.filterMap chatImage

open Value

@[simp] theorem get_tool_calls_textMessage (role text : String) :
    (textMessage role text).get "tool_calls" = none := by
  simp [textMessage, get_mkObj, List.lookup]

@[simp] theorem get_tool_call_id_textMessage (role text : String) :
    (textMessage role text).get "tool_call_id" = none := by
  simp [textMessage, get_mkObj, List.lookup]

@[simp] theorem get_tool_call_id_callMessage (c : FunctionCall) :
    (callMessage c).get "tool_call_id" = none := by
  simp [callMessage, get_mkObj, List.lookup]

@[simp] theorem get_tool_calls_chatToolMessage (id text : String) :
    (chatToolMessage id text).get "tool_calls" = none := by
  simp [chatToolMessage, get_mkObj, List.lookup]

@[simp] theorem get_tool_call_id_chatToolMessage (id text : String) :
    (chatToolMessage id text).get "tool_call_id" = some (.string id) := by
  simp [chatToolMessage, get_mkObj, List.lookup]

theorem get_tool_call_id_head (m : Value)
    (h : m ∈ systemMessages req ++ req.input.filterMap chatImage) : m.get "tool_call_id" = none := by
  rcases head_cases req m h with ⟨role, text, rfl⟩ | ⟨c, -, rfl⟩ <;> simp

theorem id_mem_of_mem_blocks (items : List ResponseItem)
    (heads : List Value) (hheads : heads ⊆ systemMessages req ++ req.input.filterMap chatImage)
    (m : Value) (hm : m ∈ heads.flatMap (withResults (answers items))) (id : String)
    (hid : m.strField "tool_call_id" = some id) : id ∈ heads.flatMap toolCallIds := by
  obtain ⟨a, ha, hm⟩ := mem_flatMap.mp hm
  rcases mem_cons.mp hm with rfl | hm
  · rw [strField, get_tool_call_id_head req m (hheads ha)] at hid
    cases hid
  · obtain ⟨id', hid', hm⟩ := mem_flatMap.mp hm
    obtain ⟨text, rfl⟩ := mem_chatResults id' _ m hm
    have heq : id' = id := by simpa [strField, asStr] using hid
    exact mem_flatMap.mpr ⟨a, ha, heq ▸ hid'⟩

theorem toolCallIds_heads :
    (systemMessages req ++ req.input.filterMap chatImage).flatMap toolCallIds = callIds req.input := by
  have hsys : (systemMessages req).flatMap toolCallIds = [] := by
    rw [flatMap_eq_nil_iff]
    intro m hm
    rw [systemMessages_cases req m hm]
    exact toolCallIds_textMessage _ _
  rw [flatMap_append, hsys, toolCallIds_images, nil_append]

theorem mem_answers {items : List ResponseItem} {id : String} {m : Value} (hm : m ∈ answers items id) :
    ∃ text, m = chatToolMessage id text := mem_chatResults id _ m hm

theorem tool_call_id_ne_of_mem_other_blocks (hnd : (callIds req.input).Nodup)
    {l r : List Value} {c : FunctionCall}
    (hheads : systemMessages req ++ req.input.filterMap chatImage = l ++ callMessage c :: r) {m : Value}
    (hm : m ∈ l.flatMap (withResults (answers req.input)) ++ r.flatMap (withResults (answers req.input))) :
    m.strField "tool_call_id" ≠ some c.callId := by
  intro hid
  have hnd' : (l.flatMap toolCallIds ++ c.callId :: r.flatMap toolCallIds).Nodup := by
    rw [← toolCallIds_heads, hheads] at hnd
    simpa using hnd
  rw [nodup_append, nodup_cons] at hnd'
  rcases mem_append.mp hm with hm | hm
  · have hmem := id_mem_of_mem_blocks req req.input l (fun x hx => by rw [hheads]; simp [hx]) m hm _ hid
    exact hnd'.2.2 _ hmem _ mem_cons_self rfl
  · have hmem := id_mem_of_mem_blocks req req.input r (fun x hx => by rw [hheads]; simp [hx]) m hm _ hid
    exact hnd'.2.1.1 hmem

theorem filter_blocks :
    (((systemMessages req ++ req.input.filterMap chatImage).flatMap (withResults (answers req.input))).filter
      fun m => (m.get "tool_call_id").isNone) = systemMessages req ++ req.input.filterMap chatImage := by
  rw [filter_flatMap, flatMap_congr (g := fun m => [m])]
  · simp
  · intro m hm
    have hres : ((toolCallIds m).flatMap (answers req.input)).filter
        (fun v => (v.get "tool_call_id").isNone) = [] := by
      rw [filter_eq_nil_iff]
      intro v hv
      obtain ⟨id, -, hv⟩ := mem_flatMap.mp hv
      obtain ⟨text, rfl⟩ := mem_answers hv
      simp
    rw [withResults, filter_cons_of_pos (by simp [get_tool_call_id_head req m hm]), hres]

theorem chatPaired_blocks (hnd : (callIds req.input).Nodup)
    (hmapped : ∀ id, ∀ o ∈ outputsFor id (afterCall id req.input), ∃ v, mapFunctionCallOutput id o = .ok v) :
    ChatPaired req ((systemMessages req ++ req.input.filterMap chatImage).flatMap
      (withResults (answers req.input))) := by
  constructor
  case followed =>
    intro pre msg post heq hcs
    obtain ⟨l, a, r, bpre, bpost, hheads, hblock, rfl, rfl⟩ :=
      flatMap_eq_append_cons _ _ _ _ _ heq
    have ha : a ∈ systemMessages req ++ req.input.filterMap chatImage := by rw [hheads]; simp
    cases bpre with
    | cons b bpre =>
      -- a result makes no calls
      have hmem : msg ∈ (toolCallIds a).flatMap (answers req.input) := by
        rw [(List.cons.inj hblock).2]
        simp
      obtain ⟨id, -, hm⟩ := mem_flatMap.mp hmem
      obtain ⟨text, rfl⟩ := mem_answers hm
      simp at hcs
    | nil =>
      obtain ⟨rfl, rfl⟩ := List.cons.inj hblock
      rcases head_cases req a ha with ⟨role, text, rfl⟩ | ⟨c, hc, rfl⟩
      · simp at hcs
      · have hlen : (answers req.input c.callId).length = _ := length_chatResults c.callId _ (hmapped c.callId)
        refine ⟨c.callId, answers req.input c.callId, r.flatMap (withResults (answers req.input)),
          by simp, by simp, ?_, ?_, ?_, ?_⟩
        · intro hnil
          rw [hnil, length_nil] at hlen
          omega
        · intro m hm
          obtain ⟨text, rfl⟩ := mem_answers hm
          simp
        · intro m hm
          exact tool_call_id_ne_of_mem_other_blocks req hnd hheads (by simpa using hm)
        · intro hone
          omega
  case behind =>
    intro pre msg post heq hcarries
    obtain ⟨l, a, r, bpre, bpost, hheads, hblock, rfl, rfl⟩ :=
      flatMap_eq_append_cons _ _ _ _ _ heq
    have ha : a ∈ systemMessages req ++ req.input.filterMap chatImage := by rw [hheads]; simp
    cases bpre with
    | nil =>
      obtain ⟨rfl, -⟩ := List.cons.inj hblock
      simp [get_tool_call_id_head req a ha] at hcarries
    | cons b bpre =>
      obtain ⟨rfl, hr⟩ := List.cons.inj hblock
      rcases head_cases req a ha with ⟨role, text, rfl⟩ | ⟨c, hc, rfl⟩
      · simp at hr
      · have hrest' : answers req.input c.callId = bpre ++ msg :: bpost := by simpa using hr
        refine ⟨c.callId, l.flatMap (withResults (answers req.input)), callMessage c, bpre, ?_, rfl,
          by simp, ?_⟩
        · obtain ⟨text, rfl⟩ : ∃ text, msg = chatToolMessage c.callId text := mem_answers (by rw [hrest']; simp)
          simp
        · intro m hm
          obtain ⟨text, rfl⟩ : ∃ text, m = chatToolMessage c.callId text := mem_answers (by rw [hrest']; simp [hm])
          simp
  case others => exact filter_blocks req

def interleavedRequest : ResponsesApiRequest where
  input := [.functionCall { name := "shell", arguments := "\x7b\x7d", callId := "a" },
    .message { role := "user", content := [.inputText "go on"] },
    .functionCall { name := "shell", arguments := "\x7b\x7d", callId := "b" },
    .functionCallOutput ⟨"a", ⟨.text "done", none⟩⟩]

end LlmSwitch.ChatReq
