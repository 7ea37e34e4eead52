import Codez.Switch.ChatSse
import Codez.Switch.AnthropicSse
import Codez.Switch.Route

/-!
What a connector reads back, it sends again with the next request.

The items a response completes are calls without a namespace and plain assistant text, so that of
the causes of failure only one is left: arguments that are not JSON.
-/

namespace LlmSwitch

open Codex Fallible List

def readResponse (serde : Serde) (connector : Connector) (vs : List Value) :
    Except ConnError (List ResponseEvent) :=
  match connector with
  | .chat => (chatSse serde).translate vs true
  | .anthropic => (anthropicSse serde).translate vs true

def IsPlainOutput (item : ResponseItem) : Prop :=
  ∃ callId text success, item = .functionCallOutput ⟨callId, ⟨.text text, success⟩⟩

def ExtendsWith (items ext : List ResponseItem) : Prop :=
  (∀ x ∈ items, x ∈ ext) ∧ ∀ x ∈ ext, x ∈ items ∨ IsPlainOutput x

def extendInput (req : ResponsesApiRequest) (ext : List ResponseItem) : ResponsesApiRequest :=
  { req with input := req.input ++ ext }

def ArgumentsComplete (serde : Serde) (connector : Connector) (vs : List Value) : Prop :=
  match connector with
  | .chat => True
  | .anthropic => ∀ i, blockIsTool i vs = true → blockJson i vs = "" ∨ serde.accepts (blockJson i vs) = true

def Sendable (item : ResponseItem) : Prop := ∀ seen, itemCauses (fun _ => true) seen item = []

theorem inputCauses_append (argsOk : String → Bool) (seen : List String) (a b : List ResponseItem) :
    inputCauses argsOk seen (a ++ b) =
      inputCauses argsOk seen a ++ inputCauses argsOk (a.foldl seenAfter seen) b := by
  induction a generalizing seen with
  | nil => rfl
  | cons x a ih => simp [inputCauses, ih]

theorem inputCauses_of_sendable (argsOk : String → Bool) (ext : List ResponseItem)
    (h : ∀ x ∈ ext, Sendable x) (seen : List String) :
    inputCauses argsOk seen ext = [] ↔ ∀ c, .functionCall c ∈ ext → argsOk c.arguments = true := by
  have hnil : ∀ seen, inputCauses (fun _ => true) seen ext = [] := by
    induction ext with
    | nil => exact fun _ => rfl
    | cons x ext ih =>
      intro seen
      rw [inputCauses, h x mem_cons_self seen, ih (forall_mem_cons.mp h).2]
      rfl
  exact (inputCauses_argsOk_eq_nil_iff argsOk seen ext).trans (and_iff_right (hnil seen))

theorem sendable_of_isPlainOutput (item : ResponseItem) (h : IsPlainOutput item) : Sendable item := by
  obtain ⟨cid, text, success, rfl⟩ := h
  intro seen
  simp [itemCauses, outputCauses]

theorem sendable_of_mem_finishItems (n : Nat) (accs : List ToolAcc) (text : String)
    (item : ResponseItem) (h : item ∈ finishItems (finishCalls n accs).1 text) : Sendable item := by
  intro seen
  rcases mem_append.mp h with h | h
  · obtain ⟨c, hc, rfl⟩ := mem_map.mp h
    simp [itemCauses, finishCalls_ns n accs c hc]
  · split at h
    · simp at h
    · rw [mem_singleton.mp h]
      simp [assistantMessage, itemCauses, isImage]

theorem functionCall_mem_finishItems (calls : List FunctionCall) (text : String) (c : FunctionCall) :
    .functionCall c ∈ finishItems calls text ↔ c ∈ calls := by
  unfold finishItems
  split <;> simp [assistantMessage]

theorem forall_arguments_finishCalls (n : Nat) (accs : List ToolAcc) (P : String → Prop) :
    (∀ c ∈ (finishCalls n accs).1, P c.arguments) ↔ ∀ a ∈ accs, P a.arguments :=
  calc (∀ c ∈ (finishCalls n accs).1, P c.arguments)
      ↔ ∀ s ∈ (finishCalls n accs).1.map (·.arguments), P s := forall_mem_map.symm
    _ ↔ ∀ s ∈ accs.map (·.arguments), P s := by rw [finishCalls_arguments]
    _ ↔ ∀ a ∈ accs, P a.arguments := forall_mem_map

section
variable {σ : Type} {T : SseTranslator σ} {err : Value → Bool} {delta : Value → Option String}

theorem translate_eq_ok (hT : T.EmitsText err delta) (vs : List Value) (evs : List ResponseEvent)
    (h : T.translate vs true = .ok evs) :
    ∃ st, (T.pushAll T.init vs).2 = .ok st ∧ doneItems evs = doneItems (T.finish st) := by
  have hev := hT.pushAll_events T.init vs
  unfold SseTranslator.translate at h
  cases hr : T.pushAll T.init vs with
  | mk live r =>
    rw [hr] at h hev
    cases r with
    | error e => cases h
    | ok st =>
      cases h
      refine ⟨st, rfl, ?_⟩
      dsimp only at hev
      rw [if_pos rfl, doneItems_append, hev, doneItems_deltas, nil_append]

end

variable (serde : Serde)

theorem chat_items (vs : List Value) (evs : List ResponseEvent) (h : (chatSse serde).translate vs true = .ok evs) :
    ∀ x ∈ doneItems evs, Sendable x := by
  obtain ⟨st, _, hi⟩ := translate_eq_ok (chatSse_emitsText serde) vs evs h
  intro x hx
  rw [hi] at hx
  simp only [chatSse, ChatSseState.finish, doneItems_finishWith] at hx
  exact sendable_of_mem_finishItems _ _ _ x hx

theorem anthropic_items (hnil : serde.accepts "\x7b\x7d" = true) (vs : List Value) (evs : List ResponseEvent)
    (h : (anthropicSse serde).translate vs true = .ok evs) :
    (∀ x ∈ doneItems evs, Sendable x) ∧
      ((∀ c, .functionCall c ∈ doneItems evs → serde.accepts c.arguments = true) ↔
        ArgumentsComplete serde .anthropic vs) := by
  obtain ⟨st, hst, hi⟩ := translate_eq_ok (anthropicSse_emitsText serde) vs evs h
  simp only [anthropicSse, AnthropicSseState.finish, doneItems_finishWith] at hi
  rw [hi]
  refine ⟨fun x hx => sendable_of_mem_finishItems _ _ _ x hx, ?_⟩
  simp only [functionCall_mem_finishItems]
  rw [forall_arguments_finishCalls _ _ fun s => serde.accepts s = true]
  have hblock : ∀ i, (st.block i).partialJson = blockJson i vs ∧
      (st.block i).isToolUse = blockIsTool i vs := by
    intro i
    simpa [AnthropicSseState.block, anthropicSse] using pushAll_block serde vs {} st hst i
  constructor
  · intro hall i hi'
    have htool : (st.block i).isToolUse = true := by rw [(hblock i).2, hi']
    have hc := hall _ ((mem_calls_iff st _).mpr ⟨i, by rw [BlockAcc.toCall, if_pos htool]⟩)
    simp only [(hblock i).1] at hc
    split at hc
    · next he => exact .inl he
    · exact .inr hc
  · intro hall t ht
    obtain ⟨i, hti⟩ := (mem_calls_iff st t).mp ht
    unfold BlockAcc.toCall at hti
    split at hti
    · next htool =>
      cases hti
      simp only [(hblock i).1]
      split
      · exact hnil
      · next hne => exact (hall i (by rw [← (hblock i).2, htool])).resolve_left hne
    · cases hti

theorem readResponse_items (hnil : serde.accepts "\x7b\x7d" = true) (connector : Connector) (vs : List Value)
    (evs : List ResponseEvent) (h : readResponse serde connector vs = .ok evs) :
    (∀ x ∈ doneItems evs, Sendable x) ∧
      ((∀ c, .functionCall c ∈ doneItems evs → argsOk serde connector c.arguments = true) ↔
        ArgumentsComplete serde connector vs) := by
  cases connector with
  | chat => exact ⟨chat_items serde vs evs h, by simp [argsOk, ArgumentsComplete]⟩
  | anthropic => exact anthropic_items serde hnil vs evs h

/-- **Replay.**  After a response that was read without error, the request extended by its
items and by plain outputs can still be built: always for chat, and for Anthropic exactly
when the argument fragments of every tool block are empty or form a JSON text. -/
theorem replay_iff (env : BuildEnv) (hempty : env.serde.accepts "\x7b\x7d" = true)
    (connector : Connector) (req : ResponsesApiRequest) (ctx : EgressCtx) (vs : List Value)
    (evs : List ResponseEvent) (ext : List ResponseItem)
    (hbefore : (buildRequest env connector req ctx).isOk = true)
    (hread : readResponse env.serde connector vs = .ok evs)
    (hext : ExtendsWith (doneItems evs) ext) :
    ¬ HardFails (buildRequest env connector (extendInput req ext) ctx) ↔
      ArgumentsComplete env.serde connector vs := by
  obtain ⟨hsend, hargs⟩ := readResponse_items env.serde hempty connector vs evs hread
  obtain ⟨hin, hout⟩ := hext
  have hsend' : ∀ x ∈ ext, Sendable x := by
    intro x hx
    rcases hout x hx with h | h
    · exact hsend x h
    · exact sendable_of_isPlainOutput x h
  -- the calls of the extension are the calls of the response
  have hcalls : ∀ c, .functionCall c ∈ ext ↔ .functionCall c ∈ doneItems evs := by
    refine fun c => ⟨fun hc => (hout _ hc).resolve_right ?_, hin _⟩
    rintro ⟨_, _, _, he⟩
    cases he
  rw [(decides_buildRequest env connector req ctx).isOk_iff, requestCauses_eq_nil_iff] at hbefore
  unfold HardFails
  rw [(decides_buildRequest env connector (extendInput req ext) ctx).fails_iff, not_not,
    requestCauses_eq_nil_iff, ← hargs]
  simp only [extendInput, inputCauses_append, hbefore.1, hbefore.2.1, hbefore.2.2, nil_append,
    true_and, and_true, inputCauses_of_sendable _ ext hsend', hcalls]

def toolBlockEvents (fs : List String) : List Value :=
  .mkObj [("type", .string "content_block_start"), ("index", .ofNat 0),
    ("content_block", .mkObj [("type", .string "tool_use"), ("id", .string "toolu_1"),
      ("name", .string "shell")])] ::
  fs.map fun f => .mkObj [("type", .string "content_block_delta"), ("index", .ofNat 0),
    ("delta", .mkObj [("type", .string "input_json_delta"), ("partial_json", .string f)])]

def toolBlockItems (arguments : String) : List ResponseItem :=
  [.functionCall { name := "shell", arguments := arguments, callId := "toolu_1" },
    .functionCallOutput ⟨"toolu_1", ⟨.text "ok", none⟩⟩]

theorem replay_tool_without_arguments : ¬ HardFails (buildRequest plainEnv .anthropic
      (extendInput {} (toolBlockItems "\x7b\x7d")) { model := "m" }) := by
  have hext : ExtendsWith [.functionCall { name := "shell", arguments := "\x7b\x7d", callId := "toolu_1" }]
      (toolBlockItems "\x7b\x7d") :=
    ⟨by simp [toolBlockItems], by simp [toolBlockItems, IsPlainOutput]⟩
  refine (replay_iff plainEnv (by decide) .anthropic {} { model := "m" } (toolBlockEvents [])
    [.outputItemDone (.functionCall { name := "shell", arguments := "\x7b\x7d", callId := "toolu_1" }),
      .completed "llmswitch-resp-1" (some ⟨0, 0, 0, 0, 0⟩) none] _ (by decide) (by rfl) hext).mpr ?_
  intro i _
  exact .inl rfl

theorem replay_cut_arguments_hardFails : (buildRequest plainEnv .anthropic {} { model := "m" }).isOk = true ∧
      readResponse plainEnv.serde .anthropic (toolBlockEvents ["\x7b", "\"cmd\""]) =
        .ok [.outputItemDone (.functionCall
            { name := "shell", arguments := "\x7b\"cmd\"", callId := "toolu_1" }),
          .completed "llmswitch-resp-1" (some ⟨0, 0, 0, 0, 0⟩) none] ∧
      HardFails (buildRequest plainEnv .anthropic
        (extendInput {} (toolBlockItems "\x7b\"cmd\"")) { model := "m" }) :=
  ⟨by decide, by rfl, .hardFail "FunctionCall arguments invalid JSON: expected value", by rfl, _, rfl⟩

end LlmSwitch
