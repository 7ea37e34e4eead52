import Codez.Switch.AnthropicMessages
import Codez.Switch.ChatMessages

/-!
The two request builders side by side.

They accept the same requests, except that the Anthropic connector sends the arguments of a call as
a value and so needs them to be JSON (`buildAnthropicRequest_ok_iff`).
-/

namespace LlmSwitch

open Codex Fallible Run List

/-- **The two connectors accept the same requests**, up to arguments that are not JSON. -/
theorem buildAnthropicRequest_ok_iff (env : BuildEnv) (req : ResponsesApiRequest) (ctx : EgressCtx) :
    (∃ body, AnthropicReq.buildAnthropicRequest env req ctx = .ok body) ↔
      (∃ body, ChatReq.buildChatRequest env req ctx = .ok body) ∧
        ∀ c, .functionCall c ∈ req.input → env.serde.accepts c.arguments = true := by
  rw [(AnthropicReq.decides_buildAnthropicRequest env req ctx).ok_iff,
    (ChatReq.decides_buildChatRequest env req ctx).ok_iff, requestCauses_eq_nil_iff,
    requestCauses_eq_nil_iff, inputCauses_argsOk_eq_nil_iff]
  constructor
  · rintro ⟨ht, ⟨hi, hc⟩, htc⟩
    exact ⟨⟨ht, hi, htc⟩, hc⟩
  · rintro ⟨⟨ht, hi, htc⟩, hc⟩
    exact ⟨ht, ⟨hi, hc⟩, htc⟩

def Answered (items : List ResponseItem) : Prop :=
  ∀ pre c post, items = pre ++ .functionCall c :: post → outputsFor c.callId post ≠ []

open ChatReq AnthropicReq

theorem chatMessages_append (X Y : List ResponseItem) (h : ∀ id ∈ callIds X, outputsFor id Y = []) :
    chatMessages (X ++ Y) = chatMessages X ++ chatMessages Y := by
  induction X with
  | nil => rfl
  | cons x X ih =>
    have htail : ∀ id ∈ callIds X, outputsFor id Y = [] := by
      intro id hid
      refine h id ?_
      rw [← singleton_append, callIds_append]
      exact mem_append_right _ hid
    -- the results of the first item's call all lie in `X`
    have hres : ((callId? x).toList.flatMap fun id =>
        chatResults id (outputsFor id (X ++ Y))) =
        (callId? x).toList.flatMap fun id => chatResults id (outputsFor id X) := by
      cases hx : callId? x with
      | none => rfl
      | some id =>
        have hid : id ∈ callIds (x :: X) := mem_filterMap.mpr ⟨x, mem_cons_self, hx⟩
        simp [h id hid]
    rw [cons_append, chatMessages, chatMessages, ih htail, hres]
    simp

theorem Needing.eq_nil_of_answered {items : List ResponseItem} {needing : List String}
    (h : Needing items needing) (hnd : (callIds items).Nodup) (ha : Answered items) :
    needing = [] := by
  rw [eq_nil_iff_forall_not_mem]
  intro id hid
  obtain ⟨hcall, hout⟩ := (h.mem_iff id).mp hid
  obtain ⟨item, hit, hc⟩ := mem_filterMap.mp hcall
  obtain ⟨pre, post, rfl⟩ := append_of_mem hit
  cases item with
  | functionCall c =>
    obtain rfl : c.callId = id := Option.some.inj hc
    rw [afterCall_of_nodup hnd rfl] at hout
    exact ha pre c post rfl hout
  | _ => cases hc

/-- **Requests grow with their conversation.**  `X` is a conversation all of whose calls are
answered, `Y` what comes after it.  The chat messages are a prefix of the longer list; of the
Anthropic messages only the last one may get more blocks.  Neighbouring Anthropic messages
never have the same role. -/
theorem requests_grow (env : BuildEnv) (req : ResponsesApiRequest) (ctx : EgressCtx)
    (X Y : List ResponseItem) (hnd : (callIds (X ++ Y)).Nodup) (hans : Answered X)
    (hlate : ∀ id ∈ callIds X, outputsFor id Y = []) :
    (∀ body body', buildChatRequest env { req with input := X } ctx = .ok body →
      buildChatRequest env { req with input := X ++ Y } ctx = .ok body' →
      ∃ ms ms', body.get "messages" = some (.array ms) ∧ body'.get "messages" = some (.array ms') ∧
        ms <+: ms') ∧
    (∀ body body', buildAnthropicRequest env { req with input := X } ctx = .ok body →
      buildAnthropicRequest env { req with input := X ++ Y } ctx = .ok body' →
      ∃ ms ms', body.get "messages" = some (.array ms) ∧ body'.get "messages" = some (.array ms') ∧
        (ms = [] ∨ ∃ init role blocks more rest, ms = init ++ [turnMessage (role, blocks)] ∧
            ms' = init ++ turnMessage (role, blocks ++ more) :: rest) ∧
        (ms.IsChain fun a b => roleOf a ≠ roleOf b) ∧
        ms'.IsChain fun a b => roleOf a ≠ roleOf b) := by
  have hX : (callIds X).Nodup := by
    rw [callIds_append] at hnd
    exact (nodup_append.mp hnd).1
  constructor
  · intro body body' h h'
    refine ⟨_, _, buildChatRequest_messages env _ ctx body hX h,
      buildChatRequest_messages env _ ctx body' hnd h', ?_⟩
    rw [chatMessages_append X Y hlate, ← append_assoc]
    exact prefix_append _ _
  · intro body body' h h'
    obtain ⟨needing, hneed, -, hms⟩ :=
      buildAnthropicRequest_messages env _ ctx body hX h
    obtain ⟨needing', -, -, hms'⟩ :=
      buildAnthropicRequest_messages env _ ctx body' hnd h'
    rw [hneed.eq_nil_of_answered hX hans, map_nil, append_nil] at hms
    refine ⟨_, _, hms, hms', ?_, isChain_messages _, isChain_messages _⟩
    have hsplit : inputBlocks env [] (X ++ Y) ++ needing'.map anthropicPlaceholder =
        inputBlocks env [] X ++ (inputBlocks env (X.foldl seenAfter []) Y ++
            needing'.map anthropicPlaceholder) := by
      rw [inputBlocks, emit_append, append_assoc]
      rfl
    rw [hsplit]
    rcases Grouping.grows_group_append (inputBlocks env [] X)
        (inputBlocks env (X.foldl seenAfter []) Y ++
          needing'.map anthropicPlaceholder) with
      hnil | ⟨init, ⟨role, blocks⟩, g', rest, hg, hg', rfl, more, hmore⟩
    · exact .inl (by rw [hnil]; rfl)
    · obtain ⟨role', blocks'⟩ := g'
      obtain rfl : blocks ++ more = blocks' := hmore
      exact .inr ⟨init.map turnMessage, role', blocks, more,
        rest.map turnMessage, by rw [hg]; simp, by rw [hg']; simp⟩

def answeredTurn : List ResponseItem :=
  [.functionCall { name := "shell", arguments := "\x7b\x7d", callId := "a" },
    .functionCallOutput ⟨"a", ⟨.text "done", none⟩⟩]

def nextTurn : List ResponseItem :=
  [.message { role := "user", content := [.inputText "go on"] },
    .functionCall { name := "shell", arguments := "\x7b\x7d", callId := "b" }]

theorem requests_grow_nextTurn :
    ∃ body body', buildAnthropicRequest plainEnv { input := answeredTurn } { model := "m" } =
        .ok body ∧
      buildAnthropicRequest plainEnv { input := answeredTurn ++ nextTurn } { model := "m" } =
        .ok body' ∧
      ∃ ms ms', body.get "messages" = some (.array ms) ∧ body'.get "messages" = some (.array ms') ∧
        (ms = [] ∨ ∃ init role blocks more rest, ms = init ++ [turnMessage (role, blocks)] ∧
            ms' = init ++ turnMessage (role, blocks ++ more) :: rest) ∧
        (ms.IsChain fun a b => roleOf a ≠ roleOf b) ∧
        ms'.IsChain fun a b => roleOf a ≠ roleOf b := by
  obtain ⟨body, h⟩ := (decides_buildAnthropicRequest plainEnv { input := answeredTurn }
    { model := "m" }).ok_iff.mpr (by decide)
  obtain ⟨body', h'⟩ := (decides_buildAnthropicRequest plainEnv
    { input := answeredTurn ++ nextTurn } { model := "m" }).ok_iff.mpr (by decide)
  refine ⟨body, body', h, h', (requests_grow plainEnv {} { model := "m" } answeredTurn nextTurn
    (by decide) ?_ (by decide)).2 body body' h h'⟩
  intro pre c post heq
  rcases pre with _ | ⟨x, _ | ⟨y, pre⟩⟩
  · cases heq
    simp [outputsFor, outputFor]
  · cases heq
  · simp [answeredTurn] at heq

end LlmSwitch
