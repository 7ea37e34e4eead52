import Codez.Switch.ChatReq
import Codez.Switch.AnthropicReq

/-!
Routing by purpose (`lib.rs`, `purpose.rs`, `namespace.rs`).

A request of an internal sub-task goes to the provider its purpose is mapped to, unless
`requestHasNamespaceTools` finds a tool definition that is no function or a call with a namespace.
-/

namespace LlmSwitch

open Codex Fallible ChatReq AnthropicReq List

inductive Connector where
  | chat
  | anthropic
deriving DecidableEq

/-- The fields that reach a request; addresses and keys are left to the transport. -/
structure ProviderCfg where
  connector : Connector
  model : Option String := none
  defaultMaxTokens : Option Nat := none
  promptCache : Bool := false
deriving DecidableEq

structure Config where
  enabled : Bool
  providers : List (String × ProviderCfg)
  purpose : List (String × String)

structure Route where
  providerId : String
  cfg : ProviderCfg
deriving DecidableEq

inductive SubAgentSource where
  | review
  | compact
  | threadSpawn
  | memoryConsolidation
  | other (name : String)

inductive SessionSource where
  | cli
  | vscode
  | exec
  | mcp
  | custom (name : String)
  | internalMemoryConsolidation
  | subAgent (s : SubAgentSource)
  | unknown

inductive Purpose where
  | compact
  | review
  | memory
deriving DecidableEq

def Purpose.asKey : Purpose → String
  | .compact => "compact"
  | .review => "review"
  | .memory => "memory"

def purposeFromSource : SessionSource → Option Purpose
  | .subAgent .review => some .review
  | .subAgent .compact => some .compact
  | .subAgent .memoryConsolidation => some .memory
  | .internalMemoryConsolidation => some .memory
  | _ => none

def requestHasNamespaceTools (req : ResponsesApiRequest) : Bool :=
  (req.tools.any fun t => t.strField "type" ≠ some "function") ||
    req.input.any fun
      | .functionCall c => c.ns.isSome
      | _ => false

def purposeRoute (cfg : Config) (purpose : Option Purpose) (hasNsTools : Bool) : Option Route :=
  match purpose.bind fun p => cfg.purpose.lookup p.asKey with
  | none => none
  | some target =>
    match cfg.providers.lookup target with
    | none => none
    | some pc => if hasNsTools then none else some ⟨target, pc⟩

def routeIn (cfg : Config) (providerId : String) (purpose : Option Purpose) (hasNsTools : Bool) :
    Option Route :=
  if cfg.enabled then
    match purposeRoute cfg purpose hasNsTools with
    | some rt => some rt
    | none => (cfg.providers.lookup providerId).map fun p => ⟨providerId, p⟩
  else none

def hasNsTools (source : Option SessionSource) (req : ResponsesApiRequest) : Bool :=
  (source.bind purposeFromSource).isSome && requestHasNamespaceTools req

def route (cfg : Config) (providerId : String) (source : Option SessionSource)
    (req : ResponsesApiRequest) : Option Route :=
  routeIn cfg providerId (source.bind purposeFromSource) (hasNsTools source req)

def egressCtx (rt : Route) (req : ResponsesApiRequest) : EgressCtx :=
  { model := rt.cfg.model.getD req.model
    defaultMaxTokens := rt.cfg.defaultMaxTokens
    promptCache := rt.cfg.promptCache }

def buildRequest (env : BuildEnv) (connector : Connector) (req : ResponsesApiRequest)
    (ctx : EgressCtx) : Except ConnError Value :=
  match connector with
  | .chat => buildChatRequest env req ctx
  | .anthropic => buildAnthropicRequest env req ctx

def argsOk (serde : Serde) : Connector → String → Bool
  | .chat => fun _ => true
  | .anthropic => serde.accepts

/-- **When a request can be built**, whatever the connector. -/
theorem decides_buildRequest (env : BuildEnv) (connector : Connector) (req : ResponsesApiRequest)
    (ctx : EgressCtx) :
    Decides IsHardFail (requestCauses (argsOk env.serde connector) env.serde req = [])
      (buildRequest env connector req ctx) := by
  cases connector with
  | chat => exact decides_buildChatRequest env req ctx
  | anthropic => exact decides_buildAnthropicRequest env req ctx

theorem exists_of_mem_inputCauses (argsOk : String → Bool) (cause : HardFailCause)
    (items : List ResponseItem) (seen : List String) (h : cause ∈ inputCauses argsOk seen items) :
    ∃ item ∈ items, ∃ seen', cause ∈ itemCauses argsOk seen' item := by
  induction items generalizing seen with
  | nil => simp [inputCauses] at h
  | cons item items ih =>
    rcases mem_append.mp h with h | h
    · exact ⟨item, mem_cons_self, seen, h⟩
    · obtain ⟨it, hit, hs⟩ := ih _ h
      exact ⟨it, mem_cons_of_mem _ hit, hs⟩

theorem outputCauses_image_or_encrypted (body : FunctionCallOutputBody) (cause : HardFailCause)
    (h : cause ∈ outputCauses body) : cause = .imageContent ∨ cause = .encryptedContent := by
  cases body with
  | text t => simp [outputCauses] at h
  | contentItems items =>
    obtain ⟨c, _, hc⟩ := mem_flatMap.mp h
    cases c with
    | inputText t => simp [outputItemCauses] at hc
    | inputImage u => exact .inl (by simpa [outputItemCauses] using hc)
    | encryptedContent t => exact .inr (by simpa [outputItemCauses] using hc)

theorem itemCauses_cases (argsOk : String → Bool) (seen : List String) (item : ResponseItem)
    (cause : HardFailCause) (h : cause ∈ itemCauses argsOk seen item) :
    cause ≠ .toolDefinition ∧
      (cause = .namespacedCall → ∃ c, item = .functionCall c ∧ c.ns.isSome = true) := by
  cases item with
  | message m | agentMessage m =>
    simp only [itemCauses] at h
    split at h <;> simp at h
    simp [h]
  | functionCall c =>
    rcases mem_append.mp h with h | h
    · split at h
      · next hns =>
        rw [mem_singleton.mp h]
        exact ⟨by simp, fun _ => ⟨c, rfl, hns⟩⟩
      · simp at h
    · split at h <;> simp at h
      simp [h]
  | functionCallOutput o =>
    simp only [itemCauses] at h
    split at h
    · rcases outputCauses_image_or_encrypted _ _ h with rfl | rfl <;> simp
    · simp at h
  | reasoning | compactionTrigger => simp [itemCauses] at h
  | _ =>
    rw [mem_singleton.mp h]
    simp

theorem not_mem_causes_of_precheck (argsOk : String → Bool) (serde : Serde)
    (req : ResponsesApiRequest) (h : requestHasNamespaceTools req = false) :
    .toolDefinition ∉ requestCauses argsOk serde req ∧ .namespacedCall ∉ requestCauses argsOk serde req := by
  simp only [requestHasNamespaceTools, Bool.or_eq_false_iff, any_eq_false] at h
  have htools : req.tools.all isFunctionTool = true := by
    rw [all_eq_true]
    intro t ht
    simpa [isFunctionTool] using h.1 t ht
  have hinput : ∀ cause ∈ inputCauses argsOk [] req.input,
      cause ≠ .toolDefinition ∧ cause ≠ .namespacedCall := by
    intro cause hm
    obtain ⟨item, hi, seen, hc⟩ := exists_of_mem_inputCauses argsOk cause req.input [] hm
    obtain ⟨hdef, hns⟩ := itemCauses_cases argsOk seen item cause hc
    refine ⟨hdef, fun he => ?_⟩
    obtain ⟨c, rfl, hsome⟩ := hns he
    exact absurd hsome (h.2 _ hi)
  unfold requestCauses
  rw [if_pos htools, nil_append]
  constructor
  · intro hm
    rcases mem_append.mp hm with hm | hm
    · exact (hinput _ hm).1 rfl
    · split at hm <;> simp at hm
  · intro hm
    rcases mem_append.mp hm with hm | hm
    · exact (hinput _ hm).2 rfl
    · split at hm <;> simp at hm

theorem purposeRoute_hasNsTools (cfg : Config) (purpose : Option Purpose) (ns : Bool) (rt : Route)
    (h : purposeRoute cfg purpose ns = some rt) : purpose.isSome = true ∧ ns = false := by
  unfold purposeRoute at h
  cases purpose with
  | none => simp at h
  | some p =>
    refine ⟨rfl, ?_⟩
    split at h
    · cases h
    · split at h
      · cases h
      · cases ns with
        | true => simp at h
        | false => rfl

/-- **Purpose routing.**  When a request is sent to its purpose's provider, that provider's
builder does not meet a tool definition that is no function or a call with a namespace.
It fails exactly when the request has another cause: an item, an image or encrypted content
the protocol has no place for, a tool choice it cannot express, or (Anthropic) arguments
that are not JSON. -/
theorem purposeRoute_hardFails_iff (cfg : Config) (providerId : String)
    (source : Option SessionSource) (req : ResponsesApiRequest) (rt : Route) (env : BuildEnv)
    (he : cfg.enabled = true)
    (h : purposeRoute cfg (source.bind purposeFromSource) (hasNsTools source req) = some rt) :
    route cfg providerId source req = some rt ∧
      .toolDefinition ∉ requestCauses (argsOk env.serde rt.cfg.connector) env.serde req ∧
      .namespacedCall ∉ requestCauses (argsOk env.serde rt.cfg.connector) env.serde req ∧
      (HardFails (buildRequest env rt.cfg.connector req (egressCtx rt req)) ↔
        ∃ cause ∈ requestCauses (argsOk env.serde rt.cfg.connector) env.serde req,
          cause = .arguments ∨ cause = .unsupportedItem ∨ cause = .imageContent ∨
            cause = .encryptedContent ∨ cause = .toolChoice) := by
  obtain ⟨hp, hns⟩ := purposeRoute_hasNsTools cfg _ _ rt h
  have hpre : requestHasNamespaceTools req = false := by
    simpa [hasNsTools, hp] using hns
  obtain ⟨hdef, hcall⟩ := not_mem_causes_of_precheck (argsOk env.serde rt.cfg.connector)
    env.serde req hpre
  refine ⟨by simp [route, routeIn, he, h], hdef, hcall, ?_⟩
  unfold HardFails
  rw [(decides_buildRequest env rt.cfg.connector req (egressCtx rt req)).fails_iff]
  constructor
  · intro hne
    obtain ⟨cause, hm⟩ := exists_mem_of_ne_nil _ hne
    refine ⟨cause, hm, ?_⟩
    cases cause with
    | toolDefinition => exact absurd hm hdef
    | namespacedCall => exact absurd hm hcall
    | _ => simp
  · rintro ⟨cause, hm, _⟩
    exact ne_nil_of_mem hm

def reviewCfg : Config where
  enabled := true
  providers := [("cheap", { connector := .chat })]
  purpose := [("review", "cheap")]

theorem purposeRoute_review_message : let req : ResponsesApiRequest :=
      { input := [.message { role := "user", content := [.inputText "review this"] }] }
    route reviewCfg "main" (some (.subAgent .review)) req = some ⟨"cheap", { connector := .chat }⟩ ∧
      ¬ HardFails (buildRequest plainEnv .chat req
        (egressCtx ⟨"cheap", { connector := .chat }⟩ req)) := by
  intro req
  obtain ⟨hr, _, _, hf⟩ := purposeRoute_hardFails_iff reviewCfg "main" (some (.subAgent .review)) req
    ⟨"cheap", { connector := .chat }⟩ plainEnv rfl (by decide)
  refine ⟨hr, fun h => ?_⟩
  obtain ⟨cause, hm, _⟩ := hf.mp h
  have hnil : requestCauses (argsOk plainEnv.serde .chat) plainEnv.serde req = [] := by decide
  rw [hnil] at hm
  cases hm

theorem purposeRoute_webSearch_hardFails :
    let req : ResponsesApiRequest := { input := [.webSearchCall none (some "completed")] }
    let rt : Route := ⟨"cheap", { connector := .chat }⟩
    purposeRoute reviewCfg (some .review) (hasNsTools (some (.subAgent .review)) req) = some rt ∧
      route reviewCfg "main" (some (.subAgent .review)) req = some rt ∧
      HardFails (buildRequest plainEnv rt.cfg.connector req (egressCtx rt req)) :=
  ⟨by decide, by decide, .hardFail "WebSearchCall not supported in v1 chat connector", by rfl, _, rfl⟩

end LlmSwitch
