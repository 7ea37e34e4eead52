import Codez.Lib.Fallible
import Codez.Switch.Translator

/-!
What the two request builders share, and what each of them cannot express.
-/

namespace LlmSwitch

open Codex Fallible Run List

structure EgressCtx where
  model : String
  defaultMaxTokens : Option Nat := none
  promptCache : Bool := false

/-- Library behaviour the builders rely on: `serde_json`, the `{:?}` text of a tool type, and
the order in which hash tables are walked, which may be any. -/
structure BuildEnv where
  serde : Serde
  debug : Option String → String
  hashOrder : List String → List String
  perm : ∀ l, (hashOrder l).Perm l

def plainEnv : BuildEnv where
  serde := ⟨fun s => if s = "\x7b\x7d" then .ok (.object []) else .error "expected value", fun _ => ""⟩
  debug t := t.getD "None"
  hashOrder l := l
  perm _ := List.Perm.refl _

def IsHardFail (e : ConnError) : Prop := ∃ msg, e = .hardFail msg

def HardFails (r : Except ConnError Value) : Prop := ∃ e, r = .error e ∧ IsHardFail e

theorem decides_hardFail {α : Type} {msg : String} {ok : Prop} (h : ¬ok) :
    Decides IsHardFail ok (.error (.hardFail msg) : Except ConnError α) :=
  .failure h ⟨msg, rfl⟩

def concatText {α : Type} (part : α → Except ConnError String) (l : List α) : Except ConnError String :=
  (l.mapM part).map fun ts => ts.foldl (· ++ ·) ""

def outputText (item : FunctionCallOutputContentItem → Except ConnError String) :
    FunctionCallOutputBody → Except ConnError String
  | .text t => .ok t
  | .contentItems items => concatText item items

/-- One tool definition: `convert` is how the protocol writes it, `limits` the end of the message. -/
def mapToolWith (env : BuildEnv) (convert : Value → Value) (limits : String) (t : Value) :
    Except ConnError Value :=
  if t.strField "type" = some "function" then .ok (convert t)
  else .error (.hardFail ("tool definition type " ++ env.debug (t.strField "type") ++ limits))

def mapToolsWith (env : BuildEnv) (convert : Value → Value) (limits : String) (tools : List Value) :
    Except ConnError (Option (List Value)) :=
  if tools = [] then .ok none else (tools.mapM (mapToolWith env convert limits)).map some

def toolParameters (t : Value) : Value := (t.get "parameters").getD (.mkObj [("type", .string "object")])

def mapToolChoiceWith (serde : Serde) (auto no required : Value) (named : Value → Value)
    (protocol tc : String) : Except ConnError (Option Value) :=
  if tc = "auto" then .ok (some auto)
  else if tc = "none" then .ok (some no)
  else if tc = "required" then .ok (some required)
  else if tc = "" then .ok none
  else
    match (serde.fromStr tc).toOption.bind fun v =>
      if v.strField "type" = some "function" then v.get "name" else none with
    | some name => .ok (some (named name))
    | none => .error (.hardFail ("tool_choice '" ++ tc ++ "' cannot be expressed in " ++ protocol ++ " protocol"))

def textFormatValue (f : TextFormat) : Value :=
  .mkObj [("type", .string "json_schema"), ("strict", .bool f.strict), ("schema", f.schema),
    ("name", .string f.name)]

def seenAfter (seen : List String) : ResponseItem → List String
  | .functionCall c => seen.insert c.callId
  | _ => seen

/-! ## Causes of failure -/

inductive HardFailCause where
  | toolDefinition
  | namespacedCall
  | arguments
  | unsupportedItem
  | imageContent
  | encryptedContent
  | toolChoice
deriving DecidableEq

def isImage : ContentItem → Bool
  | .inputImage _ => true
  | _ => false

def isEncrypted : AgentMessageInputContent → Bool
  | .encryptedContent _ => true
  | _ => false

def outputItemCauses : FunctionCallOutputContentItem → List HardFailCause
  | .inputText _ => []
  | .inputImage _ => [.imageContent]
  | .encryptedContent _ => [.encryptedContent]

def outputCauses : FunctionCallOutputBody → List HardFailCause
  | .text _ => []
  | .contentItems items => items.flatMap outputItemCauses

def itemCauses (argsOk : String → Bool) (seen : List String) : ResponseItem → List HardFailCause
  | .message m => if m.content.any isImage then [.imageContent] else []
  | .agentMessage m => if m.content.any isEncrypted then [.encryptedContent] else []
  | .functionCall c =>
    (if c.ns.isSome then [.namespacedCall] else []) ++ (if argsOk c.arguments then [] else [.arguments])
  | .functionCallOutput o => if o.callId ∈ seen then outputCauses o.output.body else []
  | .reasoning .. => []
  | .compactionTrigger => []
  | _ => [.unsupportedItem]

variable (argsOk : String → Bool) (id : String) {done : List ResponseItem} {l : List String} (env : BuildEnv)
  (convert : Value → Value) (limits : String)

theorem itemCauses_argsOk (seen : List String) (item : ResponseItem) : itemCauses argsOk seen item = [] ↔
      itemCauses (fun _ => true) seen item = [] ∧
        ∀ c, item = .functionCall c → argsOk c.arguments = true := by
  cases item with
  | functionCall c => simp [itemCauses]
  | _ => simp [itemCauses]

def inputCauses (argsOk : String → Bool) : List String → List ResponseItem → List HardFailCause
  | _, [] => []
  | seen, item :: items => itemCauses argsOk seen item ++ inputCauses argsOk (seenAfter seen item) items

theorem inputCauses_argsOk_eq_nil_iff (seen : List String) (items : List ResponseItem) :
    inputCauses argsOk seen items = [] ↔ inputCauses (fun _ => true) seen items = [] ∧
        ∀ c, .functionCall c ∈ items → argsOk c.arguments = true := by
  induction items generalizing seen with
  | nil => simp [inputCauses]
  | cons item items ih =>
    simp only [inputCauses, append_eq_nil_iff, ih, itemCauses_argsOk argsOk seen item, mem_cons]
    constructor
    · rintro ⟨⟨h1, hc1⟩, h2, hc2⟩
      refine ⟨⟨h1, h2⟩, fun c hc => ?_⟩
      rcases hc with hc | hc
      · exact hc1 c hc.symm
      · exact hc2 c hc
    · rintro ⟨⟨h1, h2⟩, hc⟩
      exact ⟨⟨h1, fun c he => hc c (.inl he.symm)⟩, h2, fun c hm => hc c (.inr hm)⟩

def isFunctionTool (t : Value) : Bool := t.strField "type" = some "function"

def choiceExpressible (serde : Serde) (tc : String) : Bool :=
  decide (tc ∈ ["auto", "none", "required", ""]) ||
    ((serde.fromStr tc).toOption.bind fun v =>
      if v.strField "type" = some "function" then v.get "name" else none).isSome

/-- Everything in the request that a connector cannot express; the tool choice is only looked
at when there are tools. -/
def requestCauses (argsOk : String → Bool) (serde : Serde) (req : ResponsesApiRequest) : List HardFailCause :=
  (if req.tools.all isFunctionTool then [] else [.toolDefinition]) ++ inputCauses argsOk [] req.input ++
    (if req.tools = [] ∨ choiceExpressible serde req.toolChoice then [] else [.toolChoice])

theorem inputCauses_eq_nil_iff (seen : List String) (items : List ResponseItem) :
    inputCauses argsOk seen items = [] ↔
      AllSteps (fun seen item => itemCauses argsOk seen item = []) seenAfter seen items := by
  induction items generalizing seen with
  | nil => simp [inputCauses, AllSteps]
  | cons item items ih => simp [inputCauses, AllSteps, ih]

theorem requestCauses_eq_nil_iff (serde : Serde) (req : ResponsesApiRequest) :
    requestCauses argsOk serde req = [] ↔
      req.tools.all isFunctionTool = true ∧ inputCauses argsOk [] req.input = [] ∧
        (req.tools = [] ∨ choiceExpressible serde req.toolChoice = true) := by
  unfold requestCauses
  simp only [append_eq_nil_iff, ite_eq_left_iff, cons_ne_nil, imp_false, Bool.not_eq_true,
    not_not, Bool.not_eq_false, and_assoc]

/-! ## Calls and their outputs -/

def callId? : ResponseItem → Option String
  | .functionCall c => some c.callId
  | _ => none

def callIds (items : List ResponseItem) : List String := items.filterMap callId?

def outputFor (id : String) : ResponseItem → Option FunctionCallOutputPayload
  | .functionCallOutput o => if o.callId = id then some o.output else none
  | _ => none

def outputsFor (id : String) (items : List ResponseItem) : List FunctionCallOutputPayload :=
  items.filterMap (outputFor id)

def afterCall (id : String) : List ResponseItem → List ResponseItem
  | [] => []
  | item :: items => if callId? item = some id then items else afterCall id items

@[simp] theorem callIds_append (xs ys : List ResponseItem) :
    callIds (xs ++ ys) = callIds xs ++ callIds ys := by
  simp [callIds]

@[simp] theorem callIds_singleton (x : ResponseItem) : callIds [x] = (callId? x).toList := by
  cases h : callId? x <;> simp [callIds, h]

theorem mem_foldl_seenAfter (seen : List String) (xs : List ResponseItem) :
    id ∈ xs.foldl seenAfter seen ↔ id ∈ seen ∨ id ∈ callIds xs := by
  induction xs using List.reverseRecOn with
  | nil => simp [callIds]
  | append_singleton xs x ih =>
    rw [foldl_append, callIds_append, callIds_singleton, mem_append, ← or_assoc, ← ih]
    cases x with
    | functionCall c => simp [seenAfter, callId?, or_comm]
    | _ => simp [seenAfter, callId?]

@[simp] theorem outputsFor_append (xs ys : List ResponseItem) :
    outputsFor id (xs ++ ys) = outputsFor id xs ++ outputsFor id ys := by
  simp [outputsFor]

theorem afterCall_snoc (xs : List ResponseItem) (x : ResponseItem) :
    afterCall id (xs ++ [x]) = if id ∈ callIds xs then afterCall id xs ++ [x] else [] := by
  induction xs with
  | nil => simp [afterCall, callIds]
  | cons y xs ih =>
    by_cases hy : callId? y = some id
    · simp [afterCall, hy, callIds]
    · simp only [cons_append, afterCall, if_neg hy, ih]
      have hm : id ∈ callIds (y :: xs) ↔ id ∈ callIds xs := by
        unfold callIds
        rw [mem_filterMap, mem_filterMap]
        simp [hy]
      simp only [hm]

theorem afterCall_append (pre post : List ResponseItem) (h : id ∉ callIds pre) :
    afterCall id (pre ++ post) = afterCall id post := by
  induction pre with
  | nil => rfl
  | cons y pre ih =>
    have hy : callId? y ≠ some id := fun hc => h (mem_filterMap.mpr ⟨y, mem_cons_self, hc⟩)
    rw [cons_append, afterCall, if_neg hy]
    apply ih
    intro hm
    obtain ⟨z, hz, hc⟩ := mem_filterMap.mp hm
    exact h (mem_filterMap.mpr ⟨z, mem_cons_of_mem _ hz, hc⟩)

theorem afterCall_eq_nil (xs : List ResponseItem) (h : id ∉ callIds xs) : afterCall id xs = [] := by
  have happ := afterCall_append id xs [] h
  rwa [append_nil] at happ

theorem outputsFor_afterCall_snoc (xs : List ResponseItem) (x : ResponseItem) :
    outputsFor id (afterCall id (xs ++ [x])) = outputsFor id (afterCall id xs) ++
      if id ∈ callIds xs then (outputFor id x).toList else [] := by
  rw [afterCall_snoc]
  split
  · rw [outputsFor_append]
    cases h : outputFor id x <;> simp [outputsFor, h]
  · next h => rw [afterCall_eq_nil id xs h, append_nil]

theorem afterCall_of_split (c : FunctionCall) (pre post : List ResponseItem)
    (h : c.callId ∉ callIds pre) : afterCall c.callId (pre ++ .functionCall c :: post) = post := by
  rw [afterCall_append _ _ _ h]
  simp [afterCall, callId?]

/-- `needing` are the calls of `done` that have no output behind them. -/
structure Needing (done : List ResponseItem) (needing : List String) : Prop where
  nodup : needing.Nodup
  mem_iff : ∀ id, id ∈ needing ↔ id ∈ callIds done ∧ outputsFor id (afterCall id done) = []

theorem Needing.nil : Needing [] [] := ⟨nodup_nil, by simp [callIds]⟩

theorem Needing.call {l' : List String} (h : Needing done l) (c : FunctionCall) (hfresh : c.callId ∉ callIds done)
    (hnd : l'.Nodup) (hl' : ∀ id, id ∈ l' ↔ id = c.callId ∨ id ∈ l) : Needing (done ++ [.functionCall c]) l' := by
  refine ⟨hnd, fun id => ?_⟩
  rw [hl', h.mem_iff, outputsFor_afterCall_snoc]
  by_cases hid : id = c.callId
  · subst hid
    simp [callId?, outputFor, afterCall_eq_nil _ _ hfresh, outputsFor]
  · simp [callId?, outputFor, hid]

theorem Needing.result (h : Needing done l) (o : FunctionCallOutput) (hseen : o.callId ∈ callIds done) :
    Needing (done ++ [.functionCallOutput o]) (l.filter fun id => id ≠ o.callId) := by
  refine ⟨h.nodup.filter _, fun id => ?_⟩
  rw [mem_filter, h.mem_iff, outputsFor_afterCall_snoc]
  by_cases hid : id = o.callId
  · subst hid
    simp [hseen, outputFor]
  · have hne : o.callId ≠ id := fun hc => hid hc.symm
    simp [callId?, outputFor, hid, hne]

theorem Needing.skip (h : Needing done l) (x : ResponseItem) (hcall : callId? x = none)
    (hout : ∀ id ∈ callIds done, outputFor id x = none) : Needing (done ++ [x]) l := by
  refine ⟨h.nodup, fun id => ?_⟩
  rw [h.mem_iff, outputsFor_afterCall_snoc]
  by_cases hid : id ∈ callIds done
  · simp [hid, hout id hid]
  · simp [hid, hcall]

theorem afterCall_of_nodup {items : List ResponseItem} (hnd : (callIds items).Nodup)
    {pre post : List ResponseItem} {c : FunctionCall} (h : items = pre ++ .functionCall c :: post) :
    afterCall c.callId items = post := by
  rw [h] at hnd ⊢
  apply afterCall_of_split
  intro hm
  rw [callIds_append] at hnd
  exact (nodup_append.mp hnd).2.2 _ hm _ (mem_filterMap.mpr ⟨_, mem_cons_self, rfl⟩) rfl

/-! ## Shared steps decide their cause -/

open Decides

theorem decides_concatText {α : Type} {part : α → Except ConnError String} {ok : α → Prop}
    (h : ∀ a, Decides IsHardFail (ok a) (part a)) (l : List α) :
    Decides IsHardFail (∀ a ∈ l, ok a) (concatText part l) :=
  (mapM h l).map _

theorem decides_outputText {item : FunctionCallOutputContentItem → Except ConnError String}
    (h : ∀ c, Decides IsHardFail (outputItemCauses c = []) (item c)) (body : FunctionCallOutputBody) :
    Decides IsHardFail (outputCauses body = []) (outputText item body) := by
  cases body with
  | text t => exact value (by simp [outputCauses])
  | contentItems items => exact (decides_concatText h items).congr (by simp [outputCauses])

theorem decides_mapToolWith (t : Value) :
    Decides IsHardFail (isFunctionTool t = true) (mapToolWith env convert limits t) := by
  unfold mapToolWith isFunctionTool
  split
  · next h => exact value (by simp [h])
  · next h => exact decides_hardFail (by simp [h])

theorem decides_mapToolsWith (tools : List Value) :
    Decides IsHardFail (tools.all isFunctionTool = true) (mapToolsWith env convert limits tools) := by
  unfold mapToolsWith
  split
  · next h => exact value (by simp [h])
  · refine ((mapM (decides_mapToolWith env convert limits) tools).map _).congr ?_
    simp

theorem mapToolsWith_eq_none (tools : List Value) (r : Option (List Value))
    (h : mapToolsWith env convert limits tools = .ok r) : r = none ↔ tools = [] := by
  unfold mapToolsWith at h
  split at h
  · next ht =>
    cases h
    simp [ht]
  · next ht =>
    cases hm : tools.mapM (mapToolWith env convert limits) with
    | error e =>
      rw [hm] at h
      cases h
    | ok ts =>
      rw [hm] at h
      cases h
      simp [ht]

theorem decides_mapToolChoiceWith (serde : Serde) (auto no required : Value)
    (named : Value → Value) (protocol tc : String) :
    Decides IsHardFail (choiceExpressible serde tc = true)
      (mapToolChoiceWith serde auto no required named protocol tc) := by
  unfold mapToolChoiceWith
  by_cases hs : tc ∈ ["auto", "none", "required", ""]
  · have hok : choiceExpressible serde tc = true := by simp only [choiceExpressible, hs]; rfl
    simp only [mem_cons, not_mem_nil, or_false] at hs
    rcases hs with rfl | rfl | rfl | rfl <;> exact value (by simp [hok])
  · simp only [mem_cons, not_mem_nil, or_false, not_or] at hs
    rw [if_neg hs.1, if_neg hs.2.1, if_neg hs.2.2.1, if_neg hs.2.2.2]
    unfold choiceExpressible
    cases hn : (serde.fromStr tc).toOption.bind fun v =>
        if v.strField "type" = some "function" then v.get "name" else none with
    | some name => exact value (by simp)
    | none => exact decides_hardFail (by simp [hs])

end LlmSwitch
