import Codez.Lib.Grouping
import Codez.Switch.AnthropicReq

/-!
The messages of an Anthropic request.

The builder pushes content blocks in input order, each with its role, and collects consecutive
blocks of one role in one message.
-/

namespace LlmSwitch.AnthropicReq

open Codex Fallible Run List

def messageRole (role : String) : String := if role = "assistant" then "assistant" else "user"

def itemRoles (seen : List String) : ResponseItem → List String
  | .message m => m.content.map fun _ => messageRole m.role
  | .agentMessage m => m.content.map fun _ => "assistant"
  | .functionCall _ => ["assistant"]
  | .functionCallOutput o => if o.callId ∈ seen then ["user"] else []
  | _ => []

def inputRoles (seen : List String) (items : List ResponseItem) : List String :=
  emit itemRoles seenAfter seen items

def itemBlocks (env : BuildEnv) (seen : List String) : ResponseItem → List (String × Value)
  | .message m =>
    (m.content.filterMap fun c => (contentItemToBlock c).toOption).map (Prod.mk (messageRole m.role))
  | .agentMessage m => (m.content.filterMap fun c => (agentBlock c).toOption).map (Prod.mk "assistant")
  | .functionCall c =>
    (env.serde.fromStr c.arguments).toOption.toList.map fun input => ("assistant", toolUseBlock c input)
  | .functionCallOutput o =>
    if o.callId ∈ seen then (toolResultBlock o.callId o.output).toOption.toList.map (Prod.mk "user")
    else []
  | _ => []

def inputBlocks (env : BuildEnv) (seen : List String) (items : List ResponseItem) : List (String × Value) :=
  emit (itemBlocks env) seenAfter seen items

/-- Every part of the items could be mapped, so there is a block for every role. -/
def Mapped (env : BuildEnv) (seen : List String) (items : List ResponseItem) : Prop :=
  AllSteps (fun seen item => (itemBlocks env seen item).map Prod.fst = itemRoles seen item) seenAfter
    seen items

theorem Mapped.roles {env : BuildEnv} {seen : List String} {items : List ResponseItem}
    (h : Mapped env seen items) : (inputBlocks env seen items).map Prod.fst = inputRoles seen items :=
  emit_map h

variable (env : BuildEnv) (t : String × List Value) (req : ResponsesApiRequest)

theorem inputBlocks_snoc (seen : List String) (xs : List ResponseItem) (x : ResponseItem) :
    inputBlocks env seen (xs ++ [x]) =
      inputBlocks env seen xs ++ itemBlocks env (xs.foldl seenAfter seen) x :=
  emit_snoc _ _ _ _ _

def anthropicPlaceholder (id : String) : String × Value :=
  ("user", resultBlock id "[No output available yet]")

open Grouping

theorem pushBlock_eq (role : String) (turns : List (String × List Value)) (block : Value) :
    pushBlock role turns block = push turns (role, block) := by
  unfold pushBlock push
  cases turns.getLast? <;> rfl

theorem foldl_pushBlock (role : String) (blocks : List Value) (turns : List (String × List Value)) :
    blocks.foldl (pushBlock role) turns = (blocks.map (Prod.mk role)).foldl push turns := by
  rw [foldl_map]
  congr 1
  funext turns block
  exact pushBlock_eq role turns block

theorem mapM_eq_ok {α : Type} {part : α → Except ConnError Value} {l : List α} {vs : List Value}
    (h : l.mapM part = .ok vs) :
    vs = (l.filterMap fun a => (part a).toOption) ∧ vs.length = l.length := by
  induction l generalizing vs with
  | nil =>
    cases h
    exact ⟨rfl, rfl⟩
  | cons a l ih =>
    rw [mapM_cons] at h
    obtain ⟨v, hv, h⟩ := bind_eq_ok h
    obtain ⟨vs', hvs, h⟩ := bind_eq_ok h
    cases h
    obtain ⟨hvs', hlen⟩ := ih hvs
    refine ⟨?_, by simp [hlen]⟩
    rw [filterMap_cons, hv, ← hvs']
    rfl

structure AnthropicStep (env : BuildEnv) (acc : AnthropicAcc) (item : ResponseItem)
    (acc' : AnthropicAcc) : Prop where
  turns : acc'.turns = (itemBlocks env acc.seenCalls item).foldl Grouping.push acc.turns
  roles : (itemBlocks env acc.seenCalls item).map Prod.fst = itemRoles acc.seenCalls item
  needing : ∀ done, (∀ id, id ∈ acc.seenCalls ↔ id ∈ callIds done) →
    Needing done acc.callsNeedingResult → (∀ id, callId? item = some id → id ∉ callIds done) →
    Needing (done ++ [item]) acc'.callsNeedingResult

theorem anthropicItem_step (acc acc' : AnthropicAcc) (item : ResponseItem) (h : anthropicItem env acc item = .ok acc') :
    AnthropicStep env acc item acc' := by
  cases item with
  | message m | agentMessage m =>
    obtain ⟨vs, hvs, rfl⟩ := map_eq_ok h
    obtain ⟨hvs, hlen⟩ := mapM_eq_ok hvs
    refine ⟨?_, ?_, fun done _ hn _ => hn.skip _ rfl fun _ _ => rfl⟩
    · simp only [itemBlocks, ← hvs]
      exact foldl_pushBlock _ vs acc.turns
    · simp only [itemBlocks, ← hvs, itemRoles]
      simp [map_const', hlen]
  | functionCall c =>
    simp only [anthropicItem] at h
    split at h
    · cases h
    · cases hp : env.serde.fromStr c.arguments with
      | error e =>
        rw [hp] at h
        cases h
      | ok v =>
        rw [hp] at h
        cases h
        refine ⟨?_, ?_, fun done _ hn hfresh => ?_⟩
        · simp [itemBlocks, hp, Except.toOption, pushBlock_eq]
        · simp [itemBlocks, hp, Except.toOption, itemRoles]
        · have hnew := hfresh c.callId rfl
          refine hn.call c hnew ?_ fun id => by simp [or_comm]
          rw [nodup_append]
          refine ⟨hn.nodup, nodup_singleton _, ?_⟩
          rintro id hid _ hc rfl
          rw [mem_singleton] at hc
          exact hnew (hc ▸ ((hn.mem_iff id).mp hid).1)
  | functionCallOutput o =>
    simp only [anthropicItem] at h
    split at h
    · next hseen =>
      obtain ⟨v, hv, rfl⟩ := map_eq_ok h
      refine ⟨?_, ?_, fun done hs hn _ => hn.result o ((hs o.callId).mp hseen)⟩
      · simp [itemBlocks, hseen, hv, Except.toOption, pushBlock_eq]
      · simp [itemBlocks, hseen, hv, Except.toOption, itemRoles]
    · next hseen =>
      cases h
      refine ⟨by simp [itemBlocks, hseen], by simp [itemBlocks, itemRoles, hseen],
        fun done hs hn _ => hn.skip _ rfl fun id hid => ?_⟩
      have hne : o.callId ≠ id := fun hc => hseen ((hs _).mpr (hc ▸ hid))
      simp [outputFor, hne]
  | reasoning | compactionTrigger =>
    cases h
    exact ⟨rfl, rfl, fun done _ hn _ => hn.skip _ rfl fun _ _ => rfl⟩
  | _ => cases h

structure LoopInv (env : BuildEnv) (done : List ResponseItem) (acc : AnthropicAcc) : Prop where
  seen : acc.seenCalls = done.foldl seenAfter []
  turns : acc.turns = Grouping.group (inputBlocks env [] done)
  mapped : Mapped env [] done
  needing : Needing done acc.callsNeedingResult

theorem LoopInv.step {env : BuildEnv} {done : List ResponseItem} {acc acc' : AnthropicAcc}
    {x : ResponseItem} (hi : LoopInv env done acc) (hx : anthropicItem env acc x = .ok acc')
    (hfresh : ∀ id, callId? x = some id → id ∉ callIds done) : LoopInv env (done ++ [x]) acc' := by
  have hst := anthropicItem_step env acc acc' x hx
  have hseen : ∀ id, id ∈ acc.seenCalls ↔ id ∈ callIds done := by
    intro id
    rw [hi.seen]
    simpa using mem_foldl_seenAfter id [] done
  refine ⟨?_, ?_, ?_, hst.needing done hseen hi.needing hfresh⟩
  · rw [anthropicItem_seenCalls env acc x acc' hx, hi.seen, foldl_append]
    rfl
  · rw [hst.turns, hi.turns, inputBlocks_snoc, group_append, ← hi.seen]
  · refine (allSteps_append _ _ _).mpr ⟨hi.mapped, ?_, trivial⟩
    rw [← hi.seen]
    exact hst.roles

theorem loopInv_input (items : List ResponseItem) (acc : AnthropicAcc) (hnd : (callIds items).Nodup)
    (h : items.foldlM (anthropicItem env) {} = .ok acc) : LoopInv env items acc := by
  refine foldlM_invariant (LoopInv env) items ?_ ⟨rfl, rfl, trivial, .nil⟩ h
  intro done x todo s s' heq hi hx
  refine hi.step hx fun id hid hm => ?_
  rw [heq, callIds_append] at hnd
  exact (nodup_append.mp hnd).2.2 id hm id
    (mem_filterMap.mpr ⟨x, mem_cons_self, hid⟩) rfl

def turnMessage (turn : String × List Value) : Value :=
  .mkObj [("role", .string turn.1), ("content", .array turn.2)]

def roleOf (m : Value) : Option String := m.strField "role"

def blocksOf (m : Value) : List Value :=
  match m.get "content" with
  | some (.array blocks) => blocks
  | _ => []

open Value

@[simp] theorem roleOf_turnMessage : roleOf (turnMessage t) = some t.1 := by
  simp [roleOf, turnMessage, strField, get_mkObj, List.lookup, asStr]

@[simp] theorem blocksOf_turnMessage : blocksOf (turnMessage t) = t.2 := by
  simp [blocksOf, turnMessage, get_mkObj]

theorem isChain_messages (xs : List (String × Value)) :
    ((group xs).map turnMessage).IsChain fun a b => roleOf a ≠ roleOf b := by
  rw [isChain_map]
  refine (isChain_group xs).imp fun a b hab => ?_
  rw [roleOf_turnMessage, roleOf_turnMessage]
  exact fun hc => hab (Option.some.inj hc)

theorem anthropicTools_messages (tools : Option (List Value)) (req : ResponsesApiRequest) (body body' : Value)
    (h : anthropicTools env tools req body = .ok body') :
    body'.get "messages" = body.get "messages" := by
  cases tools with
  | none =>
    cases h
    rfl
  | some ts =>
    obtain ⟨tc, -, rfl⟩ := map_eq_ok h
    dsimp only
    split
    · rw [get_set_ne (by decide), get_set_ne (by decide)]
    · exact get_set_ne (by decide)

theorem applyFieldDowngrade_messages (body : Value) (req : ResponsesApiRequest) :
    (applyFieldDowngrade env body req).get "messages" = body.get "messages" := by
  unfold applyFieldDowngrade
  cases (req.text.bind (·.format)).map textFormatValue with
  | none =>
    cases req.reasoning.bind (·.effort) with
    | none => rfl
    | some e => exact get_set_ne (by decide)
  | some fmt =>
    dsimp only
    rw [get_set_ne (by decide)]
    cases req.reasoning.bind (·.effort) with
    | none => rfl
    | some e => exact get_set_ne (by decide)

theorem anthropicBody_messages (ctx : EgressCtx) (req : ResponsesApiRequest) (acc : AnthropicAcc) :
    (anthropicBody ctx req acc).get "messages" = some (.array
      (((acc.callsNeedingResult.map anthropicPlaceholder).foldl push acc.turns).map
        turnMessage)) := by
  have hts : acc.callsNeedingResult.foldl (fun turns id =>
      pushBlock "user" turns (resultBlock id "[No output available yet]")) acc.turns =
      (acc.callsNeedingResult.map anthropicPlaceholder).foldl push acc.turns := by
    rw [foldl_map]
    congr 1
    funext turns id
    exact pushBlock_eq _ _ _
  unfold anthropicBody
  rw [hts]
  dsimp only
  split
  · rw [get_mkObj]
    rfl
  · rw [get_set_ne (by decide), get_mkObj]
    rfl

theorem buildAnthropicRequest_eq_ok (ctx : EgressCtx) (body : Value)
    (h : buildAnthropicRequest env req ctx = .ok body) :
    ∃ acc, req.input.foldlM (anthropicItem env) {} = .ok acc ∧
      body.get "messages" = (anthropicBody ctx req acc).get "messages" := by
  obtain ⟨tools, -, h⟩ := bind_eq_ok h
  obtain ⟨acc, ha, h⟩ := bind_eq_ok h
  obtain ⟨body', hb, h⟩ := bind_eq_ok h
  refine ⟨acc, ha, ?_⟩
  rw [← anthropicTools_messages env tools req _ _ hb, ← applyFieldDowngrade_messages env body' req,
    ← Except.ok.inj h]
  split
  · exact get_set_ne (by decide)
  · rfl

/-- **The messages of an Anthropic request** are the groups of its blocks; calls without an
output get a placeholder at the end. -/
theorem buildAnthropicRequest_messages (ctx : EgressCtx) (body : Value) (hnd : (callIds req.input).Nodup)
    (h : buildAnthropicRequest env req ctx = .ok body) :
    ∃ needing, Needing req.input needing ∧ Mapped env [] req.input ∧
      body.get "messages" = some (.array ((group
        (inputBlocks env [] req.input ++ needing.map anthropicPlaceholder)).map turnMessage)) := by
  obtain ⟨acc, ha, hbody⟩ := buildAnthropicRequest_eq_ok env req ctx body h
  have hi := loopInv_input env req.input acc hnd ha
  refine ⟨acc.callsNeedingResult, hi.needing, hi.mapped, ?_⟩
  rw [hbody, anthropicBody_messages, hi.turns, group_append]

end LlmSwitch.AnthropicReq
