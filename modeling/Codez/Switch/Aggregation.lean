import Codez.Switch.ChatSse
import Codez.Switch.AnthropicSse

/-!
What the stream translators make of a whole response.
-/

namespace LlmSwitch

open Codex List

/-- The events of a response with these texts and calls: the text as it came, one call for
each index by increasing index, the message unless there is no text, and `Completed`. -/
def Aggregates (evs : List ResponseEvent) (texts : List String) (isCall : Int → Prop)
    (arguments : Int → String) : Prop :=
  ∃ (deltas : List String) (calls : List FunctionCall) (indices : List Int) (responseId : String)
      (usage : Option TokenUsage) (endTurn : Option Bool),
    evs = deltas.map .outputTextDelta ++ (finishItems calls (String.join texts)).map .outputItemDone ++
        [.completed responseId usage endTurn] ∧
    String.join deltas = String.join texts ∧
    indices.Pairwise (· < ·) ∧ (∀ i, i ∈ indices ↔ isCall i) ∧
    calls.map (·.arguments) = indices.map arguments

theorem aggregates_finishWith {ds texts : List String} {isCall : Int → Prop}
    {arguments : Int → String} (n : Nat) {accs : List ToolAcc} {indices : List Int} {text : String}
    (rid : Option String) (u : Option TokenUsage) (e : Option Bool) (ht : text = String.join texts)
    (hjoin : String.join ds = String.join texts) (hsort : indices.Pairwise (· < ·))
    (hmem : ∀ i, i ∈ indices ↔ isCall i)
    (hargs : accs.map (·.arguments) = indices.map arguments) :
    Aggregates (ds.map .outputTextDelta ++ finishWith n accs text rid u e) texts isCall arguments := by
  refine ⟨ds, (finishCalls n accs).1, indices, rid.getD (synthId "resp" ((finishCalls n accs).2 + 1)),
    u, e, ?_, hjoin, hsort, hmem, ?_⟩
  · rw [ht, append_assoc]
    rfl
  · rw [finishCalls_arguments, hargs]

/-! ## Chat chunks -/

def chunkContent (chunk : Value) : Option String :=
  ((choice0 chunk).bind (·.get "delta")).bind (·.strField "content")

def chunkToolCalls (chunk : Value) : List Value :=
  ((((choice0 chunk).bind (·.get "delta")).bind (·.get "tool_calls")).bind Value.asArray).getD []

def callIndex (tc : Value) : Int := (tc.i64Field "index").getD 0

def callFragment (tc : Value) : String := ((tc.get "function").bind (·.strField "arguments")).getD ""

def pushRest (st : ChatSseState) (chunk : Value) : ChatSseState :=
  { st with
    responseId := st.responseId.or (nonEmpty (chunk.strField "id"))
    usage := ((chunk.get "usage").filter fun u => u ≠ .null).or st.usage
    finishReason := (nonEmpty ((choice0 chunk).bind (·.strField "finish_reason"))).or st.finishReason
    text := st.text ++ (chunkContent chunk).getD "" }

theorem getD_nonEmpty (o : Option String) : (nonEmpty o).getD "" = o.getD "" := by
  cases o with
  | none => rfl
  | some s => by_cases h : s = "" <;> simp [nonEmpty, Option.filter, h]

theorem pushChunk_eq (serde : Serde) (st : ChatSseState) (chunk : Value)
    (h : isErrorChunk chunk = false) :
    pushChunk serde st chunk =
      .ok ({ pushRest st chunk with toolCalls := (chunkToolCalls chunk).foldl pushToolCall st.toolCalls },
        (contentDelta chunk).toList.map .outputTextDelta) := by
  have he : chunk.get "error" = none := by simpa [isErrorChunk] using h
  unfold pushChunk
  rw [he]
  cases hc : choice0 chunk with
  | none => simp [pushRest, chunkContent, chunkToolCalls, contentDelta, hc, nonEmpty]
  | some choice =>
    simp only [pushRest, chunkContent, chunkToolCalls, contentDelta, hc, Option.bind_some, getD_nonEmpty]

theorem join_filterMap {α : Type} (f : α → Option String) (l : List α) :
    String.join (l.filterMap f) = String.join (l.map fun a => (f a).getD "") := by
  induction l with
  | nil => rfl
  | cons a l ih => cases h : f a <;> simp [h, ih, String.join_cons]

theorem join_contentDelta (vs : List Value) :
    String.join (vs.filterMap contentDelta) = String.join (vs.filterMap chunkContent) := by
  rw [join_filterMap, join_filterMap]
  congr 2
  funext v
  exact getD_nonEmpty _

theorem foldl_append_text {α : Type} (f : α → String) (l : List α) (t : String) :
    l.foldl (fun t a => t ++ f a) t = t ++ String.join (l.map f) := by
  induction l generalizing t with
  | nil => simp
  | cons a l ih => simp [ih, String.join_cons, String.append_assoc]

open OrdMap SseTranslator

section
variable {serde : Serde} {v v' : Value} {vs vs' : List Value} (tcs : List Value)

theorem chat_push_eq {st st' : ChatSseState} {evs : List ResponseEvent}
    (h : (chatSse serde).push st v = .ok (st', evs)) :
    st' = { pushRest st v with toolCalls := (chunkToolCalls v).foldl pushToolCall st.toolCalls } := by
  cases he : isErrorChunk v with
  | true =>
    obtain ⟨e, hp⟩ := (chatSse_emitsText serde).fails st v he
    rw [hp] at h
    cases h
  | false =>
    have hp : (chatSse serde).push st v = _ := pushChunk_eq serde st v he
    rw [hp] at h
    exact (congrArg Prod.fst (Except.ok.inj h)).symm

theorem chat_run {st : ChatSseState} (h : ((chatSse serde).pushAll {} vs).2 = .ok st) :
    st.text = String.join (vs.filterMap chunkContent) ∧
      st.toolCalls = (vs.flatMap chunkToolCalls).foldl pushToolCall empty ∧
      st.synthCounter = 0 := by
  refine ⟨?_, ?_, ?_⟩
  · rw [pushAll_observe ChatSseState.text (fun t v => t ++ (chunkContent v).getD "")
        (fun s v s' evs hp => by rw [chat_push_eq hp]; rfl) vs {} st h,
      foldl_append_text, join_filterMap]
    simp
  · rw [pushAll_observe ChatSseState.toolCalls
        (fun m v => (chunkToolCalls v).foldl pushToolCall m)
        (fun s v s' evs hp => by rw [chat_push_eq hp]) vs {} st h, foldl_flatMap]
  · rw [pushAll_observe ChatSseState.synthCounter (fun n _ => n)
        (fun s v s' evs hp => by rw [chat_push_eq hp]; rfl) vs {} st h]
    exact foldl_fixed ..

def mergeCall (tc : Value) (o : Option ToolAcc) : ToolAcc :=
  { callId := (nonEmpty (tc.strField "id")).or (o.getD {}).callId
    name := (nonEmpty ((tc.get "function").bind (·.strField "name"))).or (o.getD {}).name
    arguments := (o.getD {}).arguments ++ callFragment tc }

theorem get?_collected (i : Int) : (tcs.foldl pushToolCall empty).get? i =
      (tcs.filter fun tc => callIndex tc = i).foldl (fun o tc => some (mergeCall tc o)) none :=
  get?_foldl_alter callIndex mergeCall tcs empty i

theorem foldl_mergeCall (o : Option ToolAcc) :
    (tcs.foldl (fun o tc => some (mergeCall tc o)) o).isSome = (o.isSome || !tcs.isEmpty) ∧
      ((tcs.foldl (fun o tc => some (mergeCall tc o)) o).getD {}).arguments =
        (o.getD {}).arguments ++ String.join (tcs.map callFragment) := by
  induction tcs generalizing o with
  | nil => simp
  | cons tc tcs ih =>
    rw [foldl_cons]
    obtain ⟨hsome, hargs⟩ := ih (some (mergeCall tc o))
    refine ⟨by simp [hsome], ?_⟩
    rw [hargs]
    simp [mergeCall, String.join_cons, String.append_assoc]

theorem isSome_collected (i : Int) :
    ((tcs.foldl pushToolCall empty).get? i).isSome ↔ ∃ tc ∈ tcs, callIndex tc = i := by
  rw [get?_collected, (foldl_mergeCall _ none).1]
  simp

theorem collected_arguments (i : Int) (acc : ToolAcc) (h : (tcs.foldl pushToolCall empty).get? i = some acc) :
    acc.arguments = String.join ((tcs.filter fun tc => callIndex tc = i).map callFragment) := by
  have hargs := (foldl_mergeCall (tcs.filter fun tc => callIndex tc = i) none).2
  rw [← get?_collected, h] at hargs
  simpa using hargs

theorem chat_aggregates (vs : List Value) (h : ∀ v ∈ vs, isErrorChunk v = false) :
    ∃ evs, (chatSse serde).translate vs true = .ok evs ∧ Aggregates evs (vs.filterMap chunkContent)
        (fun i => ∃ tc ∈ vs.flatMap chunkToolCalls, callIndex tc = i)
        (fun i => String.join
          (((vs.flatMap chunkToolCalls).filter fun tc => callIndex tc = i).map callFragment)) := by
  obtain ⟨st, hrun⟩ := (chatSse_emitsText serde).pushAll_ok {} vs h
  obtain ⟨ht, hcs, hcounter⟩ := chat_run (congrArg Prod.snd hrun)
  refine ⟨_, translate_of_pushAll hrun, ?_⟩
  refine aggregates_finishWith _ _ _ _ ht
    (join_contentDelta vs) st.toolCalls.pairwise_keys ?_ ?_
  · intro i
    rw [mem_keys_iff, hcs, isSome_collected]
  · rw [map_map, map_map]
    refine map_congr_left fun e he => ?_
    have hget := (mem_entries_iff _ e.1 e.2).mp he
    rw [hcs] at hget
    exact collected_arguments _ e.1 e.2 hget

structure SameApartFromCalls (v v' : Value) : Prop where
  error : v.get "error" = v'.get "error"
  id : v.strField "id" = v'.strField "id"
  usage : v.get "usage" = v'.get "usage"
  finishReason : (choice0 v).bind (·.strField "finish_reason") =
    (choice0 v').bind (·.strField "finish_reason")
  content : chunkContent v = chunkContent v'

theorem SameApartFromCalls.pushRest_eq (h : SameApartFromCalls v v') (st : ChatSseState) :
    pushRest st v = pushRest st v' := by
  simp only [pushRest, h.id, h.usage, h.finishReason, h.content]

theorem SameApartFromCalls.contentDelta_eq (h : SameApartFromCalls v v') :
    contentDelta v = contentDelta v' :=
  congrArg nonEmpty h.content

theorem SameApartFromCalls.isErrorChunk_eq (h : SameApartFromCalls v v') :
    isErrorChunk v = isErrorChunk v' := by
  rw [isErrorChunk, isErrorChunk, h.error]

theorem filterMap_contentDelta_eq (h : List.Forall₂ SameApartFromCalls vs vs') :
    vs.filterMap contentDelta = vs'.filterMap contentDelta := by
  induction h with
  | nil => rfl
  | cons hv _ ih => rw [filterMap_cons, filterMap_cons, hv.contentDelta_eq, ih]

theorem forall_isErrorChunk_eq (h : List.Forall₂ SameApartFromCalls vs vs') (hvs : ∀ v ∈ vs, isErrorChunk v = false) :
    ∀ v ∈ vs', isErrorChunk v = false := by
  induction h with
  | nil => simp
  | cons hv _ ih =>
    rw [forall_mem_cons] at hvs ⊢
    exact ⟨hv.isErrorChunk_eq ▸ hvs.1, ih hvs.2⟩

theorem foldl_pushRest_eq (h : List.Forall₂ SameApartFromCalls vs vs') (st : ChatSseState) :
    vs.foldl pushRest st = vs'.foldl pushRest st := by
  induction h generalizing st with
  | nil => rfl
  | cons hv _ ih => rw [foldl_cons, foldl_cons, hv.pushRest_eq, ih]

theorem pushToolCall_comm (m : OrdMap Int ToolAcc) (x y : Value) (h : callIndex x ≠ callIndex y) :
    pushToolCall (pushToolCall m x) y = pushToolCall (pushToolCall m y) x :=
  alter_comm m (mergeCall x) (mergeCall y) h

theorem chat_swap {A B : List Value} {x y : Value} (hvs : ∀ v ∈ vs, isErrorChunk v = false)
    (hsame : List.Forall₂ SameApartFromCalls vs vs') (hx : vs.flatMap chunkToolCalls = A ++ x :: y :: B)
    (hy : vs'.flatMap chunkToolCalls = A ++ y :: x :: B) (hne : callIndex x ≠ callIndex y) :
    (chatSse serde).translate vs true = (chatSse serde).translate vs' true := by
  obtain ⟨st, hrun⟩ := (chatSse_emitsText serde).pushAll_ok {} vs hvs
  obtain ⟨st', hrun'⟩ := (chatSse_emitsText serde).pushAll_ok {} vs'
    (forall_isErrorChunk_eq hsame hvs)
  have hr : ∀ (ws : List Value) (s : ChatSseState), ((chatSse serde).pushAll {} ws).2 = .ok s →
      { s with toolCalls := empty } = ws.foldl pushRest {} := by
    intro ws s h
    exact pushAll_observe (fun s : ChatSseState => { s with toolCalls := empty })
      pushRest (fun s v s' evs hp => by rw [chat_push_eq hp]; rfl) ws {} s h
  have hcs : st.toolCalls = st'.toolCalls := by
    rw [(chat_run (congrArg Prod.snd hrun)).2.1, (chat_run (congrArg Prod.snd hrun')).2.1, hx, hy,
      foldl_append, foldl_append, foldl_cons, foldl_cons, foldl_cons,
      foldl_cons, pushToolCall_comm _ x y hne]
  have hst : st = st' := by
    have h := hr vs st (congrArg Prod.snd hrun)
    rw [foldl_pushRest_eq hsame, ← hr vs' st' (congrArg Prod.snd hrun')] at h
    have hset : ∀ s : ChatSseState, s =
        (fun o : ChatSseState => { o with toolCalls := s.toolCalls }) { s with toolCalls := empty } :=
      fun _ => rfl
    refine (hset st).trans (Eq.trans ?_ (hset st').symm)
    rw [h, hcs]
  rw [translate_of_pushAll hrun, translate_of_pushAll hrun', hst,
    filterMap_contentDelta_eq hsame]

end

/-! ## Anthropic events -/

open AnthropicSseState

section
variable {serde : Serde} {st : AnthropicSseState}

theorem pushBlockDelta_text (st : AnthropicSseState) (evt : Value)
    (h : evt.strField "type" = some "content_block_delta") :
    (pushBlockDelta st (blockIndex evt) (evt.get "delta")).1.text = st.text ++ (textDelta evt).getD "" := by
  unfold pushBlockDelta
  split
  · next hd =>
    split <;> next ht => simp [textDelta, h, hd, ht]
  · next hd =>
    have ht : textDelta evt = none := by simp [textDelta, hd]
    split <;> simp [ht, updateBlock]
  · next hd _ =>
    have ht : textDelta evt = none := by rw [textDelta, if_neg fun hc => hd hc.2]
    simp [ht]

theorem pushEvent_text {st' : AnthropicSseState} {evt : Value} {evs : List ResponseEvent}
    (h : pushEvent serde st evt = .ok (st', evs)) : st'.text = st.text ++ (textDelta evt).getD "" := by
  -- only the deltas of a block carry text
  have other : evt.strField "type" ≠ some "content_block_delta" → (textDelta evt).getD "" = "" := by
    intro ht
    rw [textDelta, if_neg fun hc => ht hc.1]
    rfl
  unfold pushEvent at h
  split at h
  · cases h
  · next ht =>
    rw [other (by simp [ht])]
    split at h <;> (cases h; simp [pushMessageStart])
  · next ht =>
    rw [other (by simp [ht])]
    cases h
    simp [updateBlock]
  · next ht =>
    rw [← pushBlockDelta_text st evt ht, Except.ok.inj h]
  · next ht =>
    rw [other (by simp [ht])]
    cases h
    simp
  · next ht =>
    rw [other (by assumption)]
    cases h
    simp

theorem anthropic_text {vs : List Value} (h : ((anthropicSse serde).pushAll {} vs).2 = .ok st) :
    st.text = String.join (vs.filterMap textDelta) := by
  rw [pushAll_observe text (fun t v => t ++ (textDelta v).getD "")
      (fun s v s' evs hp => pushEvent_text hp) vs {} st h, foldl_append_text, join_filterMap]
  simp

def toolBlocks (st : AnthropicSseState) : List (Int × BlockAcc) :=
  st.blocks.entries.filter fun e => e.2.isToolUse

theorem calls_eq_toolBlocks (st : AnthropicSseState) : st.blocks.entries.filterMap (fun e => e.2.toCall) =
      (toolBlocks st).map fun e => { callId := e.2.callId, name := e.2.name, arguments :=
        if e.2.partialJson = "" then "\x7b\x7d" else e.2.partialJson } := by
  unfold toolBlocks
  induction st.blocks.entries with
  | nil => rfl
  | cons e l ih =>
    rw [filterMap_cons, ih]
    cases he : e.2.isToolUse <;> simp [BlockAcc.toCall, he]

theorem block_of_mem {e : Int × BlockAcc} (h : e ∈ st.blocks.entries) : st.block e.1 = e.2 := by
  rw [block, (mem_entries_iff st.blocks e.1 e.2).mp h]
  rfl

theorem mem_toolBlocks_iff (st : AnthropicSseState) (i : Int) :
    i ∈ (toolBlocks st).map Prod.fst ↔ (st.block i).isToolUse = true := by
  constructor
  · intro hi
    obtain ⟨e, he, rfl⟩ := mem_map.mp hi
    obtain ⟨he, htool⟩ := mem_filter.mp he
    rw [block_of_mem he]
    exact htool
  · intro htool
    -- a block that no event named is not a tool call
    cases hget : st.blocks.get? i with
    | none => simp [AnthropicSseState.block, hget] at htool
    | some acc =>
      have hmem := (mem_entries_iff st.blocks i acc).mpr hget
      refine mem_map.mpr ⟨(i, acc), mem_filter.mpr ⟨hmem, ?_⟩, rfl⟩
      rwa [block_of_mem hmem] at htool

theorem pairwise_toolBlocks (st : AnthropicSseState) : ((toolBlocks st).map Prod.fst).Pairwise (· < ·) :=
  pairwise_map.mpr (List.Pairwise.filter _ st.blocks.increasing)

theorem anthropic_aggregates (vs : List Value) (h : ∀ v ∈ vs, isErrorEvent v = false) :
    ∃ evs, (anthropicSse serde).translate vs true = .ok evs ∧
      Aggregates evs (vs.filterMap textDelta) (fun i => ∃ e ∈ vs, toolUseStart e = some i)
        (fun i => if blockJson i vs = "" then "\x7b\x7d" else blockJson i vs) := by
  obtain ⟨st, hrun⟩ := (anthropicSse_emitsText serde).pushAll_ok {} vs h
  have hblock := pushAll_block serde vs {} st (congrArg Prod.snd hrun)
  refine ⟨_, translate_of_pushAll hrun, ?_⟩
  refine aggregates_finishWith _ _ _ _ (anthropic_text (congrArg Prod.snd hrun)) rfl
    (pairwise_toolBlocks st) ?_ ?_
  · intro i
    rw [mem_toolBlocks_iff, (hblock i).2]
    simp [block, blockIsTool]
  · rw [calls_eq_toolBlocks, map_map, map_map]
    refine map_congr_left fun e he => ?_
    have hjson := (hblock e.1).1
    rw [block_of_mem (mem_of_mem_filter he)] at hjson
    simp [hjson, block]

def isToolDelta (evt : Value) : Bool := (toolUseStart evt).isSome || (jsonFragment evt).isSome

theorem pushEvent_toolDelta (serde : Serde) (evt : Value) (h : isToolDelta evt = true) :
    ∃ f, ∀ st, pushEvent serde st evt = .ok (updateBlock st (blockIndex evt) f, []) := by
  rw [isToolDelta, Bool.or_eq_true] at h
  rcases h with h | h
  · have hs : evt.strField "type" = some "content_block_start" := by
      by_contra hne
      rw [toolUseStart_of_ne evt hne] at h
      cases h
    exact ⟨startBlock (evt.get "content_block"), fun st => by simp [pushEvent, hs]⟩
  · rw [jsonFragment] at h
    split at h
    · next hd =>
      obtain ⟨⟨_, p⟩, hp⟩ := Option.isSome_iff_exists.mp h
      obtain ⟨p', hp', -⟩ := Option.map_eq_some_iff.mp hp
      exact ⟨fun acc => { acc with partialJson := acc.partialJson ++ p' }, fun st => by
        simp [pushEvent, hd.1, pushBlockDelta, hd.2, hp']⟩
    · cases h

theorem updateBlock_comm (st : AnthropicSseState) {i j : Int} (f g : BlockAcc → BlockAcc) (h : i ≠ j) :
    updateBlock (updateBlock st i f) j g = updateBlock (updateBlock st j g) i f := by
  simp only [updateBlock]
  rw [alter_comm _ _ _ h]

theorem anthropic_swap {A B : List Value} {x y : Value} (hx : isToolDelta x = true)
    (hy : isToolDelta y = true) (hne : blockIndex x ≠ blockIndex y) :
    (anthropicSse serde).translate (A ++ x :: y :: B) true =
      (anthropicSse serde).translate (A ++ y :: x :: B) true := by
  obtain ⟨f, hf⟩ := pushEvent_toolDelta serde x hx
  obtain ⟨g, hg⟩ := pushEvent_toolDelta serde y hy
  have hcomm : ∀ s, (anthropicSse serde).pushAll s [x, y] = (anthropicSse serde).pushAll s [y, x] := by
    intro s
    simp only [SseTranslator.pushAll, anthropicSse, hf, hg, updateBlock_comm s f g hne]
  simp only [SseTranslator.translate, SseTranslator.pushAll_swap A x y B hcomm]

end

/-- **Streams aggregate.**  Without an upstream error both translators give the text, one call
for each index with its fragments in order, the message and one `Completed` at the end.  Deltas of
different calls may change places. -/
theorem streams_aggregate (serde : Serde) : (∀ vs, (∀ v ∈ vs, isErrorChunk v = false) →
      ∃ evs, (chatSse serde).translate vs true = .ok evs ∧ Aggregates evs (vs.filterMap chunkContent)
          (fun i => ∃ tc ∈ vs.flatMap chunkToolCalls, callIndex tc = i)
          (fun i => String.join
            (((vs.flatMap chunkToolCalls).filter fun tc => callIndex tc = i).map callFragment))) ∧
    (∀ vs vs' A x y B, (∀ v ∈ vs, isErrorChunk v = false) →
      List.Forall₂ SameApartFromCalls vs vs' → vs.flatMap chunkToolCalls = A ++ x :: y :: B →
      vs'.flatMap chunkToolCalls = A ++ y :: x :: B → callIndex x ≠ callIndex y →
      (chatSse serde).translate vs true = (chatSse serde).translate vs' true) ∧
    (∀ vs, (∀ v ∈ vs, isErrorEvent v = false) → ∃ evs, (anthropicSse serde).translate vs true = .ok evs ∧
        Aggregates evs (vs.filterMap textDelta) (fun i => ∃ e ∈ vs, toolUseStart e = some i)
          (fun i => if blockJson i vs = "" then "\x7b\x7d" else blockJson i vs)) ∧
    (∀ A x y B, isToolDelta x = true → isToolDelta y = true → blockIndex x ≠ blockIndex y →
      (anthropicSse serde).translate (A ++ x :: y :: B) true =
        (anthropicSse serde).translate (A ++ y :: x :: B) true) :=
  ⟨chat_aggregates, fun _ _ _ _ _ _ => chat_swap, anthropic_aggregates, fun _ _ _ _ => anthropic_swap⟩

def interleavedChunks : List Value :=
  let call (i : Nat) (args : String) := Value.mkObj
    [("index", .ofNat i), ("function", .mkObj [("arguments", .string args)])]
  let chunk (content : String) (calls : List Value) := Value.mkObj [("choices", .array
    [.mkObj [("delta", .mkObj [("content", .string content), ("tool_calls", .array calls)])]])]
  [chunk "a" [call 1 "x"], chunk "" [call 0 "y", call 1 "z"], chunk "b" []]

theorem streams_aggregate_interleaved : let serde : Serde := ⟨fun _ => .error "", fun _ => ""⟩
    ∃ evs, (chatSse serde).translate interleavedChunks true = .ok evs ∧
      Aggregates evs (interleavedChunks.filterMap chunkContent)
        (fun i => ∃ tc ∈ interleavedChunks.flatMap chunkToolCalls, callIndex tc = i)
        (fun i => String.join (((interleavedChunks.flatMap chunkToolCalls).filter
          fun tc => callIndex tc = i).map callFragment)) :=
  (streams_aggregate _).1 interleavedChunks (by decide)

theorem large_index_merged : let serde : Serde := ⟨fun _ => .error "", fun _ => ""⟩
    let call (i : Nat) (args : String) := Value.mkObj
      [("index", .ofNat i), ("function", .mkObj [("arguments", .string args)])]
    let chunk := Value.mkObj [("choices", .array
      [.mkObj [("delta", .mkObj [("tool_calls", .array [call 0 "a", call (2 ^ 63) "b"])])]])]
    isErrorChunk chunk = false ∧
      (chunkToolCalls chunk).map (·.get "index") = [some (.ofNat 0), some (.ofNat (2 ^ 63))] ∧
      ((chatSse serde).translate [chunk] true).map doneItems =
        .ok [.functionCall { name := "", arguments := "ab", callId := "llmswitch-call-1" }] := by
  decide

end LlmSwitch
