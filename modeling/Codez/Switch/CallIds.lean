import Codez.Switch.Aggregation
import Codez.Switch.Request

/-!
Ids of the calls in a conversation history.

A call that came without an id gets `llmswitch-call-n`, where `n` counts within one response.
-/

namespace LlmSwitch

open Codex List

def assignIds : Nat → List (Option String) → List String
  | _, [] => []
  | n, some id :: sent => id :: assignIds n sent
  | n, none :: sent => synthId "call" (n + 1) :: assignIds (n + 1) sent

theorem finishCalls_callId (n : Nat) (accs : List ToolAcc) :
    (finishCalls n accs).1.map (·.callId) = assignIds n (accs.map (·.callId)) := by
  induction accs generalizing n with
  | nil => rfl
  | cons acc accs ih => cases h : acc.callId <;> simp [finishCalls, assignIds, h, ih]

theorem callIds_finishItems (calls : List FunctionCall) (text : String) :
    callIds (finishItems calls text) = calls.map (·.callId) := by
  have hcs : callIds (calls.map .functionCall) = calls.map (·.callId) := by
    rw [callIds, filterMap_map]
    exact filterMap_eq_map ▸ rfl
  rw [finishItems, callIds_append, hcs]
  split <;> simp [assistantMessage, callIds, callId?]

theorem synthId_inj {kind : String} {m n : Nat} (h : synthId kind m = synthId kind n) : m = n := by
  rw [synthId, synthId, String.append_right_inj] at h
  exact Nat.repr_inj.mp h

theorem mem_assignIds {id : String} {n : Nat} {sent : List (Option String)}
    (h : id ∈ assignIds n sent) :
    some id ∈ sent ∨ none ∈ sent ∧ ∃ m, n < m ∧ id = synthId "call" m := by
  induction sent generalizing n with
  | nil => simp [assignIds] at h
  | cons o sent ih =>
    cases o with
    | some id' =>
      rcases mem_cons.mp h with rfl | h
      · exact .inl mem_cons_self
      · rcases ih h with h | ⟨hnone, hm⟩
        · exact .inl (mem_cons_of_mem _ h)
        · exact .inr ⟨mem_cons_of_mem _ hnone, hm⟩
    | none =>
      rcases mem_cons.mp h with rfl | h
      · exact .inr ⟨mem_cons_self, n + 1, Nat.lt_succ_self n, rfl⟩
      · rcases ih h with h | ⟨-, m, hm, hid⟩
        · exact .inl (mem_cons_of_mem _ h)
        · exact .inr ⟨mem_cons_self, m, Nat.lt_of_succ_lt hm, hid⟩

theorem synthId_mem_assignIds (n : Nat) {sent : List (Option String)} (h : none ∈ sent) :
    synthId "call" (n + 1) ∈ assignIds n sent := by
  induction sent with
  | nil => simp at h
  | cons o sent ih =>
    cases o with
    | none => exact mem_cons_self
    | some id =>
      have h' : none ∈ sent := by simpa using h
      exact mem_cons_of_mem _ (ih h')

theorem nodup_assignIds (n : Nat) (sent : List (Option String)) (hnd : (sent.filterMap id).Nodup)
    (hform : ∀ m, some (synthId "call" m) ∉ sent) : (assignIds n sent).Nodup := by
  induction sent generalizing n with
  | nil => exact nodup_nil
  | cons o sent ih =>
    have hform' : ∀ m, some (synthId "call" m) ∉ sent := fun m hm =>
      hform m (mem_cons_of_mem _ hm)
    cases o with
    | some id' =>
      have hcons : (some id' :: sent).filterMap id = id' :: sent.filterMap id := rfl
      rw [hcons, nodup_cons] at hnd
      refine nodup_cons.mpr ⟨fun hm => ?_, ih n hnd.2 hform'⟩
      rcases mem_assignIds hm with hs | ⟨-, m, -, rfl⟩
      · exact hnd.1 (mem_filterMap.mpr ⟨_, hs, rfl⟩)
      · exact hform m mem_cons_self
    | none =>
      refine nodup_cons.mpr ⟨fun hm => ?_, ih (n + 1) hnd hform'⟩
      rcases mem_assignIds hm with hs | ⟨-, m, hlt, heq⟩
      · exact hform' _ hs
      · exact absurd (synthId_inj heq) (Nat.ne_of_lt hlt)

/-! ## Upstream responses -/

inductive Response where
  | chat (chunks : List Value)
  | anthropic (events : List Value)

def Response.items (serde : Serde) : Response → List ResponseItem
  | .chat vs => doneItems ((chatSse serde).emitted vs)
  | .anthropic vs => doneItems ((anthropicSse serde).emitted vs)

def history (serde : Serde) (rs : List Response) : List ResponseItem := rs.flatMap (Response.items serde)

/-- The id that was sent for call `i`: `none` when there is no such call, `some none` when it came
without an id.  Of several ids a chat upstream sent the last one counts, and for an Anthropic
upstream the one of the last start of the block. -/
def Response.sentId : Response → Int → Option (Option String)
  | .chat vs, i =>
    let tcs := (vs.flatMap chunkToolCalls).filter fun tc => callIndex tc = i
    if vs.any isErrorChunk ∨ tcs = [] then none
    else some (tcs.filterMap fun tc => nonEmpty (tc.strField "id")).getLast?
  | .anthropic vs, i =>
    if vs.any isErrorEvent then none
    else (vs.filter fun e => toolUseStart e = some i).getLast?.map blockCallId

def Response.Synthesises (r : Response) : Prop := ∃ i, r.sentId i = some none

/-- The ids of a response are assigned to its calls in the order of their indices. -/
def Response.Assigned (serde : Serde) (r : Response) : Prop :=
  ∃ indices : List Int, indices.Pairwise (· < ·) ∧ (∀ i, i ∈ indices ↔ (r.sentId i).isSome) ∧
    callIds (r.items serde) = assignIds 0 (indices.map fun i => (r.sentId i).getD none)

open SseTranslator

theorem callIds_emitted {σ : Type} {T : SseTranslator σ} {vs : List Value} {ds : List String} {st : σ}
    {accs : List ToolAcc} {text : String} {rid : Option String} {u : Option TokenUsage} {e : Option Bool}
    (h : T.pushAll T.init vs = (ds.map .outputTextDelta, .ok st))
    (hf : T.finish st = finishWith 0 accs text rid u e) :
    callIds (doneItems (T.emitted vs)) = assignIds 0 (accs.map (·.callId)) := by
  rw [emitted, h]
  dsimp only
  rw [hf, doneItems_append, doneItems_deltas, nil_append, doneItems_finishWith,
    callIds_finishItems, finishCalls_callId]

theorem doneItems_emitted_of_error {σ : Type} {T : SseTranslator σ} {err : Value → Bool}
    {delta : Value → Option String} (hT : T.EmitsText err delta) {vs : List Value}
    (h : vs.any err = true) : doneItems (T.emitted vs) = [] := by
  have hev := hT.pushAll_events T.init vs
  have hfail : ∀ s, ∃ e, (T.pushAll s vs).2 = .error e := by
    clear hev
    induction vs with
    | nil => simp at h
    | cons v vs ih =>
      intro s
      cases hv : err v with
      | true =>
        obtain ⟨e, hp⟩ := hT.fails s v hv
        exact ⟨e, by simp [pushAll, hp]⟩
      | false =>
        obtain ⟨s', hp⟩ := hT.emits s v hv
        obtain ⟨e, he⟩ := ih (by simpa [hv] using h) s'
        exact ⟨e, by simp [pushAll, hp, he]⟩
  obtain ⟨e, he⟩ := hfail T.init
  unfold emitted
  cases hr : T.pushAll T.init vs with
  | mk evs r =>
    rw [hr] at hev he
    dsimp only at hev he
    rw [he, hev]
    exact doneItems_deltas _

theorem assigned_of_error {serde : Serde} {r : Response} (hi : r.items serde = [])
    (hsent : ∀ i, r.sentId i = none) : r.Assigned serde :=
  ⟨[], List.Pairwise.nil, by simp [hsent], by rw [hi]; rfl⟩

theorem foldl_mergeCall_callId (tcs : List Value) (o : Option ToolAcc) :
    ((tcs.foldl (fun o tc => some (mergeCall tc o)) o).getD {}).callId =
      ((tcs.filterMap fun tc => nonEmpty (tc.strField "id")).getLast?).or (o.getD {}).callId := by
  induction tcs using List.reverseRecOn with
  | nil => rfl
  | append_singleton tcs tc ih =>
    rw [foldl_append, filterMap_append, foldl_cons, foldl_nil, Option.getD_some,
      mergeCall, ih]
    cases h : nonEmpty (tc.strField "id") <;> simp [h]

open Response

theorem chat_assigned (serde : Serde) (vs : List Value) : (chat vs).Assigned serde := by
  by_cases herr : vs.any isErrorChunk = true
  · exact assigned_of_error (doneItems_emitted_of_error (chatSse_emitsText serde) herr)
      fun i => by simp [sentId, herr]
  · have hok : ∀ v ∈ vs, isErrorChunk v = false := by simpa using herr
    obtain ⟨st, hrun⟩ := (chatSse_emitsText serde).pushAll_ok {} vs hok
    obtain ⟨-, hcs, hcounter⟩ := chat_run (congrArg Prod.snd hrun)
    have hsent : ∀ i, (∃ tc ∈ vs.flatMap chunkToolCalls, callIndex tc = i) ↔
        ((chat vs).sentId i).isSome := by
      intro i
      simp only [sentId, herr]
      generalize vs.flatMap chunkToolCalls = tcs
      simp
    refine ⟨st.toolCalls.entries.map Prod.fst, st.toolCalls.pairwise_keys, fun i => ?_, ?_⟩
    · rw [OrdMap.mem_keys_iff, hcs, isSome_collected, hsent]
    · rw [items, callIds_emitted hrun (by rw [← hcounter]; rfl), map_map, map_map]
      congr 1
      refine map_congr_left fun e he => ?_
      have hget := (OrdMap.mem_entries_iff _ e.1 e.2).mp he
      have hsome := (hsent e.1).mp ((isSome_collected _ e.1).mp (by rw [← hcs, hget]; rfl))
      rw [hcs, get?_collected] at hget
      have hid := foldl_mergeCall_callId
        ((vs.flatMap chunkToolCalls).filter fun tc => callIndex tc = e.1) none
      rw [hget] at hid
      simp only [sentId, Function.comp_apply] at hsome ⊢
      split at hsome
      · cases hsome
      · next hne =>
        rw [if_neg hne]
        simpa using hid

theorem pushEvent_synthCounter {serde : Serde} {st st' : AnthropicSseState} {evt : Value}
    {evs : List ResponseEvent} (h : pushEvent serde st evt = .ok (st', evs)) :
    st'.synthCounter = st.synthCounter := by
  unfold pushEvent at h
  split at h
  · cases h
  · split at h <;> (cases h; rfl)
  · cases h
    rfl
  · have hst : (pushBlockDelta st (blockIndex evt) (evt.get "delta")).1 = st' :=
      congrArg Prod.fst (Except.ok.inj h)
    rw [← hst]
    unfold pushBlockDelta
    repeat' split
    all_goals rfl
  · cases h
    rfl
  · cases h
    rfl

theorem anthropic_callId {serde : Serde} {st : AnthropicSseState} {vs : List Value}
    (h : ((anthropicSse serde).pushAll {} vs).2 = .ok st) (i : Int) :
    (st.block i).callId =
      ((vs.filter fun e => toolUseStart e = some i).getLast?.map blockCallId).getD none := by
  rw [pushAll_observe (fun s : AnthropicSseState => s.block i) (blockAfter i)
    (fun s v s' evs hp => pushEvent_blockAfter serde s s' v evs hp i) vs {} st h]
  clear h
  induction vs using List.reverseRecOn with
  | nil => rfl
  | append_singleton vs v ih =>
    rw [foldl_append, foldl_cons, foldl_nil, filter_append, blockAfter]
    split
    · next hs => simp [hs]
    · next hs => simpa [hs] using ih

theorem anthropic_assigned (serde : Serde) (vs : List Value) :
    (anthropic vs).Assigned serde := by
  by_cases herr : vs.any isErrorEvent = true
  · exact assigned_of_error (doneItems_emitted_of_error (anthropicSse_emitsText serde) herr)
      fun i => by simp [sentId, herr]
  · have hok : ∀ v ∈ vs, isErrorEvent v = false := by simpa using herr
    obtain ⟨st, hrun⟩ := (anthropicSse_emitsText serde).pushAll_ok {} vs hok
    have hblock := pushAll_block serde vs {} st (congrArg Prod.snd hrun)
    have hcounter : st.synthCounter = 0 := by
      rw [pushAll_observe AnthropicSseState.synthCounter (fun n _ => n)
        (fun s v s' evs hp => pushEvent_synthCounter hp) vs {} st (congrArg Prod.snd hrun)]
      exact foldl_fixed ..
    refine ⟨(toolBlocks st).map Prod.fst, pairwise_toolBlocks st, fun i => ?_, ?_⟩
    · rw [mem_toolBlocks_iff, (hblock i).2]
      simp [sentId, herr, AnthropicSseState.block, blockIsTool]
    · rw [items, callIds_emitted hrun (by rw [← hcounter]; rfl), calls_eq_toolBlocks,
        map_map, map_map]
      congr 1
      refine map_congr_left fun e he => ?_
      have hid := anthropic_callId (congrArg Prod.snd hrun) e.1
      rw [block_of_mem (mem_of_mem_filter he)] at hid
      simpa [sentId, herr] using hid

theorem Response.assigned (serde : Serde) : ∀ r : Response, r.Assigned serde
  | .chat vs => chat_assigned serde vs
  | .anthropic vs => anthropic_assigned serde vs

/-! ## Ids of a history -/

section
variable {serde : Serde} {r : Response}

theorem mem_callIds_items {id : String} (h : id ∈ callIds (r.items serde)) :
    (∃ i, r.sentId i = some (some id)) ∨ r.Synthesises ∧ ∃ m, id = synthId "call" m := by
  obtain ⟨indices, -, hmem, hids⟩ := r.assigned serde
  -- what stands in the list of sent ids is the id of an index
  have hsent : ∀ o, o ∈ indices.map (fun i => (r.sentId i).getD none) → ∃ i, r.sentId i = some o := by
    intro o ho
    obtain ⟨i, hi, rfl⟩ := mem_map.mp ho
    obtain ⟨o, ho⟩ := Option.isSome_iff_exists.mp ((hmem i).mp hi)
    exact ⟨i, by rw [ho]; rfl⟩
  rw [hids] at h
  rcases mem_assignIds h with h | ⟨hnone, m, -, hm⟩
  · exact .inl (hsent _ h)
  · exact .inr ⟨hsent _ hnone, m, hm⟩

theorem synthId_mem_items (h : r.Synthesises) : synthId "call" 1 ∈ callIds (r.items serde) := by
  obtain ⟨indices, -, hmem, hids⟩ := r.assigned serde
  obtain ⟨i, hi⟩ := h
  rw [hids]
  refine synthId_mem_assignIds 0 (mem_map.mpr ⟨i, (hmem i).mpr (by rw [hi]; rfl), ?_⟩)
  rw [hi]
  rfl

theorem nodup_callIds_items
    (hw : ∀ i j id, r.sentId i = some (some id) → r.sentId j = some (some id) → i = j)
    (hform : ∀ i n, r.sentId i ≠ some (some (synthId "call" n))) :
    (callIds (r.items serde)).Nodup := by
  obtain ⟨indices, hsort, hmem, hids⟩ := r.assigned serde
  have hsome : ∀ i id, (r.sentId i).getD none = some id → r.sentId i = some (some id) := by
    intro i id h
    cases ho : r.sentId i with
    | none => simp [ho] at h
    | some o =>
      rw [ho] at h
      exact congrArg some h
  rw [hids]
  refine nodup_assignIds 0 _ ?_ fun m hm => ?_
  · rw [filterMap_map]
    refine List.Nodup.filterMap ?_ (hsort.imp fun h => ne_of_lt h)
    intro i j id hi hj
    exact hw i j id (hsome i id hi) (hsome j id hj)
  · obtain ⟨i, -, hi⟩ := mem_map.mp hm
    exact hform i m (hsome i _ hi)

end

theorem callIds_history (serde : Serde) (rs : List Response) :
    callIds (history serde rs) = rs.flatMap fun r => callIds (r.items serde) := by
  induction rs with
  | nil => rfl
  | cons r rs ih =>
    rw [flatMap_cons, ← ih, ← callIds_append]
    rfl

/-- **Ids of a history.**  The upstreams keep the ids they send different and send none of the
form `llmswitch-call-n`.  Then the calls of the history have different ids exactly when at most
one response has calls without an id. -/
theorem callIds_history_nodup_iff (serde : Serde) (rs : List Response)
    (hwithin : ∀ r ∈ rs, ∀ i j id, r.sentId i = some (some id) → r.sentId j = some (some id) → i = j)
    (hacross : rs.Pairwise fun r r' => ∀ i j id, r.sentId i = some (some id) →
      r'.sentId j ≠ some (some id))
    (hform : ∀ r ∈ rs, ∀ i n, r.sentId i ≠ some (some (synthId "call" n))) :
    (callIds (history serde rs)).Nodup ↔ rs.Pairwise fun r r' => ¬ (r.Synthesises ∧ r'.Synthesises) := by
  rw [callIds_history, nodup_flatMap]
  constructor
  · rintro ⟨-, hdisj⟩
    refine hdisj.imp ?_
    rintro r r' hd ⟨hs, hs'⟩
    exact hd (synthId_mem_items hs) (synthId_mem_items hs')
  · intro hone
    refine ⟨fun r hr => nodup_callIds_items (hwithin r hr) (hform r hr), ?_⟩
    refine List.Pairwise.imp_of_mem ?_ (hacross.and hone)
    rintro r r' hr hr' ⟨hsent, hsynth⟩ id hid hid'
    rcases mem_callIds_items hid with ⟨i, hi⟩ | ⟨hs, m, rfl⟩
    · rcases mem_callIds_items hid' with ⟨j, hj⟩ | ⟨-, m, rfl⟩
      · exact hsent i j id hi hj
      · exact hform r hr i m hi
    · rcases mem_callIds_items hid' with ⟨j, hj⟩ | ⟨hs', -⟩
      · exact hform r' hr' j m hj
      · exact hsynth ⟨hs, hs'⟩

def namelessResponse : Response := .chat [.mkObj [("choices", .array [.mkObj [("delta", .mkObj
  [("tool_calls", .array [.mkObj [("index", .ofNat 0)]])])]])]]

def namedResponse : Response := .anthropic [.mkObj [("type", .string "content_block_start"),
  ("index", .ofNat 0), ("content_block", .mkObj [("type", .string "tool_use"), ("id", .string "toolu_1")])]]

theorem namelessResponse_sentId (i : Int) (id : String) : namelessResponse.sentId i ≠ some (some id) := by
  intro h
  simp only [namelessResponse, sentId] at h
  split at h
  · cases h
  · have hid := Option.some.inj h
    rw [getLast?_eq_some_iff] at hid
    obtain ⟨ys, hys⟩ := hid
    have hmem : id ∈ ys ++ [id] := by simp
    rw [← hys] at hmem
    obtain ⟨tc, htc, hid⟩ := mem_filterMap.mp hmem
    have htc' := mem_of_mem_filter htc
    obtain rfl : tc = .mkObj [("index", .ofNat 0)] := mem_singleton.mp htc'
    revert hid
    simp [Value.strField, Value.get_mkObj, List.lookup, nonEmpty]

theorem namedResponse_sentId (i : Int) (o : Option String) (h : namedResponse.sentId i = some o) :
    i = 0 ∧ o = some "toolu_1" := by
  simp only [namedResponse, sentId] at h
  split at h
  · cases h
  · obtain ⟨e, he, rfl⟩ := Option.map_eq_some_iff.mp h
    obtain ⟨hmem, hst⟩ := mem_filter.mp (mem_of_getLast? he)
    rw [mem_singleton] at hmem
    subst hmem
    refine ⟨?_, by decide⟩
    have hzero : toolUseStart (.mkObj [("type", .string "content_block_start"), ("index", .ofNat 0),
        ("content_block", .mkObj [("type", .string "tool_use"), ("id", .string "toolu_1")])]) = some 0 := by
      decide
    rw [hzero] at hst
    simpa [eq_comm] using hst

theorem synthesized_ids_collide :
    let serde : Serde := ⟨fun _ => .error "", fun _ => ""⟩
    (∀ i id, namelessResponse.sentId i ≠ some (some id)) ∧
      callIds (history serde [namelessResponse, namelessResponse]) =
        ["llmswitch-call-1", "llmswitch-call-1"] :=
  ⟨namelessResponse_sentId, by decide⟩

theorem callIds_history_nodup_iff_mixed :
    let serde : Serde := ⟨fun _ => .error "", fun _ => ""⟩
    (callIds (history serde [namelessResponse, namedResponse])).Nodup ↔
      [namelessResponse, namedResponse].Pairwise fun r r' => ¬ (r.Synthesises ∧ r'.Synthesises) := by
  refine callIds_history_nodup_iff _ _ ?_ ?_ ?_
  · intro r hr i j id hi hj
    rcases mem_pair.mp hr with rfl | rfl
    · exact absurd hi (namelessResponse_sentId i id)
    · rw [(namedResponse_sentId i _ hi).1, (namedResponse_sentId j _ hj).1]
  · refine pairwise_pair.mpr fun i j id hi => ?_
    exact absurd hi (namelessResponse_sentId i id)
  · intro r hr i n hi
    rcases mem_pair.mp hr with rfl | rfl
    · exact namelessResponse_sentId i _ hi
    · have h := congrArg (fun s => s.toList.head?) (Option.some.inj (namedResponse_sentId i _ hi).2)
      simp [synthId] at h

end LlmSwitch
