import Codez.Switch.CallIds

/-!
Calls of one chat response: the index tells them apart, not the id.

Deltas with the same index are one call whatever ids they carry, and the last id stays; deltas that
carry no index all have index 0.
-/

namespace LlmSwitch

open Codex List

def acceptedDeltas (vs : List Value) : List Value :=
  if vs.any isErrorChunk then [] else vs.flatMap chunkToolCalls

def receivedId (tc : Value) : Option String := nonEmpty (tc.strField "id")

def receivedName (tc : Value) : Option String := nonEmpty ((tc.get "function").bind (·.strField "name"))

def deltasAt (deltas : List Value) (i : Int) : List Value := deltas.filter fun tc => callIndex tc = i

def lastId (deltas : List Value) (i : Int) : Option String := ((deltasAt deltas i).filterMap receivedId).getLast?

def lastName (deltas : List Value) (i : Int) : Option String := ((deltasAt deltas i).filterMap receivedName).getLast?

/-- The call that the deltas of index `i` make, and nothing else goes into it. -/
structure CallOf (deltas : List Value) (i : Int) (call : FunctionCall) : Prop where
  name : call.name = (lastName deltas i).getD ""
  arguments : call.arguments = String.join ((deltasAt deltas i).map callFragment)
  sent : ∀ id, lastId deltas i = some id → call.callId = id
  synthesized : lastId deltas i = none → ∃ m, call.callId = synthId "call" m

def functionCalls (items : List ResponseItem) : List FunctionCall :=
  items.filterMap fun
    | .functionCall call => some call
    | _ => none

theorem functionCalls_finishItems (calls : List FunctionCall) (text : String) :
    functionCalls (finishItems calls text) = calls := by
  unfold functionCalls finishItems
  rw [filterMap_append, filterMap_map]
  have hmsg : ∀ items : List ResponseItem, items = [] ∨ items = [assistantMessage text] →
      items.filterMap (fun
        | .functionCall call => some call
        | _ => none) = ([] : List FunctionCall) := by
    rintro items (rfl | rfl)
    · rfl
    · rfl
  rw [hmsg _ (by split <;> simp), append_nil]
  exact filterMap_some

theorem foldl_mergeCall_name (tcs : List Value) (o : Option ToolAcc) :
    ((tcs.foldl (fun o tc => some (mergeCall tc o)) o).getD {}).name =
      ((tcs.filterMap receivedName).getLast?).or (o.getD {}).name := by
  induction tcs using List.reverseRecOn with
  | nil => rfl
  | append_singleton tcs tc ih =>
    rw [foldl_append, filterMap_append, foldl_cons, foldl_nil, Option.getD_some, mergeCall, ih]
    show (receivedName tc).or _ = _
    cases h : receivedName tc with
    | none => simp [h]
    | some name => simp [h]

theorem finishCalls_forall₂ (n : Nat) (accs : List ToolAcc) :
    List.Forall₂ (fun acc call => call.name = acc.name.getD "" ∧ call.arguments = acc.arguments ∧
        (∀ id, acc.callId = some id → call.callId = id) ∧
        (acc.callId = none → ∃ m, call.callId = synthId "call" m)) accs (finishCalls n accs).1 := by
  induction accs generalizing n with
  | nil => exact List.Forall₂.nil
  | cons acc accs ih =>
    refine List.Forall₂.cons ⟨rfl, rfl, ?_, ?_⟩ (ih _)
    · intro id h
      show acc.callId.getD _ = id
      rw [h]
      rfl
    · intro h
      refine ⟨if acc.callId.isSome then n else n + 1, ?_⟩
      show acc.callId.getD _ = _
      rw [h]
      rfl

theorem assignIds_perm (n : Nat) (sent : List (Option String)) : (assignIds n sent).Perm
      (sent.filterMap id ++ (List.range' (n + 1) (sent.count none)).map (synthId "call")) := by
  induction sent generalizing n with
  | nil => exact List.Perm.refl _
  | cons o sent ih =>
    cases o with
    | some id' =>
      have hcnt : (some id' :: sent).count none = sent.count none := count_cons_of_ne (by simp)
      rw [hcnt]
      exact (ih n).cons id'
    | none =>
      rw [count_cons_self, List.range'_succ, map_cons]
      exact ((ih (n + 1)).cons _).trans perm_middle.symm

theorem collected_eq {ds : List Value} {i : Int} {acc : ToolAcc}
    (h : (ds.foldl pushToolCall OrdMap.empty).get? i = some acc) :
    acc.callId = lastId ds i ∧ acc.name = lastName ds i ∧
      acc.arguments = String.join ((deltasAt ds i).map callFragment) := by
  have hid := foldl_mergeCall_callId (deltasAt ds i) none
  have hn := foldl_mergeCall_name (deltasAt ds i) none
  have hargs := collected_arguments ds i acc h
  rw [get?_collected] at h
  unfold deltasAt at hid hn
  rw [h] at hid hn
  exact ⟨hid.trans (Option.or_none), hn.trans (Option.or_none), hargs⟩

theorem doneItems_chat {serde : Serde} {vs : List Value} (h : ∀ v ∈ vs, isErrorChunk v = false) :
    ∃ st : ChatSseState, st.toolCalls = (vs.flatMap chunkToolCalls).foldl pushToolCall OrdMap.empty ∧
      doneItems ((chatSse serde).emitted vs) =
        finishItems (finishCalls 0 (st.toolCalls.entries.map Prod.snd)).1 st.text := by
  obtain ⟨st, hrun⟩ := (chatSse_emitsText serde).pushAll_ok {} vs h
  obtain ⟨-, hcs, hcounter⟩ := chat_run (congrArg Prod.snd hrun)
  have hfin : (chatSse serde).finish st = finishWith 0 (st.toolCalls.entries.map Prod.snd) st.text st.responseId
      (st.usage.map mapUsage) (ChatSseState.mapEndTurn st.finishReason) := by
    rw [← hcounter]
    rfl
  refine ⟨st, hcs, ?_⟩
  have hrun' : (chatSse serde).pushAll (chatSse serde).init vs = _ := hrun
  rw [SseTranslator.emitted, hrun']
  dsimp only
  rw [hfin, doneItems_append, doneItems_deltas, nil_append, doneItems_finishWith]

theorem chat_calls (serde : Serde) (vs : List Value) : ∃ indices : List Int, indices.Pairwise (· < ·) ∧
      (∀ i, i ∈ indices ↔ ∃ tc ∈ acceptedDeltas vs, callIndex tc = i) ∧
      List.Forall₂ (CallOf (acceptedDeltas vs)) indices (functionCalls (doneItems ((chatSse serde).emitted vs))) ∧
      callIds (doneItems ((chatSse serde).emitted vs)) = assignIds 0 (indices.map (lastId (acceptedDeltas vs))) := by
  by_cases herr : vs.any isErrorChunk = true
  · have hdeltas : acceptedDeltas vs = [] := if_pos herr
    rw [doneItems_emitted_of_error (chatSse_emitsText serde) herr, hdeltas]
    refine ⟨[], List.Pairwise.nil, ?_, List.Forall₂.nil, rfl⟩
    intro i
    simp
  · have hdeltas : acceptedDeltas vs = vs.flatMap chunkToolCalls := if_neg herr
    obtain ⟨st, hcs, hi⟩ := @doneItems_chat serde vs (by simpa using herr)
    have hent : ∀ e ∈ st.toolCalls.entries, e.2.callId = lastId (acceptedDeltas vs) e.1 ∧
        e.2.name = lastName (acceptedDeltas vs) e.1 ∧
        e.2.arguments = String.join ((deltasAt (acceptedDeltas vs) e.1).map callFragment) := by
      intro e he
      have hget := (OrdMap.mem_entries_iff _ e.1 e.2).mp he
      rw [hcs, ← hdeltas] at hget
      exact collected_eq hget
    rw [hi, functionCalls_finishItems, callIds_finishItems, finishCalls_callId]
    refine ⟨st.toolCalls.entries.map Prod.fst, st.toolCalls.pairwise_keys, ?_, ?_, ?_⟩
    · intro i
      rw [OrdMap.mem_keys_iff, hcs, isSome_collected, hdeltas]
    · have hfinished := finishCalls_forall₂ 0 (st.toolCalls.entries.map Prod.snd)
      rw [List.forall₂_map_left_iff] at hfinished ⊢
      refine ((List.forall₂_and_left _ _).mpr ⟨hent, hfinished⟩).imp ?_
      rintro e call ⟨⟨hid, hn, hargs⟩, hcallName, hcallArguments, hsent, hsynthesized⟩
      rw [hid] at hsent hsynthesized
      exact ⟨hcallName.trans (by rw [hn]), hcallArguments.trans hargs, hsent, hsynthesized⟩
    · rw [map_map, map_map]
      exact congrArg _ (map_congr_left fun e he => (hent e he).1)

def callPlace (indices : List Int) (tc : Value) : Nat := indices.idxOf (callIndex tc)

/-- **Calls are told apart by their index.**  A response gives one call for each index, made of the
deltas of this index.  Deltas with different ids go into different calls exactly when their indices
differ.  The ids of the calls are the last ones received for each index, and synthesized ones for the
indices without an id. -/
theorem chat_calls_by_index (serde : Serde) (vs : List Value) :
    ∃ indices : List Int, indices.Pairwise (· < ·) ∧
      (∀ i, i ∈ indices ↔ ∃ tc ∈ acceptedDeltas vs, callIndex tc = i) ∧
      List.Forall₂ (CallOf (acceptedDeltas vs)) indices (functionCalls (doneItems ((chatSse serde).emitted vs))) ∧
      (∀ tc ∈ acceptedDeltas vs, ∀ tc' ∈ acceptedDeltas vs, ∀ id id', receivedId tc = some id →
        receivedId tc' = some id' → id ≠ id' →
          (callPlace indices tc ≠ callPlace indices tc' ↔ callIndex tc ≠ callIndex tc')) ∧
      ∀ id, (callIds (doneItems ((chatSse serde).emitted vs))).count id =
        indices.countP (fun i => lastId (acceptedDeltas vs) i = some id) +
          ((List.range' 1 (indices.countP fun i => lastId (acceptedDeltas vs) i = none)).map
            (synthId "call")).count id := by
  obtain ⟨indices, hsorted, hmem, hcalls, hids⟩ := chat_calls serde vs
  refine ⟨indices, hsorted, hmem, hcalls, ?_, ?_⟩
  · intro tc htc tc' _ id id' _ _ _
    have hplace : callIndex tc ∈ indices := (hmem _).mpr ⟨tc, htc, rfl⟩
    exact not_congr (idxOf_inj hplace)
  · intro id
    have hsent : ((indices.map (lastId (acceptedDeltas vs))).filterMap fun o => o).count id =
        indices.countP fun i => lastId (acceptedDeltas vs) i = some id := by
      rw [count_filterMap, countP_map]
      exact countP_congr fun i _ => by simp
    have hnone : (indices.map (lastId (acceptedDeltas vs))).count none =
        indices.countP fun i => lastId (acceptedDeltas vs) i = none := by
      rw [List.count, countP_map]
      exact countP_congr fun i _ => by simp
    rw [hids, (assignIds_perm 0 _).count_eq, count_append, hnone]
    exact congrArg (· + _) hsent

theorem different_ids_merged : let serde : Serde := ⟨fun _ => .error "", fun _ => ""⟩
    let chunk (calls : List Value) := Value.mkObj [("choices", .array
      [.mkObj [("delta", .mkObj [("tool_calls", .array calls)])]])]
    let merged := chunk [.mkObj [("id", .string "a")], .mkObj [("id", .string "b")]]
    let twice := chunk [.mkObj [("index", .ofNat 0), ("id", .string "a")],
      .mkObj [("index", .ofNat 1), ("id", .string "a")]]
    (acceptedDeltas [merged]).map receivedId = [some "a", some "b"] ∧
      doneItems ((chatSse serde).emitted [merged]) = [.functionCall { name := "", arguments := "", callId := "b" }] ∧
      callIds (doneItems ((chatSse serde).emitted [twice])) = ["a", "a"] := by
  decide

end LlmSwitch
