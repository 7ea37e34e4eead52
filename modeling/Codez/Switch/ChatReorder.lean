import Codez.Switch.ChatReq

/-!
Reordering of chat messages (`reorder_tool_messages`).
-/

namespace LlmSwitch.ChatReq

open Codex Fallible Run List

def resultsIn (msgs : List Value) (id : String) : List Value :=
  msgs.filter fun m => toolMessageId m = some id

def nonTool (msgs : List Value) : List Value := msgs.filter fun m => toolMessageId m = none

@[simp] theorem resultsIn_append (xs ys : List Value) (id : String) :
    resultsIn (xs ++ ys) id = resultsIn xs id ++ resultsIn ys id := by
  simp [resultsIn]

@[simp] theorem nonTool_append (xs ys : List Value) : nonTool (xs ++ ys) = nonTool xs ++ nonTool ys := by
  simp [nonTool]

@[simp] theorem resultsIn_singleton (v : Value) (id : String) :
    resultsIn [v] id = if toolMessageId v = some id then [v] else [] := by
  simp [resultsIn, filter_singleton]

@[simp] theorem nonTool_singleton (v : Value) : nonTool [v] = if toolMessageId v = none then [v] else [] := by
  simp [nonTool, filter_singleton]

variable {β : Type}

theorem lookup_cons_ite (e : String × β) (t : List (String × β)) (id : String) :
    (e :: t).lookup id = if id = e.1 then some e.2 else t.lookup id := by
  split
  · next h =>
    subst h
    simp [List.lookup]
  · next h =>
    have hb : (id == e.1) = false := beq_false_of_ne h
    simp only [List.lookup, hb]

theorem lookup_pushAt (id id' : String) (msg : Value) (t : List (String × List Value)) :
    (pushAt id msg t).lookup id' =
      if id' = id then some ((t.lookup id).getD [] ++ [msg]) else t.lookup id' := by
  induction t with
  | nil => simp [pushAt, lookup_cons_ite]
  | cons e t ih =>
    unfold pushAt
    by_cases he : e.1 = id
    · rw [if_pos he, lookup_cons_ite, lookup_cons_ite, lookup_cons_ite]
      by_cases h : id' = id <;> simp [h, he]
    · have he' : id ≠ e.1 := fun hc => he hc.symm
      rw [if_neg he, lookup_cons_ite, lookup_cons_ite, lookup_cons_ite, if_neg he', ih]
      by_cases h : id' = e.1
      · simp [h, he]
      · simp [h]

structure Split (msgs : List Value) (parts : List (String × List Value) × List Value) : Prop where
  rest : parts.2 = nonTool msgs
  results : ∀ id, (parts.1.lookup id).getD [] = resultsIn msgs id
  keys : ∀ id, parts.1.lookup id ≠ none → ∃ m ∈ msgs, toolMessageId m = some id

theorem splitToolMessages_split (msgs : List Value) : Split msgs (splitToolMessages msgs) := by
  unfold splitToolMessages
  induction msgs using List.reverseRecOn with
  | nil => exact ⟨rfl, fun _ => rfl, fun _ h => absurd rfl h⟩
  | append_singleton msgs msg ih =>
    rw [foldl_append]
    generalize msgs.foldl _ ([], []) = parts at ih ⊢
    simp only [foldl_cons, foldl_nil]
    cases hm : toolMessageId msg with
    | none =>
      refine ⟨?_, fun id => ?_, fun id hid => ?_⟩
      · simp [nonTool, hm, ih.rest]
      · simp [resultsIn, hm, ih.results id]
      · obtain ⟨m, hmem, hk⟩ := ih.keys id hid
        exact ⟨m, mem_append_left _ hmem, hk⟩
    | some id =>
      refine ⟨?_, fun id' => ?_, fun id' hid => ?_⟩
      · simp [nonTool, hm, ih.rest]
      · rw [lookup_pushAt]
        by_cases h : id' = id
        · simp [h, resultsIn, hm, ih.results id]
        · have h' : ¬ id = id' := fun hc => h hc.symm
          simp [h, h', resultsIn, hm, ih.results id']
      · rw [lookup_pushAt] at hid
        split at hid
        · next h => exact ⟨msg, by simp, by rw [hm, h]⟩
        · obtain ⟨m, hmem, hk⟩ := ih.keys id' hid
          exact ⟨m, mem_append_left _ hmem, hk⟩

theorem lookup_filter_key (t : List (String × β)) (p : String → Bool) (id : String) (h : p id = true) :
    (t.filter fun e => p e.1).lookup id = t.lookup id := by
  induction t with
  | nil => rfl
  | cons e t ih =>
    rw [filter_cons, lookup_cons_ite]
    split
    · rw [lookup_cons_ite, ih]
    · next hp =>
      have hne : id ≠ e.1 := by
        rintro rfl
        exact hp h
      rw [if_neg hne, ih]

def takeResult (acc : List (String × List Value) × List Value) (id : String) :
    List (String × List Value) × List Value :=
  (acc.1.filter fun e => e.1 ≠ id, acc.2 ++ (acc.1.lookup id).getD [])

theorem filter_key_of_lookup_eq_none (t : List (String × β)) (id : String) (h : t.lookup id = none) :
    (t.filter fun e => e.1 ≠ id) = t := by
  rw [filter_eq_self]
  intro e he
  simpa using fun hid : e.1 = id => by simpa [hid] using lookup_eq_none_iff.mp h e he

theorem placeMessage_eq (acc : List (String × List Value) × List Value) (msg : Value) :
    placeMessage acc msg = (toolCallIds msg).foldl takeResult (acc.1, acc.2 ++ [msg]) := by
  unfold placeMessage
  congr 1
  funext acc id
  cases h : acc.1.lookup id with
  | none =>
    rw [takeResult, filter_key_of_lookup_eq_none acc.1 id h, h]
    simp
  | some msgs => simp [takeResult, h]

theorem foldl_takeResult (ids : List String) (hids : ids.Nodup) (t : List (String × List Value))
    (out : List Value) :
    ids.foldl takeResult (t, out) =
      (t.filter fun e => !ids.contains e.1, out ++ ids.flatMap fun id => (t.lookup id).getD []) := by
  induction ids generalizing t out with
  | nil => simp
  | cons id ids ih =>
    obtain ⟨hid, hids⟩ := nodup_cons.mp hids
    rw [foldl_cons, takeResult, ih hids]
    -- the other ids do not see that `id` is gone
    have hsame : ∀ id' ∈ ids, (t.filter fun e => e.1 ≠ id).lookup id' = t.lookup id' := by
      intro id' hm
      refine lookup_filter_key t (fun k => k ≠ id) id' ?_
      simpa using fun hc : id' = id => hid (hc ▸ hm)
    congr 1
    · rw [filter_filter]
      congr 1
      funext e
      by_cases he : e.1 = id <;> simp [he]
    · rw [append_assoc, flatMap_cons]
      congr 2
      apply flatMap_congr
      intro id' hm
      rw [hsame id' hm]

theorem foldl_placeMessage (msgs : List Value) (h : (msgs.flatMap toolCallIds).Nodup)
    (t : List (String × List Value)) (out : List Value) :
    msgs.foldl placeMessage (t, out) = (t.filter fun e => !(msgs.flatMap toolCallIds).contains e.1,
        out ++ msgs.flatMap fun m => m :: (toolCallIds m).flatMap fun id => (t.lookup id).getD []) := by
  induction msgs generalizing t out with
  | nil => simp
  | cons m msgs ih =>
    rw [flatMap_cons, nodup_append] at h
    obtain ⟨hm, hr, hdisj⟩ := h
    rw [foldl_cons, placeMessage_eq, foldl_takeResult _ hm, ih hr]
    have hsame : ∀ id ∈ msgs.flatMap toolCallIds,
        (t.filter fun e => !(toolCallIds m).contains e.1).lookup id = t.lookup id := by
      intro id hid
      refine lookup_filter_key t (fun k => !(toolCallIds m).contains k) id ?_
      simpa using fun hc => hdisj id hc id hid rfl
    congr 1
    · rw [filter_filter]
      congr 1
      funext e
      simp [Bool.and_comm]
    · simp only [flatMap_cons, append_assoc, cons_append, nil_append]
      congr 3
      apply flatMap_congr
      intro m' hm'
      congr 1
      apply flatMap_congr
      intro id hid
      rw [hsame id (mem_flatMap.mpr ⟨m', hm', hid⟩)]

/-- **Closed form of the reordering**: distinct calls, and no result without its call. -/
theorem reorderToolMessages_eq (env : BuildEnv) (msgs : List Value)
    (hcs : ((nonTool msgs).flatMap toolCallIds).Nodup)
    (hres : ∀ m ∈ msgs, ∀ id, toolMessageId m = some id → id ∈ (nonTool msgs).flatMap toolCallIds) :
    reorderToolMessages env msgs =
      (nonTool msgs).flatMap fun m => m :: (toolCallIds m).flatMap (resultsIn msgs) := by
  have hs := splitToolMessages_split msgs
  unfold reorderToolMessages
  simp only [hs.rest, foldl_placeMessage _ hcs, hs.results, nil_append]
  -- nothing is left in the table
  have hnil : ((splitToolMessages msgs).1.filter fun e =>
      !((nonTool msgs).flatMap toolCallIds).contains e.1) = [] := by
    rw [filter_eq_nil_iff]
    intro e he
    obtain ⟨m, hm, hk⟩ := hs.keys e.1 fun hnone => by simpa using lookup_eq_none_iff.mp hnone e he
    simpa using hres m hm e.1 hk
  have hwalk : env.hashOrder [] = [] := (env.perm []).eq_nil
  rw [hnil, map_nil, hwalk, flatMap_nil, append_nil]

end LlmSwitch.ChatReq
