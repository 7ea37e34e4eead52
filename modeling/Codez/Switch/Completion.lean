import Codez.Switch.Egress

/-!
When the read task reports a response as complete.

`Completed` comes from `finish` alone, and `finish` is called at `[DONE]` and at end of stream
alike.
-/

namespace LlmSwitch

open Codex List

def Signal.stops (err : Value → Bool) : Signal → Bool
  | .json v => err v
  | _ => true

/-- Reading ends in an error: a frame that is not UTF-8, a `data:` line that is not JSON, an
upstream error, or a failing byte stream that no `[DONE]` came before. -/
def endsInError (err : Value → Bool) (sigs : List Signal) (ending : BodyEnd) : Bool :=
  match sigs.find? (Signal.stops err), ending with
  | some .done, _ => false
  | some _, _ => true
  | none, .eof => false
  | none, .failed _ => true

def doneReceived (sigs : List Signal) : Bool :=
  match sigs.find? (Signal.stops isErrorChunk) with
  | some .done => true
  | _ => false

def isMessageStop : Signal → Bool
  | .json v => v.strField "type" = some "message_stop"
  | _ => false

def messageStopReceived (sigs : List Signal) : Bool :=
  (sigs.takeWhile fun sig => !sig.stops isErrorEvent).any isMessageStop

/-- `Completed` only with the end marker; without it, an error item. -/
def CompletedOnlyIf (marker : Bool) (sent : List Sent) : Prop :=
  (∀ id u e, Except.ok (ResponseEvent.completed id u e) ∈ sent → marker = true) ∧
    (marker = false → ∃ e, Except.error e ∈ sent)

def OnlyText (sent : List Sent) : Prop := ∀ x ∈ sent, ∃ d, x = .ok (.outputTextDelta d)

theorem OnlyText.append {a b : List Sent} (ha : OnlyText a) (hb : OnlyText b) : OnlyText (a ++ b) := by
  intro x hx
  rcases mem_append.mp hx with h | h
  · exact ha x h
  · exact hb x h

section
variable {σ : Type} {T : SseTranslator σ} {err : Value → Bool} {delta : Value → Option String}

theorem onSignal_of_not_stops (hT : T.EmitsText err delta) (s : ReadState σ) (sig : Signal)
    (h : sig.stops err = false) (hs : OnlyText s.sent) :
    ∃ s', onSignal T s sig = .ok s' ∧ OnlyText s'.sent := by
  cases sig with
  | json v =>
    obtain ⟨t, ht⟩ := hT.emits s.translator v h
    refine ⟨⟨t, s.sent ++ ((delta v).toList.map .outputTextDelta).map .ok, s.pushed ++ [v]⟩,
      by simp only [onSignal, pushJson, ht], hs.append ?_⟩
    intro x hx
    obtain ⟨ev, hev, rfl⟩ := mem_map.mp hx
    obtain ⟨d, _, rfl⟩ := mem_map.mp hev
    exact ⟨d, rfl⟩
  | _ => cases h

theorem onSignal_of_stops (hT : T.EmitsText err delta) (s : ReadState σ) (sig : Signal)
    (h : sig.stops err = true) :
    (sig = .done ∧ onSignal T s sig = .error (.done s)) ∨
      (sig ≠ .done ∧ ∃ s' e, onSignal T s sig = .error (.returned s') ∧ s'.sent = s.sent ++ [.error e]) := by
  cases sig with
  | done => exact .inl ⟨rfl, rfl⟩
  | badJson e | badUtf8 e => exact .inr ⟨by simp, _, _, rfl, rfl⟩
  | json v =>
    obtain ⟨e, he⟩ := hT.fails s.translator v h
    refine Or.inr ⟨by simp, ⟨s.translator, s.sent ++ [.error e.toApiError], s.pushed ++ [v]⟩,
      e.toApiError, ?_, rfl⟩
    simp only [onSignal, pushJson, he, ReadState.fail]

/-- **Outcome of a body.**  It ends in an error exactly when `endsInError` says so, and then
nothing but text and that error was sent; otherwise text and the events of `finish`. -/
theorem conclude_outcome (hT : T.EmitsText err delta) (sigs : List Signal) (ending : BodyEnd)
    (s : ReadState σ) (hs : OnlyText s.sent) :
    ∃ text, OnlyText text ∧ if endsInError err sigs ending then
        ∃ e, (conclude T ending (sigs.foldlM (onSignal T) s)).sent = text ++ [.error e]
      else
        ∃ t, (conclude T ending (sigs.foldlM (onSignal T) s)).sent = text ++ (T.finish t).map .ok := by
  induction sigs generalizing s with
  | nil =>
    refine ⟨s.sent, hs, ?_⟩
    cases ending with
    | eof => exact ⟨s.translator, rfl⟩
    | failed msg => exact ⟨_, rfl⟩
  | cons sig sigs ih =>
    rw [foldlM_cons]
    cases h : sig.stops err with
    | false =>
      obtain ⟨s', hs', ho⟩ := onSignal_of_not_stops hT s sig h hs
      have he : endsInError err (sig :: sigs) ending = endsInError err sigs ending := by
        simp only [endsInError, find?_cons, h]
      rw [hs', he]
      exact ih s' ho
    | true =>
      refine ⟨s.sent, hs, ?_⟩
      rcases onSignal_of_stops hT s sig h with ⟨rfl, hd⟩ | ⟨hn, s', e, hr, hse⟩
      · have he : endsInError err (.done :: sigs) ending = false := by
          simp only [endsInError, find?_cons, h]
        rw [he, hd]
        exact ⟨s.translator, rfl⟩
      · have he : endsInError err (sig :: sigs) ending = true := by
          cases sig with
          | done => exact absurd rfl hn
          | _ => simp only [endsInError, find?_cons, h]
        rw [he, hr]
        exact ⟨e, hse⟩

theorem readTask_completedOnlyIf (hT : T.EmitsText err delta)
    (hf : ∀ s, ∃ id u e, .completed id u e ∈ T.finish s) (env : EgressEnv)
    (chunks : List (List UInt8)) (ending : BodyEnd) (marker : Bool) :
    CompletedOnlyIf marker (readTask T env chunks ending).sent ↔
      marker = true ∨ endsInError err (signals env chunks.flatten) ending = true := by
  rw [readTask_eq]
  obtain ⟨text, ht, hout⟩ := conclude_outcome hT (signals env chunks.flatten) ending
    ⟨T.init, [], []⟩ (by intro x hx; cases hx)
  cases hend : endsInError err (signals env chunks.flatten) ending with
  | true =>
    rw [hend, if_pos rfl] at hout
    obtain ⟨e, he⟩ := hout
    rw [he]
    refine ⟨fun _ => .inr rfl, fun _ => ⟨?_, fun _ => ⟨e, by simp⟩⟩⟩
    intro id u en hm
    rcases mem_append.mp hm with hm | hm
    · obtain ⟨d, hd⟩ := ht _ hm
      cases hd
    · simp at hm
  | false =>
    rw [hend, if_neg (by simp)] at hout
    obtain ⟨t, he⟩ := hout
    rw [he]
    obtain ⟨id, u, en, hc⟩ := hf t
    constructor
    · rintro ⟨h, _⟩
      exact .inl (h id u en (mem_append_right _ (mem_map_of_mem hc)))
    · rintro (h | h)
      · exact ⟨fun _ _ _ _ => h, fun hn => by rw [h] at hn; cases hn⟩
      · cases h

/-- Text first, then an error or the finished items and `Completed`, and nothing behind that. -/
def FollowsGrammar (failed : Bool) (sent : List Sent) : Prop :=
  ∃ text items last, sent = text ++ items ++ [last] ∧ OnlyText text ∧
    (∀ x ∈ items, ∃ item, x = .ok (.outputItemDone item)) ∧
    if failed then items = [] ∧ ∃ e, last = .error e else ∃ id u e, last = .ok (.completed id u e)

theorem readTask_followsGrammar (hT : T.EmitsText err delta)
    (hf : ∀ s, ∃ n accs text rid u e, T.finish s = finishWith n accs text rid u e) (env : EgressEnv)
    (chunks : List (List UInt8)) (ending : BodyEnd) :
    FollowsGrammar (endsInError err (signals env chunks.flatten) ending) (readTask T env chunks ending).sent := by
  rw [readTask_eq]
  obtain ⟨text, ht, hout⟩ := conclude_outcome hT (signals env chunks.flatten) ending ⟨T.init, [], []⟩ nofun
  cases hend : endsInError err (signals env chunks.flatten) ending with
  | true =>
    rw [hend] at hout
    obtain ⟨e, he⟩ := hout
    exact ⟨text, [], _, by rw [he, append_nil], ht, nofun, rfl, e, rfl⟩
  | false =>
    rw [hend] at hout
    obtain ⟨t, he⟩ := hout
    obtain ⟨n, accs, msg, rid, u, e, hfin⟩ := hf t
    rw [he, hfin, finishWith, map_append, ← append_assoc]
    refine ⟨text, _, _, rfl, ht, fun x hx => ?_, _, u, e, rfl⟩
    obtain ⟨_, hev, rfl⟩ := mem_map.mp hx
    obtain ⟨item, _, rfl⟩ := mem_map.mp hev
    exact ⟨item, rfl⟩

end

theorem completed_mem_finishWith (n : Nat) (accs : List ToolAcc) (text : String)
    (rid : Option String) (u : Option TokenUsage) (e : Option Bool) :
    ∃ id u' e', .completed id u' e' ∈ finishWith n accs text rid u e :=
  ⟨_, u, e, mem_append_right _ (mem_singleton.mpr rfl)⟩

/-- **Complete responses.**  A connector reports `Completed` only with its end marker, and an
error without it, exactly on the bodies that hold the marker or whose reading ends in an
error; a body that just stops is reported complete. -/
theorem completed_only_with_marker_iff (env : EgressEnv) (chunks : List (List UInt8))
    (ending : BodyEnd) :
    (CompletedOnlyIf (doneReceived (signals env chunks.flatten))
        (readTask (chatSse env.serde) env chunks ending).sent ↔
      doneReceived (signals env chunks.flatten) = true ∨
        endsInError isErrorChunk (signals env chunks.flatten) ending = true) ∧
    (CompletedOnlyIf (messageStopReceived (signals env chunks.flatten))
        (readTask (anthropicSse env.serde) env chunks ending).sent ↔
      messageStopReceived (signals env chunks.flatten) = true ∨
        endsInError isErrorEvent (signals env chunks.flatten) ending = true) :=
  ⟨readTask_completedOnlyIf (chatSse_emitsText env.serde)
      (fun _ => completed_mem_finishWith _ _ _ _ _ _) env chunks ending _,
    readTask_completedOnlyIf (anthropicSse_emitsText env.serde)
      (fun _ => completed_mem_finishWith _ _ _ _ _ _) env chunks ending _⟩

theorem truncated_body_completed : let body := [Text.bytes "data: \x7b\x7d\n\n".toList]
    let chat := readTask (chatSse emptyObjectEnv.serde) emptyObjectEnv body .eof
    let anthropic := readTask (anthropicSse emptyObjectEnv.serde) emptyObjectEnv body .eof
    (doneReceived (signals emptyObjectEnv body.flatten) = false ∧
        chat.sent = [.ok (.completed "llmswitch-resp-1" none none)]) ∧
      messageStopReceived (signals emptyObjectEnv body.flatten) = false ∧ anthropic.sent =
          [.ok (.completed "llmswitch-resp-1" (some ⟨0, 0, 0, 0, 0⟩) none)] := by
  decide

/-- **Order of a response**, however the body is cut and however it ends. -/
theorem sent_followsGrammar (env : EgressEnv) (chunks : List (List UInt8)) (ending : BodyEnd) :
    FollowsGrammar (endsInError isErrorChunk (signals env chunks.flatten) ending)
        (readTask (chatSse env.serde) env chunks ending).sent ∧
      FollowsGrammar (endsInError isErrorEvent (signals env chunks.flatten) ending)
        (readTask (anthropicSse env.serde) env chunks ending).sent :=
  ⟨readTask_followsGrammar (chatSse_emitsText env.serde) (fun _ => ⟨_, _, _, _, _, _, rfl⟩) env chunks ending,
    readTask_followsGrammar (anthropicSse_emitsText env.serde) (fun _ => ⟨_, _, _, _, _, _, rfl⟩) env chunks ending⟩

end LlmSwitch
