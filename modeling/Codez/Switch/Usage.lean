import Codez.Lib.Run
import Codez.Switch.AnthropicSse
import Codez.Switch.ChatSse

/-!
Token counts of a response, as their consumer adds them up (`protocol.rs`, `TokenUsage`).
-/

namespace Codex.TokenUsage

open LlmSwitch

def cachedInput (u : TokenUsage) : Int := max u.cachedInputTokens 0

def nonCachedInput (u : TokenUsage) : Int := max (wrapI64 (u.inputTokens - u.cachedInput)) 0

def Accounts (u : TokenUsage) : Prop :=
  wrapI64 (wrapI64 (u.nonCachedInput + u.cachedInput) + u.outputTokens) = u.totalTokens

structure NoOverflow (u : TokenUsage) : Prop where
  difference : -2 ^ 63 ≤ u.inputTokens - u.cachedInput ∧ u.inputTokens - u.cachedInput < 2 ^ 63
  input : u.nonCachedInput + u.cachedInput < 2 ^ 63
  total : u.nonCachedInput + u.cachedInput + u.outputTokens < 2 ^ 63

end Codex.TokenUsage

namespace LlmSwitch

open Codex List

theorem wrapI64_eq_self {x : Int} (hlow : -2 ^ 63 ≤ x) (hhigh : x < 2 ^ 63) : wrapI64 x = x := by
  unfold wrapI64
  omega

variable {e : Option Bool} {rid : String} {u : Option TokenUsage} {n : Int} {evt : Value} {evts : List Value}

theorem completed_of_emitted {σ : Type} {T : SseTranslator σ} {err : Value → Bool} {delta : Value → Option String}
    (hT : T.EmitsText err delta) {vs : List Value} (h : .completed rid u e ∈ T.emitted vs) :
    ∃ s, (T.pushAll T.init vs).2 = .ok s ∧ .completed rid u e ∈ T.finish s := by
  have htexts : .completed rid u e ∉ (T.pushAll T.init vs).1 := by
    rw [hT.pushAll_events]
    simp
  unfold SseTranslator.emitted at h
  split at h
  · next evs s hrun =>
    rw [hrun] at htexts
    refine ⟨s, by rw [hrun], ?_⟩
    exact (mem_append.mp h).resolve_left htexts
  · next evs err hrun =>
    rw [hrun] at htexts
    exact absurd h htexts

theorem usage_of_finishWith {n : Nat} {accs : List ToolAcc} {text : String} {responseId : Option String}
    {usage : Option TokenUsage} {endTurn : Option Bool}
    (h : .completed rid u e ∈ finishWith n accs text responseId usage endTurn) : u = usage := by
  unfold finishWith at h
  simp at h
  exact h.2.1

def reportedUsage (chunk : Value) : Option Value := (chunk.get "usage").filter fun u => u ≠ .null

/-- Counts of the chat API: the cached input is a part of the input, and input and output make the total. -/
structure Reconciled (usage : Value) : Prop where
  cached_nonneg : 0 ≤ ((usage.get "prompt_tokens_details").bind (·.i64Field "cached_tokens")).getD 0
  cached_le : ((usage.get "prompt_tokens_details").bind (·.i64Field "cached_tokens")).getD 0 ≤
    (usage.i64Field "prompt_tokens").getD 0
  completion_nonneg : 0 ≤ (usage.i64Field "completion_tokens").getD 0
  total : (usage.i64Field "total_tokens").getD 0 =
    (usage.i64Field "prompt_tokens").getD 0 + (usage.i64Field "completion_tokens").getD 0

theorem asI64_bounds {v : Value} (h : v.asI64 = some n) : -2 ^ 63 ≤ n ∧ n < 2 ^ 63 := by
  unfold Value.asI64 at h
  split at h
  · split at h
    · cases h
      omega
    · cases h
  · next n =>
    cases h
    exact ⟨Int64.le_toInt n, Int64.toInt_lt n⟩
  · cases h

theorem i64Field_bounds {v : Value} {k : String} (h : v.i64Field k = some n) : -2 ^ 63 ≤ n ∧ n < 2 ^ 63 := by
  obtain ⟨field, -, hn⟩ := Option.bind_eq_some_iff.mp h
  exact asI64_bounds hn

theorem total_mapUsage_lt (usage : Value) : (mapUsage usage).totalTokens < 2 ^ 63 := by
  show (usage.i64Field "total_tokens").getD 0 < 2 ^ 63
  cases h : usage.i64Field "total_tokens" with
  | none => decide
  | some n => exact (i64Field_bounds h).2

theorem usage_reported (serde : Serde) {chunks : List Value} {s : ChatSseState}
    (h : ((chatSse serde).pushAll {} chunks).2 = .ok s) {usage : Value} (husage : s.usage = some usage) :
    ∃ chunk ∈ chunks, reportedUsage chunk = some usage := by
  have hrun : s.usage = chunks.foldl (fun u chunk => (reportedUsage chunk).or u) none := by
    apply SseTranslator.pushAll_observe ChatSseState.usage _ _ chunks {} s h
    intro s chunk s' evs hpush
    simp only [chatSse, pushChunk] at hpush
    split at hpush
    · cases hpush
    · split at hpush
      · cases hpush
        rfl
      · cases hpush
        rfl
  rw [hrun] at husage
  clear hrun h
  induction chunks using List.reverseRecOn with
  | nil => cases husage
  | append_singleton chunks chunk ih =>
    rw [foldl_append, foldl_cons, foldl_nil, Option.or_eq_some_iff] at husage
    obtain hl | ⟨-, hpre⟩ := husage
    · exact ⟨chunk, mem_append_right _ mem_cons_self, hl⟩
    · obtain ⟨chunk', hmem, hchunk'⟩ := ih hpre
      exact ⟨chunk', mem_append_left _ hmem, hchunk'⟩

theorem Reconciled.accounts {usage : Value} (h : Reconciled usage) :
    (mapUsage usage).Accounts ∧ (mapUsage usage).NoOverflow := by
  have htotal := total_mapUsage_lt usage
  obtain ⟨hcac, hle, hout, hsum⟩ := h
  generalize hu : mapUsage usage = u at htotal ⊢
  change 0 ≤ (mapUsage usage).cachedInputTokens at hcac
  change (mapUsage usage).cachedInputTokens ≤ (mapUsage usage).inputTokens at hle
  change 0 ≤ (mapUsage usage).outputTokens at hout
  change (mapUsage usage).totalTokens = (mapUsage usage).inputTokens + (mapUsage usage).outputTokens at hsum
  rw [hu] at hcac hle hout hsum
  have hcachedInput : u.cachedInput = u.cachedInputTokens := max_eq_left hcac
  have hnonCached : u.nonCachedInput = u.inputTokens - u.cachedInputTokens := by
    unfold TokenUsage.nonCachedInput
    rw [hcachedInput, wrapI64_eq_self (by omega) (by omega), max_eq_left (by omega)]
  have hinput : u.nonCachedInput + u.cachedInput = u.inputTokens := by
    rw [hnonCached, hcachedInput]
    omega
  constructor
  · unfold TokenUsage.Accounts
    rw [hinput, wrapI64_eq_self (x := u.inputTokens) (by omega) (by omega), wrapI64_eq_self (by omega) (by omega), hsum]
  · constructor
    · rw [hcachedInput]
      omega
    · rw [hinput]
      omega
    · rw [hinput]
      omega

structure Counts where
  input : Int := 0
  cached : Int := 0
  creation : Int := 0
  output : Int := 0

def AnthropicSseState.counts (st : AnthropicSseState) : Counts :=
  ⟨st.inputTokens, st.cachedInputTokens, st.cacheCreationInputTokens, st.outputTokens⟩

def startUsage (evt : Value) : Option Value :=
  if evt.strField "type" = some "message_start" then (evt.get "message").bind (·.get "usage") else none

def deltaUsage (evt : Value) : Option Value :=
  if evt.strField "type" = some "message_delta" then evt.get "usage" else none

def Counts.report (c : Counts) (evt : Value) : Counts where
  input := ((startUsage evt).bind (·.i64Field "input_tokens")).getD c.input
  cached := ((startUsage evt).bind (·.i64Field "cache_read_input_tokens")).getD c.cached
  creation := ((startUsage evt).bind (·.i64Field "cache_creation_input_tokens")).getD c.creation
  output := ((deltaUsage evt).bind (·.i64Field "output_tokens")).getD c.output

def countsOf (evts : List Value) : Counts := evts.foldl Counts.report {}

def reportedCounts (evt : Value) : List Int :=
  [(startUsage evt).bind (·.i64Field "input_tokens"), (startUsage evt).bind (·.i64Field "cache_read_input_tokens"),
    (startUsage evt).bind (·.i64Field "cache_creation_input_tokens"),
    (deltaUsage evt).bind (·.i64Field "output_tokens")].reduceOption

open AnthropicSseState

theorem counts_pushEvent (serde : Serde) {st st' : AnthropicSseState} {evs : List ResponseEvent}
    (h : pushEvent serde st evt = .ok (st', evs)) : st'.counts = st.counts.report evt := by
  -- events of other types report nothing
  have other : st'.counts = st.counts → evt.strField "type" ≠ some "message_start" →
      evt.strField "type" ≠ some "message_delta" → st'.counts = st.counts.report evt := by
    intro hsame hst hdel
    rw [hsame, Counts.report, startUsage, deltaUsage, if_neg hst, if_neg hdel]
    rfl
  unfold pushEvent at h
  split at h
  · cases h
  · next htype =>
    split at h
    · next message hmsg =>
      cases h
      simp [counts, pushMessageStart, Counts.report, startUsage, deltaUsage, htype, hmsg]
    · next hmsg =>
      cases h
      simp [counts, Counts.report, startUsage, deltaUsage, htype, hmsg]
  · next htype =>
    cases h
    exact other rfl (by simp [htype]) (by simp [htype])
  · next htype =>
    refine other ?_ (by simp [htype]) (by simp [htype])
    have hst' : (pushBlockDelta st (blockIndex evt) (evt.get "delta")).1 = st' := congrArg Prod.fst (Except.ok.inj h)
    rw [← hst']
    unfold pushBlockDelta
    split
    · split <;> rfl
    · split <;> rfl
    · rfl
  · next htype =>
    cases h
    simp [counts, Counts.report, startUsage, deltaUsage, htype]
  · next hst _ _ hdel =>
    cases h
    exact other rfl hst hdel

structure Counts.All (c : Counts) (P : Int → Prop) : Prop where
  input : P c.input
  cached : P c.cached
  creation : P c.creation
  output : P c.output

theorem all_countsOf {P : Int → Prop} (hzero : P 0) (h : ∀ evt ∈ evts, ∀ n ∈ reportedCounts evt, P n) :
    (countsOf evts).All P := by
  have hgetD : ∀ (evt : Value) (reported : Option Int) (n : Int), (∀ n ∈ reportedCounts evt, P n) →
      (∀ k, reported = some k → k ∈ reportedCounts evt) → P n → P (reported.getD n) := by
    intro evt reported n hevt hreported hn
    cases reported with
    | none => exact hn
    | some k => exact hevt k (hreported k rfl)
  apply @Run.foldl_invariant _ _ Counts.report (fun c => c.All P) evts {} ⟨hzero, hzero, hzero, hzero⟩
  intro c evt hevt hc
  have hmem : ∀ k, some k ∈ [(startUsage evt).bind (·.i64Field "input_tokens"),
      (startUsage evt).bind (·.i64Field "cache_read_input_tokens"),
      (startUsage evt).bind (·.i64Field "cache_creation_input_tokens"),
      (deltaUsage evt).bind (·.i64Field "output_tokens")] → k ∈ reportedCounts evt := fun k hk =>
    reduceOption_mem_iff.mpr hk
  constructor
  · exact hgetD evt _ _ (h evt hevt) (fun k hk => hmem k (by simp [hk])) hc.input
  · exact hgetD evt _ _ (h evt hevt) (fun k hk => hmem k (by simp [hk])) hc.cached
  · exact hgetD evt _ _ (h evt hevt) (fun k hk => hmem k (by simp [hk])) hc.creation
  · exact hgetD evt _ _ (h evt hevt) (fun k hk => hmem k (by simp [hk])) hc.output

theorem reportedCounts_bounds (h : n ∈ reportedCounts evt) : n < 2 ^ 63 := by
  have hfield : ∀ (usage : Option Value) (k : String), usage.bind (·.i64Field k) = some n → n < 2 ^ 63 := by
    intro usage k hk
    obtain ⟨value, -, hv⟩ := Option.bind_eq_some_iff.mp hk
    exact (i64Field_bounds hv).2
  rw [reportedCounts, reduceOption_mem_iff] at h
  simp only [mem_cons, not_mem_nil, or_false] at h
  obtain h | h | h | h := h
  · exact hfield _ _ h.symm
  · exact hfield _ _ h.symm
  · exact hfield _ _ h.symm
  · exact hfield _ _ h.symm

def Counts.usage (c : Counts) : TokenUsage where
  inputTokens := c.input
  cachedInputTokens := c.cached
  outputTokens := c.output
  reasoningOutputTokens := 0
  totalTokens := wrapI64 (c.cached + c.creation + c.input + c.output)

/-- Neither the total of `finish` nor what its consumer computes leaves `i64`. -/
structure Counts.NoOverflow (c : Counts) : Prop where
  cache : c.cached + c.creation < 2 ^ 63
  wholeInput : c.cached + c.creation + c.input < 2 ^ 63
  total : c.cached + c.creation + c.input + c.output < 2 ^ 63
  read : c.usage.NoOverflow

variable {c : Counts}

theorem nonCachedInput_add_cachedInput (hnonneg : c.All (0 ≤ ·)) (hlt : c.All (· < 2 ^ 63)) :
    c.usage.nonCachedInput + c.usage.cachedInput = max c.input c.cached := by
  obtain ⟨hinput, hcac, -, -⟩ := hnonneg
  obtain ⟨hinput', hcached', -, -⟩ := hlt
  have hcachedInput : c.usage.cachedInput = c.cached := max_eq_left hcac
  unfold TokenUsage.nonCachedInput
  rw [hcachedInput]
  show max (wrapI64 (c.input - c.cached)) 0 + c.cached = max c.input c.cached
  rw [wrapI64_eq_self (by omega) (by omega)]
  omega

theorem accounts_usage_iff (hnonneg : c.All (0 ≤ ·)) (hlt : c.All (· < 2 ^ 63)) :
    c.usage.Accounts ↔ c.creation = 0 ∧ (c.cached = 0 ∨ c.input = 0) := by
  unfold TokenUsage.Accounts
  rw [nonCachedInput_add_cachedInput hnonneg hlt]
  obtain ⟨hinput, hcac, hcreation, hout⟩ := hnonneg
  obtain ⟨hinput', hcached', hcreation', houtput'⟩ := hlt
  show wrapI64 (wrapI64 (max c.input c.cached) + c.output) = wrapI64 (c.cached + c.creation + c.input + c.output) ↔ _
  -- the two totals differ by the smaller of input and cached input, and what was written to the cache
  have hdiff : c.cached + c.creation + c.input + c.output =
      max c.input c.cached + c.output + (min c.input c.cached + c.creation) := by
    omega
  rw [hdiff, wrapI64_eq_self (x := max c.input c.cached) (by omega) (by omega)]
  unfold wrapI64
  omega

theorem noOverflow_of_lt (hnonneg : c.All (0 ≤ ·)) (hlt : c.All (· < 2 ^ 61)) : c.NoOverflow := by
  have hread := nonCachedInput_add_cachedInput hnonneg
    ⟨by have := hlt.input; omega, by have := hlt.cached; omega,
      by have := hlt.creation; omega, by have := hlt.output; omega⟩
  obtain ⟨hinput, hcac, hcreation, hout⟩ := hnonneg
  obtain ⟨hinput', hcached', hcreation', houtput'⟩ := hlt
  have hcachedInput : c.usage.cachedInput = c.cached := max_eq_left hcac
  refine ⟨by omega, by omega, by omega, ?_⟩
  constructor
  · rw [hcachedInput]
    show -2 ^ 63 ≤ c.input - c.cached ∧ c.input - c.cached < 2 ^ 63
    omega
  · rw [hread]
    omega
  · rw [hread]
    show max c.input c.cached + c.output < 2 ^ 63
    omega

theorem usage_of_counts (serde : Serde) {u : TokenUsage}
    (h : .completed rid (some u) e ∈ (anthropicSse serde).emitted evts) : u = (countsOf evts).usage := by
  obtain ⟨s, hrun, hfin⟩ := completed_of_emitted (anthropicSse_emitsText serde) h
  have hcounts : s.counts = countsOf evts :=
    SseTranslator.pushAll_observe counts Counts.report
      (fun s v s' evs hpush => counts_pushEvent serde hpush) evts {} s hrun
  have husage := Option.some.inj (usage_of_finishWith hfin)
  rw [husage, ← hcounts]
  rfl

/-- **Token accounting.**  The counts of the chat API add up; those of the Anthropic API do only where
nothing was written to the cache, and all of the input was read from it or none. -/
theorem usage_accounts (serde : Serde) :
    (∀ chunks, (∀ chunk ∈ chunks, ∀ usage, reportedUsage chunk = some usage → Reconciled usage) →
      ∀ rid u e, .completed rid (some u) e ∈ (chatSse serde).emitted chunks → u.Accounts ∧ u.NoOverflow) ∧
    (∀ evts, (∀ evt ∈ evts, ∀ n ∈ reportedCounts evt, 0 ≤ n) →
      ∀ rid u e, .completed rid (some u) e ∈ (anthropicSse serde).emitted evts →
        (u.Accounts ↔ (countsOf evts).creation = 0 ∧ ((countsOf evts).cached = 0 ∨ (countsOf evts).input = 0)) ∧
        ((∀ evt ∈ evts, ∀ n ∈ reportedCounts evt, n < 2 ^ 61) → (countsOf evts).NoOverflow ∧ u.NoOverflow)) := by
  constructor
  · intro chunks hchunks rid u e h
    obtain ⟨s, hrun, hfinish⟩ := completed_of_emitted (chatSse_emitsText serde) h
    have husage : some u = s.usage.map mapUsage := usage_of_finishWith hfinish
    obtain ⟨usage, hs, rfl⟩ := Option.map_eq_some_iff.mp husage.symm
    obtain ⟨chunk, hchunk, hreported⟩ := usage_reported serde hrun hs
    exact (hchunks chunk hchunk usage hreported).accounts
  · intro evts hnonneg rid u e h
    have hcounts : (countsOf evts).All (0 ≤ ·) := all_countsOf (by decide) hnonneg
    rw [usage_of_counts serde h]
    constructor
    · exact accounts_usage_iff hcounts (all_countsOf (by decide) fun evt _ n hn => reportedCounts_bounds hn)
    · intro hlt
      have hno := noOverflow_of_lt hcounts (all_countsOf (by decide) hlt)
      exact ⟨hno, hno.read⟩

/-- A response of the Anthropic API whose prompt was in part read from a cache and in part written to one. -/
def cachedResponse : List Value :=
  [.mkObj [("type", .string "message_start"), ("message", .mkObj [("id", .string "msg_1"), ("usage", .mkObj
      [("input_tokens", .ofNat 3), ("cache_read_input_tokens", .ofNat 7),
        ("cache_creation_input_tokens", .ofNat 4)])])],
    .mkObj [("type", .string "message_delta"), ("delta", .mkObj [("stop_reason", .string "end_turn")]),
      ("usage", .mkObj [("output_tokens", .ofNat 2)])],
    .mkObj [("type", .string "message_stop")]]

theorem usage_accounts_cached : let serde : Serde := ⟨fun _ => .error "", fun _ => ""⟩
    let u : TokenUsage := ⟨3, 7, 2, 0, 16⟩
    .completed "msg_1" (some u) (some true) ∈ (anthropicSse serde).emitted cachedResponse ∧
      (u.Accounts ↔ (countsOf cachedResponse).creation = 0 ∧
        ((countsOf cachedResponse).cached = 0 ∨ (countsOf cachedResponse).input = 0)) ∧ u.NoOverflow := by
  intro serde u
  have hcompleted : .completed "msg_1" (some u) (some true) ∈ (anthropicSse serde).emitted cachedResponse := by
    decide +kernel
  have h := (usage_accounts serde).2 cachedResponse (by decide +kernel) "msg_1" u (some true) hcompleted
  exact ⟨hcompleted, h.1, (h.2 (by decide +kernel)).2⟩

theorem cached_response_miscounted : let serde : Serde := ⟨fun _ => .error "", fun _ => ""⟩
    let u : TokenUsage := ⟨3, 7, 2, 0, 16⟩
    .completed "msg_1" (some u) (some true) ∈ (anthropicSse serde).emitted cachedResponse ∧
      (∀ evt ∈ cachedResponse, ∀ n ∈ reportedCounts evt, 0 ≤ n ∧ n < 2 ^ 61) ∧
      u.nonCachedInput + u.cachedInput + u.outputTokens = 9 ∧ ¬ u.Accounts := by
  refine ⟨by decide +kernel, by decide +kernel, by decide, ?_⟩
  unfold TokenUsage.Accounts
  decide

end LlmSwitch
