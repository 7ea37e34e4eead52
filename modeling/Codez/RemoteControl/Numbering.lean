import Codez.RemoteControl.Unacked

/-!
Server sequence numbers, and the signals that an event was written (`run_server_writer_inner`).

Every event of a stream takes a number, also one that is dropped because it cannot be split.
-/

namespace RemoteControl

open List

namespace Outbound

variable {M N C : Type} (host : SplitHost M N) (events : List (Event M C))

def Happening.eventOf (key : StreamKey) : Happening M → Option (List (ServerEnvelope M))
  | .assigned assignedKey envelopes => if assignedKey = key then some envelopes else none
  | .acked _ _ _ => none

def eventsOf (key : StreamKey) (history : List (Happening M)) : List (List (ServerEnvelope M)) :=
  history.filterMap (Happening.eventOf key)

/-- The writer, and the envelopes of the event whose `write_complete_tx` it holds. -/
structure Signalling (M : Type) where
  outbound : Outbound M := {}
  waiting : Option (List (ServerEnvelope M)) := none

def Signalling.step (host : SplitHost M N) (w : Signalling M) (event : Event M C) : Signalling M where
  outbound := w.outbound.step host event
  waiting :=
    match event, w.outbound.writer with
    | .assign, .received queued =>
      if queued.writeCompleteTx.isSome then (envelopesOf host w.outbound queued).filter (· ≠ []) else none
    | .send, .sending [_] => none
    | .stop, _ => none
    | _, _ => w.waiting

/-- The signal comes right after the last payload of its event, or at once if there is none. -/
def Signalling.signals (host : SplitHost M N) (w : Signalling M) (event : Event M C) : List (List (ServerEnvelope M)) :=
  match event, w.outbound.writer with
  | .assign, .received queued =>
    match queued.writeCompleteTx, envelopesOf host w.outbound queued with
    | some (), some [] => [[]]
    | _, _ => []
  | .send, .sending [_] => w.waiting.toList
  | _, _ => []

def signalled (host : SplitHost M N) (events : List (Event M C)) : List (List (ServerEnvelope M)) :=
  Run.emit (Signalling.signals host) (Signalling.step host) {} events

/-- The queued event that gets its number. -/
def takes (s : Outbound M) : Event M C → List (QueuedServerEnvelope M)
  | .assign =>
    match s.writer with
    | .received queued => [queued]
    | _ => []
  | _ => []

def handled (host : SplitHost M N) (events : List (Event M C)) : List (QueuedServerEnvelope M) :=
  Run.emit takes (step host) {} events

/-- The queued events of a stream as the writer takes them, with `1, 2, ...` as their numbers. -/
def numberedOn (key : StreamKey) (queue : List (QueuedServerEnvelope M)) : List (QueuedServerEnvelope M × Nat) :=
  (queue.filter fun queued => (queued.clientId, queued.streamId) = key).zipIdx 1

/-- The envelopes of a queued event with the number `x.2`. -/
def splitAs (host : SplitHost M N) (x : QueuedServerEnvelope M × Nat) : List (ServerEnvelope M) :=
  match splitServerEnvelopeForTransport host ⟨x.1.event, x.1.clientId, x.1.streamId, x.2⟩ with
  | some (.ok envelopes) => envelopes
  | _ => []

/-- No event is dropped that has a channel, and none that stands before one that is kept. -/
structure DropsLast (host : SplitHost M N) (numbered : List (QueuedServerEnvelope M × Nat)) : Prop where
  quiet : ∀ x ∈ numbered, splitAs host x = [] → x.1.writeCompleteTx = none
  last : numbered.Pairwise fun x y => splitAs host x = [] → splitAs host y = []

section
variable {key : StreamKey} {history : List (Happening M)}

theorem assignedTo_eq_flatten (key : StreamKey) (history : List (Happening M)) :
    assignedTo key history = (eventsOf key history).flatten := by
  induction history with
  | nil => rfl
  | cons happening history ih =>
    simp only [assignedTo, eventsOf, flatMap_cons, filterMap_cons] at ih ⊢
    rw [ih]
    cases happening with
    | acked => rfl
    | assigned assignedKey es =>
      simp only [Happening.envelopesFor, Happening.eventOf]
      split <;> rfl

theorem length_eventsOf (key : StreamKey) (history : List (Happening M)) :
    (eventsOf key history).length = history.countP (Happening.isEventOf key) := by
  rw [eventsOf, length_filterMap_eq_countP]
  refine countP_congr fun happening _ => ?_
  cases happening with
  | acked => rfl
  | assigned assignedKey es =>
    by_cases hkey : assignedKey = key <;> simp [Happening.isEventOf, Happening.eventOf, hkey]

theorem envelopesOf_eq (s : Outbound M) (queued : QueuedServerEnvelope M) :
    envelopesOf host s queued = some (splitAs host (queued, s.nextSeqId (queued.clientId, queued.streamId))) := by
  obtain ⟨out, hout, -⟩ := split_spec host
    ⟨queued.event, queued.clientId, queued.streamId, s.nextSeqId (queued.clientId, queued.streamId)⟩
  simp only [envelopesOf, splitAs, hout]

theorem seqId_of_mem_splitAs (x : QueuedServerEnvelope M × Nat) {envelope : ServerEnvelope M}
    (h : envelope ∈ splitAs host x) : envelope.seqId = x.2 := by
  obtain ⟨out, hout, hresult⟩ := split_spec host ⟨x.1.event, x.1.clientId, x.1.streamId, x.2⟩
  rw [splitAs, hout] at h
  rcases hresult with rfl | rfl | ⟨message, parts, -, -, hsplit, -⟩
  · rw [mem_singleton.mp h]
  · cases h
  · rw [hsplit.out_eq] at h
    obtain ⟨part, -, rfl⟩ := mem_map.mp h
    rfl

theorem eventsOf_happens (s : Outbound M) (event : Event M C) (key : StreamKey) :
    eventsOf key (happens host s event) =
      ((takes s event).filter fun queued => (queued.clientId, queued.streamId) = key).map fun queued =>
        splitAs host (queued, s.nextSeqId key) := by
  cases event with
  | assign =>
    simp only [happens, takes]
    cases s.writer with
    | received queued =>
      simp only [envelopesOf_eq]
      by_cases hkey : (queued.clientId, queued.streamId) = key
      · simp [eventsOf, Happening.eventOf, hkey]
      · simp [eventsOf, Happening.eventOf, hkey]
    | _ => rfl
  | deliver envelope =>
    simp only [happens]
    split <;> rfl
  | _ => rfl

theorem numberedOn_append (key : StreamKey) (queue more : List (QueuedServerEnvelope M)) :
    numberedOn key (queue ++ more) = numberedOn key queue ++
      (more.filter fun queued => (queued.clientId, queued.streamId) = key).zipIdx
        ((numberedOn key queue).length + 1) := by
  simp [numberedOn, filter_append, zipIdx_append, Nat.add_comm]

theorem takes_cases (s : Outbound M) (event : Event M C) : takes s event = [] ∨ ∃ queued, takes s event = [queued] := by
  unfold takes
  split
  · split
    · next queued _ => exact .inr ⟨queued, rfl⟩
    · exact .inl rfl
  · exact .inl rfl

theorem few_of_append {host : SplitHost M N} {events : List (Event M C)} {event : Event M C}
    (hfew : ∀ key, (happenings host {} (events ++ [event])).countP (Happening.isEventOf key) < u64Max) :
    ∀ key, (happenings host {} events).countP (Happening.isEventOf key) < u64Max := by
  intro key
  have hcount := hfew key
  rw [happenings, Run.emit_snoc, ← happenings, countP_append] at hcount
  omega

theorem handled_snoc (event : Event M C) :
    handled host (events ++ [event]) = handled host events ++ takes (run host events) event :=
  Run.emit_snoc _ _ _ _ _

theorem eventsOf_run (key : StreamKey)
    (hfew : ∀ key, (happenings host {} events).countP (Happening.isEventOf key) < u64Max) :
    eventsOf key (happenings host {} events) = (numberedOn key (handled host events)).map (splitAs host) ∧
      (run host events).nextSeqId key = (numberedOn key (handled host events)).length + 1 := by
  have hlength : ∀ {events : List (Event M C)},
      (∀ key, (happenings host {} events).countP (Happening.isEventOf key) < u64Max) →
      eventsOf key (happenings host {} events) = (numberedOn key (handled host events)).map (splitAs host) →
      (run host events).nextSeqId key = (numberedOn key (handled host events)).length + 1 := by
    intro events hfew hevents
    rw [(kept_run host events hfew).next key, ← length_eventsOf, hevents, length_map]
  refine (and_iff_left_of_imp (hlength hfew)).mpr ?_
  induction events using reverseRecOn with
  | nil => rfl
  | append_singleton events event ih =>
    have ih := ih (few_of_append hfew)
    have hnew := eventsOf_happens host (run host events) event key
    rw [hlength (few_of_append hfew) ih] at hnew
    rw [happenings, Run.emit_snoc, ← happenings, handled_snoc, numberedOn_append, map_append, ← ih,
      eventsOf, filterMap_append, ← eventsOf, ← eventsOf]
    refine congrArg _ (hnew.trans ?_)
    rcases takes_cases (run host events) event with htakes | ⟨queued, htakes⟩
    · rw [htakes]
      rfl
    · rw [htakes]
      by_cases hkey : (queued.clientId, queued.streamId) = key <;> simp [hkey]

def Numbered (key : StreamKey) (history : List (Happening M)) : Prop :=
  ∀ i envelopes, (eventsOf key history)[i]? = some envelopes → ∀ envelope ∈ envelopes, envelope.seqId = i + 1

theorem numbered_run (key : StreamKey)
    (hfew : ∀ key, (happenings host {} events).countP (Happening.isEventOf key) < u64Max) :
    Numbered key (happenings host {} events) := by
  intro i envelopes hi envelope hmem
  rw [(eventsOf_run host events key hfew).1, getElem?_map, Option.map_eq_some_iff] at hi
  obtain ⟨x, hx, rfl⟩ := hi
  rw [numberedOn, getElem?_zipIdx, Option.map_eq_some_iff] at hx
  obtain ⟨queued, -, rfl⟩ := hx
  rw [seqId_of_mem_splitAs host _ hmem, Nat.add_comm]

def Gapless (envelopes : List (ServerEnvelope M)) : Prop :=
  ∀ envelope ∈ envelopes, ∀ n, 0 < n → n < envelope.seqId → ∃ other ∈ envelopes, other.seqId = n

theorem Numbered.exists_iff (h : Numbered key history) (n : Nat) :
    (∃ envelope ∈ assignedTo key history, envelope.seqId = n + 1) ↔ (eventsOf key history)[n]?.getD [] ≠ [] := by
  rw [assignedTo_eq_flatten]
  constructor
  · rintro ⟨envelope, hmem, hseq⟩
    obtain ⟨es, hev, hmem⟩ := mem_flatten.mp hmem
    obtain ⟨i, hi⟩ := mem_iff_getElem?.mp hev
    have hindex := h i es hi envelope hmem
    rw [show n = i by omega, hi]
    exact ne_nil_of_mem hmem
  · intro hne
    cases hev : (eventsOf key history)[n]? with
    | none => exact absurd (by rw [hev]; rfl) hne
    | some es =>
      rw [hev] at hne
      obtain ⟨envelope, hmem⟩ := exists_mem_of_ne_nil _ hne
      exact ⟨envelope, mem_flatten.mpr ⟨_, mem_of_getElem? hev, hmem⟩, h n es hev envelope hmem⟩

theorem Numbered.gapless_iff (h : Numbered key history) : Gapless (assignedTo key history) ↔
    (eventsOf key history).Pairwise fun event later => event = [] → later = [] := by
  rw [pairwise_iff_getElem]
  constructor
  · intro hgapless i j hi hj hij hdrop
    by_contra hkept
    obtain ⟨envelope, hmem, hseq⟩ := (h.exists_iff j).mpr (by rwa [getElem?_eq_getElem hj])
    have hsmaller := (h.exists_iff i).mp (hgapless envelope hmem (i + 1) (Nat.succ_pos i) (by omega))
    rw [getElem?_eq_getElem hi] at hsmaller
    exact hsmaller hdrop
  · intro hdrops envelope hmem n hpos hlt
    obtain ⟨j, hj⟩ : ∃ j, envelope.seqId = j + 1 := ⟨envelope.seqId - 1, by omega⟩
    obtain ⟨i, rfl⟩ : ∃ i, n = i + 1 := ⟨n - 1, by omega⟩
    have hkept := (h.exists_iff j).mp ⟨envelope, hmem, hj⟩
    have hjlt : j < (eventsOf key history).length := by
      by_contra hge
      exact hkept (by rw [getElem?_eq_none (by omega)]; rfl)
    rw [getElem?_eq_getElem hjlt] at hkept
    rw [h.exists_iff i, getElem?_eq_getElem (by omega)]
    exact fun hdrop => hkept (hdrops i j (by omega) hjlt (by omega) hdrop)

end

/-- What was written of the event that waits for its signal, and that the signals so far are right. -/
structure Sending (written : List (ServerEnvelope M)) (signals : List (List (ServerEnvelope M))) (w : Signalling M) :
    Prop where
  waiting : ∀ envelopes ∈ w.waiting, ∃ done left, left ≠ [] ∧ w.outbound.writer = .sending left ∧
    envelopes = done ++ left ∧ done <:+ written
  signals : ∀ envelopes ∈ signals, envelopes <:+: written

theorem Sending.step {written : List (ServerEnvelope M)}
    {signals : List (List (ServerEnvelope M))} {w : Signalling M} (h : Sending written signals w) (event : Event M C) :
    Sending (written ++ sends w.outbound event) (signals ++ w.signals host event) (w.step host event) := by
  constructor
  · intro envelopes hwaiting
    simp only [Signalling.step] at hwaiting
    split at hwaiting
    · next queued hreceived =>
      split at hwaiting
      · obtain ⟨henvelopes, hne⟩ := Option.filter_eq_some_iff.mp hwaiting
        refine ⟨[], envelopes, by simpa using hne, ?_, rfl, nil_suffix⟩
        simp only [Signalling.step, Outbound.step, hreceived, Outbound.assign, henvelopes]
      · cases hwaiting
    · cases hwaiting
    · cases hwaiting
    · next event _ _ hstop _ hsend =>
      -- the writer is sending: only a send moves it
      obtain ⟨done, left, hne, hwriter, rfl, hdone⟩ := h.waiting envelopes hwaiting
      cases event with
      | send =>
        rcases left with _ | ⟨envelope, _ | ⟨next, left⟩⟩
        · exact absurd rfl hne
        · exact (hsend envelope rfl hwriter).elim
        · refine ⟨done ++ [envelope], next :: left, by simp,
            by simp [Signalling.step, Outbound.step, hwriter], by simp, ?_⟩
          obtain ⟨pre, rfl⟩ := hdone
          simp only [sends, hwriter, append_assoc]
          exact suffix_append _ _
      | turn =>
        obtain ⟨envelope, left, rfl⟩ := exists_cons_of_ne_nil hne
        exact ⟨done, _, hne, by simp [Signalling.step, Outbound.step, hwriter], rfl, by simpa [sends] using hdone⟩
      | stop => exact (hstop rfl).elim
      | deliver envelope =>
        refine ⟨done, left, hne, ?_, rfl, by simpa [sends] using hdone⟩
        rw [← hwriter]
        simp only [Signalling.step, Outbound.step, recordClientMessageDelivery]
        split <;> rfl
      | _ => exact ⟨done, left, hne, by simp [Signalling.step, Outbound.step, hwriter],
        rfl, by simpa [sends] using hdone⟩
  · intro envelopes hmem
    obtain hold | hnew := mem_append.mp hmem
    · exact (h.signals envelopes hold).trans (prefix_append _ _).isInfix
    · simp only [Signalling.signals] at hnew
      split at hnew
      · split at hnew
        · rw [mem_singleton.mp hnew]
          exact nil_infix
        · cases hnew
      · next envelope hwriter =>
        obtain ⟨done, left, -, hsending, rfl, pre, rfl⟩ := h.waiting envelopes (by simpa using hnew)
        rw [hwriter, Writer.sending.injEq] at hsending
        rw [← hsending]
        simp only [sends, hwriter, append_assoc]
        exact (suffix_append _ _).isInfix
      · cases hnew

theorem signalling_outbound :
    (events.foldl (Signalling.step host) {}).outbound = run host events := by
  induction events using reverseRecOn with
  | nil => rfl
  | append_singleton events event ih =>
    rw [run, foldl_concat, foldl_concat, ← run, ← ih]
    rfl

theorem signals_snoc (event : Event M C) :
    signalled host (events ++ [event]) =
      signalled host events ++ (events.foldl (Signalling.step host) {}).signals host event := by
  rw [signalled, Run.emit_snoc, ← signalled]

theorem sending_run :
    Sending (sent host {} events) (signalled host events) (events.foldl (Signalling.step host) {}) := by
  induction events using reverseRecOn with
  | nil => exact ⟨by rintro _ ⟨⟩, by rintro _ ⟨⟩⟩
  | append_singleton events event ih =>
    rw [sent, Run.emit_snoc, ← sent, signals_snoc, foldl_concat]
    have hstep := ih.step host event
    rw [signalling_outbound] at hstep
    exact hstep

/-- An event is signalled without an envelope when it is dropped and has a channel. -/
theorem nil_mem_signals_iff {written : List (ServerEnvelope M)}
    {signals : List (List (ServerEnvelope M))} {w : Signalling M} (h : Sending written signals w) (event : Event M C) :
    [] ∈ w.signals host event ↔ ∃ queued ∈ takes w.outbound event, queued.writeCompleteTx ≠ none ∧
      splitAs host (queued, w.outbound.nextSeqId (queued.clientId, queued.streamId)) = [] := by
  have hwaiting : [] ∉ w.waiting.toList := fun hmem => by
    obtain ⟨done, left, hne, -, hnil, -⟩ := h.waiting [] (by simpa using hmem)
    exact hne (append_eq_nil_iff.mp hnil.symm).2
  unfold Signalling.signals
  split
  · next queued hreceived =>
    simp only [takes, hreceived, mem_singleton, exists_eq_left, envelopesOf_eq]
    split
    · next hchannel hsplit => simp [hchannel, Option.some.inj hsplit]
    · next hnot =>
      refine iff_of_false not_mem_nil fun ⟨hchannel, hsplit⟩ => ?_
      obtain ⟨⟨⟩, hsome⟩ := Option.ne_none_iff_exists'.mp hchannel
      exact hnot hsome (by rw [hsplit])
  · exact iff_of_false hwaiting (by simp [takes])
  · next hassign _ =>
    refine iff_of_false not_mem_nil ?_
    rintro ⟨queued, hmem, -⟩
    unfold takes at hmem
    split at hmem
    · split at hmem
      · next hreceived => exact hassign _ rfl hreceived
      · cases hmem
    · cases hmem

theorem nil_mem_signalled_iff
    (hfew : ∀ key, (happenings host {} events).countP (Happening.isEventOf key) < u64Max) :
    [] ∈ signalled host events ↔
      ∃ key, ∃ x ∈ numberedOn key (handled host events), x.1.writeCompleteTx ≠ none ∧ splitAs host x = [] := by
  induction events using reverseRecOn with
  | nil => exact iff_of_false not_mem_nil (by rintro ⟨key, x, ⟨⟩, -⟩)
  | append_singleton events event ih =>
    have hfew := few_of_append hfew
    rw [signals_snoc, mem_append, ih hfew, nil_mem_signals_iff host (sending_run host events), signalling_outbound,
      handled_snoc]
    simp only [numberedOn_append, mem_append, or_and_right, exists_or]
    refine or_congr_right ?_
    have hnext := fun key => (eventsOf_run host events key hfew).2
    rcases takes_cases (run host events) event with htakes | ⟨queued, htakes⟩
    · simp [htakes]
    · simp only [htakes, mem_singleton, exists_eq_left, hnext]
      constructor
      · exact fun h => ⟨(queued.clientId, queued.streamId), (queued, _), by simp, h⟩
      · rintro ⟨key, x, hx, h⟩
        by_cases hkey : (queued.clientId, queued.streamId) = key
        · obtain rfl : x = (queued, _) := by simpa [hkey] using hx
          rwa [hkey]
        · simp [hkey] at hx

/-- **Numbers and signals.**  The events of a stream are numbered `1, 2, ...`, each with its envelopes
together.  There is no gap in the buffer, and every signal follows a written envelope, if and only if no
event is dropped that has a channel, and none that stands before one that is kept. -/
theorem numbered_iff (host : SplitHost M N) (events : List (Event M C))
    (hfew : ∀ key, (happenings host {} events).countP (Happening.isEventOf key) < u64Max) :
    (∀ key, assignedTo key (happenings host {} events) = (eventsOf key (happenings host {} events)).flatten ∧
      eventsOf key (happenings host {} events) = (numberedOn key (handled host events)).map (splitAs host) ∧
      Numbered key (happenings host {} events)) ∧
    (((∀ key, Gapless (assignedTo key (happenings host {} events))) ∧
        ∀ envelopes ∈ signalled host events, envelopes ≠ [] ∧ envelopes <:+: sent host {} events) ↔
      ∀ key, DropsLast host (numberedOn key (handled host events))) := by
  have hevents := fun key => (eventsOf_run host events key hfew).1
  have hnumbered := fun key => numbered_run host events key hfew
  refine ⟨fun key => ⟨assignedTo_eq_flatten _ _, hevents key, hnumbered key⟩, ?_⟩
  have hgapless : ∀ key, Gapless (assignedTo key (happenings host {} events)) ↔
      (numberedOn key (handled host events)).Pairwise fun x y => splitAs host x = [] → splitAs host y = [] := by
    intro key
    rw [(hnumbered key).gapless_iff, hevents, pairwise_map]
  have hsignals : (∀ envelopes ∈ signalled host events, envelopes ≠ [] ∧ envelopes <:+: sent host {} events) ↔
      [] ∉ signalled host events :=
    ⟨fun h hnil => (h [] hnil).1 rfl,
      fun h envelopes hmem => ⟨fun hnil => h (hnil ▸ hmem), (sending_run host events).signals envelopes hmem⟩⟩
  rw [hsignals, nil_mem_signalled_iff host events hfew]
  constructor
  · rintro ⟨hgap, hnone⟩ key
    refine ⟨fun x hx hdrop => ?_, (hgapless key).mp (hgap key)⟩
    by_contra hchannel
    exact hnone ⟨key, x, hx, hchannel, hdrop⟩
  · intro h
    refine ⟨fun key => (hgapless key).mpr (h key).last, ?_⟩
    rintro ⟨key, x, hx, hchannel, hdrop⟩
    exact hchannel ((h key).quiet x hx hdrop)

/-- A message of more than 100 MiB. -/
def tooLong : QueuedServerEnvelope Nat := ⟨.serverMessage 104857600, ['c'], ['s'], some (), Nat.zero_le _⟩

def droppedThenPong : List (Event Nat Nat) :=
  [.start [], .turn, .receive tooLong, .assign, .turn,
    .receive ⟨.pong .active, ['c'], ['s'], some (), Nat.zero_le _⟩, .assign, .send, .turn]

section
-- over any host that drops the message, so that nothing tries to write it out
variable {host : SplitHost Nat Nat}
  (hsplit : splitServerEnvelopeForTransport host ⟨.serverMessage 104857600, ['c'], ['s'], 1⟩ = some (.ok []))
include hsplit

theorem envelopesOf_tooLong : envelopesOf host { writer := .received tooLong } tooLong = some [] := by
  rw [envelopesOf_eq]
  have henvelope : splitAs host (tooLong, 1) = [] := by
    simp only [splitAs, tooLong, hsplit]
  exact congrArg some henvelope

theorem step_tooLong : step host { writer := .received tooLong } (.assign : Event Nat Nat) =
    { nextSeqIdByStream := AList.insert (['c'], ['s']) 2 ∅, writer := .sending [] } := by
  simp only [step, assign, envelopesOf_tooLong hsplit]
  rfl

theorem happenings_droppedThenPong : happenings host {} droppedThenPong =
    [.assigned (['c'], ['s']) [], .assigned (['c'], ['s']) [⟨.pong .active, ['c'], ['s'], 2⟩]] := by
  show happens host { writer := .received tooLong } (.assign : Event Nat Nat) ++
    Run.emit _ _ (step host { writer := .received tooLong } .assign) _ = _
  simp only [step_tooLong hsplit, happens, envelopesOf_tooLong hsplit]
  rfl

theorem signalled_droppedThenPong :
    signalled host droppedThenPong = [[], [⟨.pong .active, ['c'], ['s'], 2⟩]] := by
  show Signalling.signals host ⟨{ writer := .received tooLong }, none⟩ (.assign : Event Nat Nat) ++
    Run.emit _ _ (Signalling.step host ⟨{ writer := .received tooLong }, none⟩ .assign) _ = _
  simp only [Signalling.step, Signalling.signals, step_tooLong hsplit, envelopesOf_tooLong hsplit]
  rfl

end

theorem split_tooLong :
    splitServerEnvelopeForTransport (replySplitHost 2) ⟨.serverMessage 104857600, ['c'], ['s'], 1⟩ = some (.ok []) := by
  have hlong : ¬(replySplitHost 2).serializedLen ⟨.serverMessage 104857600, ['c'], ['s'], 1⟩ ≤
      remoteControlSegmentMaxBytes := by
    simp only [replySplitHost, ClientSegmentReassembler.length_errorReply, remoteControlSegmentMaxBytes]
    omega
  have hlarge : remoteControlReassembledMaxBytes < ((replySplitHost 2).toVec 104857600).length := by
    simp only [replySplitHost, ClientSegmentReassembler.length_errorReply, remoteControlReassembledMaxBytes]
    omega
  simp only [splitServerEnvelopeForTransport, if_neg hlong, if_pos hlarge]

theorem numbered_iff_droppedThenPong :
    Numbered (['c'], ['s']) (happenings (replySplitHost 2) {} droppedThenPong) ∧
      ¬∀ key, DropsLast (replySplitHost 2) (numberedOn key (handled (replySplitHost 2) droppedThenPong)) := by
  have hfew : ∀ key, (happenings (replySplitHost 2) {} droppedThenPong).countP (Happening.isEventOf key) < u64Max := by
    intro key
    rw [happenings_droppedThenPong split_tooLong]
    exact countP_le_length.trans_lt (by decide)
  have hiff := numbered_iff (replySplitHost 2) droppedThenPong hfew
  refine ⟨(hiff.1 (['c'], ['s'])).2.2, fun hlast => ?_⟩
  refine ((hiff.2.mpr hlast).2 [] ?_).1 rfl
  rw [signalled_droppedThenPong split_tooLong]
  exact mem_cons_self

theorem dropped_message_leaves_gap :
    (assignedTo (['c'], ['s']) (happenings (replySplitHost 2) {} droppedThenPong)).map ServerEnvelope.seqId = [2] ∧
      [] ∈ signalled (replySplitHost 2) droppedThenPong := by
  rw [happenings_droppedThenPong split_tooLong, signalled_droppedThenPong split_tooLong]
  decide

end Outbound

end RemoteControl
