import Codez.Compress.Ccr
import Codez.Compress.Lines
import Codez.Compress.Structured

/-!
The entry point of llm-compress (`lib.rs`): every text of a tool output is replaced by
what preprocessing, routing and the pointer store make of it.
-/

namespace LlmCompress

open Codex

def buildRouter (ext : Ext) : List Compressor :=
  [jsonCompressor ext, searchCompressor ext, diffCompressor, tabularCompressor ext,
    logCompressor ext, truncateCompressor]

structure Candidate where
  text : Text
  isJson : Bool
  /-- the text goes through `attach` -/
  attach : Bool

def candidate (ext : Ext) (cfg : Config) (cmd : Option CommandHint) (s : Text) : Option Candidate :=
  if Text.byteLen s < cfg.perItemMinBytes then none
  else if shouldProtect ext s cmd cfg then none
  else
    let (pre, preLossy) := Preprocess.run s cfg.preprocess
    match compressText (buildRouter ext) pre ⟨cfg, cmd⟩ with
    | some (new, compLossy, kind) =>
      match kind with
      | .json => some ⟨new, true, false⟩
      | .toon => some ⟨new, false, false⟩
      | .text => some ⟨new, false, preLossy || compLossy⟩
    | none => some ⟨pre, false, preLossy⟩

/-- A text that was handled: what it was, what it became, and the path named by the
pointer that was put there. -/
structure Handled where
  callId : String
  original : Text
  output : Text
  pointer : Option Text := none
deriving DecidableEq

def writesBack (ext : Ext) (s : Text) (isJson : Bool) (candidate : Text) : Bool :=
  decide (Text.byteLen candidate ≤ Text.byteLen s) && (!isJson || (ext.parse candidate).isSome)

def compressInPlace (env : Env) (cfg : Config) (cmdIndex : List (String × CommandHint))
    (callId : String) (s : Text) (st : Store) : Handled × Store :=
  match candidate env.ext cfg (cmdIndex.lookup callId) s with
  | none => (⟨callId, s, s, none⟩, st)
  | some c =>
    let (a, st) := if c.attach then attach env cfg.ccr c.text s callId st else (⟨c.text, none⟩, st)
    if writesBack env.ext s c.isJson a.text then (⟨callId, s, a.text, a.pointer⟩, st)
    else (⟨callId, s, s, none⟩, st)

section
variable {σ : Type} (f : String → Text → σ → Text × σ)

def compressContentItem (callId : String) (ci : FunctionCallOutputContentItem) (st : σ) :
    FunctionCallOutputContentItem × σ :=
  match ci with
  | .inputText text =>
    let r := f callId text.toList st
    (.inputText (String.ofList r.1), r.2)
  | ci => (ci, st)

def compressBody (callId : String) (body : FunctionCallOutputBody) (st : σ) : FunctionCallOutputBody × σ :=
  match body with
  | .text s =>
    let r := f callId s.toList st
    (.text (String.ofList r.1), r.2)
  | .contentItems items =>
    let r := Run.mapAccum (compressContentItem f callId) items st
    (.contentItems r.1, r.2)

def compressItem (item : ResponseItem) (st : σ) : ResponseItem × σ :=
  match item with
  | .functionCallOutput o =>
    let r := compressBody f o.callId o.output.body st
    (.functionCallOutput { o with output := { o.output with body := r.1 } }, r.2)
  | .customToolCallOutput o =>
    let r := compressBody f o.callId o.output.body st
    (.customToolCallOutput { o with output := { o.output with body := r.1 } }, r.2)
  | item => (item, st)

end

def contentItemTexts (callId : String) : FunctionCallOutputContentItem → List (String × Text)
  | .inputText text => [(callId, text.toList)]
  | _ => []

def bodyTexts (callId : String) : FunctionCallOutputBody → List (String × Text)
  | .text s => [(callId, s.toList)]
  | .contentItems items => items.flatMap (contentItemTexts callId)

def itemTexts : ResponseItem → List (String × Text)
  | .functionCallOutput o => bodyTexts o.callId o.output.body
  | .customToolCallOutput o => bodyTexts o.callId o.output.body
  | _ => []

def toolTexts (input : List ResponseItem) : List (String × Text) := input.flatMap itemTexts

structure Session where
  store : Store
  handled : List Handled := []

def handle (env : Env) (cfg : Config) (cmdIndex : List (String × CommandHint)) (callId : String)
    (s : Text) (ss : Session) : Text × Session :=
  let r := compressInPlace env cfg cmdIndex callId s ss.store
  (r.1.output, ⟨r.2, ss.handled ++ [r.1]⟩)

def transform (env : Env) (cfg : Config) (dir : Dir) (request : ResponsesApiRequest) :
    ResponsesApiRequest × Session :=
  let ss : Session := ⟨{ dir := dir }, []⟩
  if cfg.enabled then
    let cmdIndex := index env.ext request.input
    let r := Run.mapAccum (compressItem (handle env cfg cmdIndex)) request.input ss
    ({ request with input := r.1 }, r.2)
  else (request, ss)

def outputsRequest (outputs : List (String × Text)) : ResponsesApiRequest where
  input := outputs.map fun o => .functionCallOutput ⟨o.1, ⟨.text (String.ofList o.2), none⟩⟩

open Run

section
variable {σ : Type} (f : String → Text → σ → Text × σ)

def textStep (x : String × Text) (st : σ) : (String × Text) × σ :=
  let r := f x.1 x.2 st
  ((x.1, r.1), r.2)

theorem contentItemTexts_compress (callId : String) (ci : FunctionCallOutputContentItem) (st : σ) :
    (contentItemTexts callId (compressContentItem f callId ci st).1, (compressContentItem f callId ci st).2) =
    mapAccum (textStep f) (contentItemTexts callId ci) st := by
  cases ci with
  | inputText text => simp [compressContentItem, contentItemTexts, mapAccum, textStep]
  | inputImage url => rfl
  | encryptedContent c => rfl

theorem bodyTexts_compress (callId : String) (body : FunctionCallOutputBody) (st : σ) :
    (bodyTexts callId (compressBody f callId body st).1, (compressBody f callId body st).2) =
    mapAccum (textStep f) (bodyTexts callId body) st := by
  cases body with
  | text s => simp [compressBody, bodyTexts, mapAccum, textStep]
  | contentItems items =>
    exact mapAccum_flatMap (contentItemTexts_compress f callId) items st

theorem itemTexts_compress (item : ResponseItem) (st : σ) :
    (itemTexts (compressItem f item st).1, (compressItem f item st).2) =
    mapAccum (textStep f) (itemTexts item) st := by
  cases item with
  | functionCallOutput o | customToolCallOutput o => exact bodyTexts_compress f o.callId o.output.body st
  | _ => rfl

theorem toolTexts_compress (input : List ResponseItem) (st : σ) :
    (toolTexts (mapAccum (compressItem f) input st).1, (mapAccum (compressItem f) input st).2) =
    mapAccum (textStep f) (toolTexts input) st :=
  mapAccum_flatMap (itemTexts_compress f) input st

end

theorem compressText_buildRouter (ext : Ext) (text : Text) (budget : Budget) (new : Text)
    (lossy : Bool) (kind : ContentKind)
    (h : compressText (buildRouter ext) text budget = some (new, lossy, kind)) :
    (lossy = true ∧ kind = .text) ∨ (lossy = false ∧ kind = .toon ∧
        (Json.tryToon ext text budget = some new ∨ Tabular.tryToon ext text budget = some new)) := by
  obtain ⟨c, hc, -, saved, -, hout⟩ := compressText_eq_some _ text budget new lossy kind h
  simp only [buildRouter, List.mem_cons, List.not_mem_nil, or_false] at hc
  rcases hc with rfl | rfl | rfl | rfl | rfl | rfl
  · obtain ⟨ht, hl, hk⟩ := toonCompressor_compress _ _ _ _ _ _ _ _ hout
    exact .inr ⟨hl, hk, .inl ht⟩
  · exact .inl (isLossyText_search ext _ _ _ _ _ _ hout)
  · exact .inl (isLossyText_diff _ _ _ _ _ _ hout)
  · obtain ⟨ht, hl, hk⟩ := toonCompressor_compress _ _ _ _ _ _ _ _ hout
    exact .inr ⟨hl, hk, .inr ht⟩
  · exact .inl (isLossyText_log ext _ _ _ _ _ _ hout)
  · exact .inl (isLossyText_truncate _ _ _ _ _ _ hout)

def routed (ext : Ext) (cfg : Config) (cmd : Option CommandHint) (s : Text) :
    Option (Text × Bool × ContentKind) :=
  compressText (buildRouter ext) (Preprocess.run s cfg.preprocess).1 ⟨cfg, cmd⟩

inductive PlainProduct (ext : Ext) (cfg : Config) (cmd : Option CommandHint) (s : Text) : Text → Prop where
  | reformatted (hpre : (Preprocess.run s cfg.preprocess).2 = false)
      (hrouted : routed ext cfg cmd s = none) :
      PlainProduct ext cfg cmd s (Preprocess.run s cfg.preprocess).1
  | toon (t : Text) (hrouted : routed ext cfg cmd s = some (t, false, .toon)) : PlainProduct ext cfg cmd s t

theorem candidate_plain (ext : Ext) (cfg : Config) (cmd : Option CommandHint) (s : Text)
    (c : Candidate) (h : candidate ext cfg cmd s = some c) (ha : c.attach = false) :
    PlainProduct ext cfg cmd s c.text := by
  unfold candidate at h
  split at h
  · cases h
  · split at h
    · cases h
    · dsimp only at h
      split at h
      · next new compLossy kind hr =>
        rcases compressText_buildRouter _ _ _ _ _ _ hr with ⟨rfl, rfl⟩ | ⟨rfl, rfl, -⟩
        · -- a text product is lossy, so it goes through the store
          cases h
          simp at ha
        · cases h
          exact .toon _ hr
      · next hr =>
        cases h
        exact .reformatted ha hr

def wantsStore (ext : Ext) (cfg : Config) (cmd : Option CommandHint) (s : Text) : Bool :=
  (candidate ext cfg cmd s).any Candidate.attach && cfg.ccr.enabled &&
    decide (Text.byteLen s ≤ cfg.ccr.maxFileBytes)

inductive Handles (env : Env) (cfg : Config) (cmd : Option CommandHint) (callId : String) (s : Text)
    (st : Store) : Handled × Store → Prop where
  /-- the text stays; its original may have been stored all the same -/
  | kept (st' : Store)
      (hst : st' = st ∨ wantsStore env.ext cfg cmd s = true ∧ st' = (tryPersist env cfg.ccr s callId st).2) :
      Handles env cfg cmd callId s st (⟨callId, s, s, none⟩, st')
  /-- a product that needs no pointer -/
  | plain (c : Candidate) (hc : candidate env.ext cfg cmd s = some c) (ha : c.attach = false)
      (hw : writesBack env.ext s c.isJson c.text = true) :
      Handles env cfg cmd callId s st (⟨callId, s, c.text, none⟩, st)
  /-- a lossy product while the store is switched off -/
  | bare (c : Candidate) (hc : candidate env.ext cfg cmd s = some c) (ha : c.attach = true)
      (hoff : cfg.ccr.enabled = false) :
      Handles env cfg cmd callId s st (⟨callId, s, c.text, none⟩, st)
  /-- a lossy product with its pointer -/
  | pointed (c : Candidate) (path : Text) (hc : candidate env.ext cfg cmd s = some c)
      (hwants : wantsStore env.ext cfg cmd s = true)
      (hp : (tryPersist env cfg.ccr s callId st).1 = some path) :
      Handles env cfg cmd callId s st
        (⟨callId, s, c.text ++ pointerText path, some path⟩, (tryPersist env cfg.ccr s callId st).2)

variable (env : Env) (cfg : Config) (cmdIndex : List (String × CommandHint)) {cmd : Option CommandHint}
  {r : Handled × Store} {callId : String} {st : Store}

theorem attach_of_disabled (cfg : CcrCfg) (compressed original : Text) (callId : String) (st : Store)
    (h : cfg.enabled = false) :
    attach env cfg compressed original callId st = (⟨compressed, none⟩, st) := by
  unfold attach
  rw [if_neg (by rw [h]; decide)]

theorem compressInPlace_handles (callId : String) (s : Text) (st : Store) :
    Handles env cfg (cmdIndex.lookup callId) callId s st
      (compressInPlace env cfg cmdIndex callId s st) := by
  unfold compressInPlace
  split
  · exact .kept st (.inl rfl)
  · next c hc =>
    by_cases ha : c.attach = true
    · rw [if_pos ha]
      by_cases hon : cfg.ccr.enabled = true
      · have hwants : Text.byteLen s ≤ cfg.ccr.maxFileBytes →
            wantsStore env.ext cfg (cmdIndex.lookup callId) s = true := by
          intro hsz
          simp [wantsStore, hc, ha, hon, hsz]
        have hat := attach_attaches env cfg.ccr c.text s callId st hon
        generalize attach env cfg.ccr c.text s callId st = r at hat ⊢
        cases hat with
        | original st' hst =>
          have hst' := hst.imp_right fun h => And.intro (hwants h.1) h.2
          dsimp only
          split
          · exact .kept st' hst'
          · exact .kept st' hst'
        | pointer path hsz hp hlen =>
          dsimp only
          split
          · exact .pointed c path hc (hwants hsz) hp
          · exact .kept _ (.inr ⟨hwants hsz, rfl⟩)
      · have hoff : cfg.ccr.enabled = false := by simpa using hon
        rw [attach_of_disabled env cfg.ccr c.text s callId st hoff]
        dsimp only
        split
        · exact .bare c hc ha hoff
        · exact .kept st (.inl rfl)
    · have ha' : c.attach = false := by simpa using ha
      rw [if_neg ha]
      dsimp only
      split
      · next hw => exact .plain c hc ha' hw
      · exact .kept st (.inl rfl)

theorem Handles.record {env : Env} {cfg : Config} {s : Text} (h : Handles env cfg cmd callId s st r) :
    r.1.callId = callId ∧ r.1.original = s := by
  cases h <;> exact ⟨rfl, rfl⟩

theorem Handles.store_inv {env : Env} {cfg : Config} {s : Text} (h : Handles env cfg cmd callId s st r)
    {P : Store → Prop} (hst : P st)
    (hp : wantsStore env.ext cfg cmd s = true → P (tryPersist env cfg.ccr s callId st).2) :
    P r.2 := by
  cases h with
  | kept st' h =>
    rcases h with rfl | ⟨hwants, rfl⟩
    · exact hst
    · exact hp hwants
  | plain c hc ha hw => exact hst
  | bare c hc ha hoff => exact hst
  | pointed c path hc hwants hpath => exact hp hwants

def sessionStep (env : Env) (cfg : Config) (cmdIndex : List (String × CommandHint)) (ss : Session)
    (x : String × Text) : Session :=
  (handle env cfg cmdIndex x.1 x.2 ss).2

theorem mem_handled_sessionStep (ss : Session) (x : String × Text) (h : Handled)
    (hmem : h ∈ (sessionStep env cfg cmdIndex ss x).handled) :
    h ∈ ss.handled ∨ h = (compressInPlace env cfg cmdIndex x.1 x.2 ss.store).1 := by
  rcases List.mem_append.mp hmem with hmem | hmem
  · exact .inl hmem
  · exact .inr (List.mem_singleton.mp hmem)

theorem transform_session (dir : Dir) (request : ResponsesApiRequest) (h : cfg.enabled = true) :
    (transform env cfg dir request).2 =
      (toolTexts request.input).foldl (sessionStep env cfg (index env.ext request.input))
        ⟨{ dir := dir }, []⟩ := by
  unfold transform
  rw [if_pos h]
  have hrun := congrArg Prod.snd (toolTexts_compress (handle env cfg (index env.ext request.input))
    request.input ⟨{ dir := dir }, []⟩)
  exact hrun.trans (mapAccum_snd _ _ _)

end LlmCompress
