import Codez.Compress.Transform

/-!
Prefix stability for prompt caching: items that come later in a request do not change what
the earlier ones become.

While the disk can be written, the output of a text only depends on the text, its call id and the
hint of its command (`compressInPlace_output`).
-/

namespace LlmCompress

open Codex List

def attachedText (env : Env) (cfg : CcrCfg) (compressed original : Text) (callId : String) : Text :=
  if cfg.enabled then
    if cfg.maxFileBytes < Text.byteLen original then original
    else
      match pathOf env callId original with
      | some path =>
        let attached := compressed ++ pointerText path
        if Text.byteLen attached ≤ Text.byteLen original then attached else original
      | none => original
  else compressed

def outputText (env : Env) (cfg : Config) (cmd : Option CommandHint) (callId : String) (s : Text) : Text :=
  match candidate env.ext cfg cmd s with
  | none => s
  | some c =>
    let text := if c.attach then attachedText env cfg.ccr c.text s callId else c.text
    if writesBack env.ext s c.isJson text then text else s

section
variable (env : Env) (hio : env.io.Writable) (T : String × Text → Prop)
include hio

theorem tryPersist_path (cfg : CcrCfg) (original : Text) (callId : String) (st : Store)
    (ht : Traced env T st) :
    (tryPersist env cfg original callId st).1 = pathOf env callId original := by
  have hp := tryPersist_persists env cfg original callId st
  generalize tryPersist env cfg original callId st = r at hp ⊢
  cases hp with
  | known p hk =>
    obtain ⟨t, _, hhash, hpath, _⟩ := ht.entry _ _ _ hk
    unfold pathOf at hpath ⊢
    rw [← hhash, hpath]
  | homeless hk hpath | stored path hk hpath => exact hpath.symm
  | failed st' hk hwr hwrites why => exact absurd hio why

theorem attach_text (cfg : CcrCfg) (compressed original : Text) (callId : String) (st : Store)
    (ht : Traced env T st) :
    (attach env cfg compressed original callId st).1.text =
      attachedText env cfg compressed original callId := by
  unfold attach attachedText
  split
  · split
    · rfl
    · rw [← tryPersist_path env hio T cfg original callId st ht]
      cases hr : tryPersist env cfg original callId st with
      | mk p st' =>
        cases p with
        | none => rfl
        | some path =>
          dsimp only
          split <;> rfl
  · rfl

theorem compressInPlace_output (cfg : Config) (cmdIndex : List (String × CommandHint))
    (callId : String) (s : Text) (st : Store) (ht : Traced env T st) :
    (compressInPlace env cfg cmdIndex callId s st).1.output =
      outputText env cfg (cmdIndex.lookup callId) callId s := by
  unfold compressInPlace outputText
  cases candidate env.ext cfg (cmdIndex.lookup callId) s with
  | none => rfl
  | some c =>
    dsimp only
    by_cases ha : c.attach = true
    · rw [if_pos ha, if_pos ha, ← attach_text env hio T cfg.ccr c.text s callId st ht]
      split <;> rfl
    · rw [if_neg ha, if_neg ha]
      split <;> rfl

end

def outputCallId : ResponseItem → Option String
  | .functionCallOutput o => some o.callId
  | .customToolCallOutput o => some o.callId
  | _ => none

section
variable {σ τ : Type} {f : String → Text → σ → Text × σ} {g : String → Text → τ → Text × τ} {R : σ → τ → Prop}

/-- `f` and `g` answer alike on the texts of call `callId` in related states. -/
def Agree (f : String → Text → σ → Text × σ) (g : String → Text → τ → Text × τ) (R : σ → τ → Prop)
    (callId : String) : Prop :=
  ∀ s st st', R st st' → (f callId s st).1 = (g callId s st').1 ∧ R (f callId s st).2 (g callId s st').2

theorem compressBody_lockstep (callId : String) (h : Agree f g R callId)
    (body : FunctionCallOutputBody) (st : σ) (st' : τ) (hR : R st st') :
    (compressBody f callId body st).1 = (compressBody g callId body st').1 ∧
      R (compressBody f callId body st).2 (compressBody g callId body st').2 := by
  cases body with
  | text s =>
    obtain ⟨hout, hR'⟩ := h s.toList st st' hR
    exact ⟨congrArg (fun t => FunctionCallOutputBody.text (String.ofList t)) hout, hR'⟩
  | contentItems items =>
    have hit : ∀ ci ∈ items, ∀ st st', R st st' →
        (compressContentItem f callId ci st).1 = (compressContentItem g callId ci st').1 ∧
          R (compressContentItem f callId ci st).2 (compressContentItem g callId ci st').2 := by
      intro ci _ st st' hR
      cases ci with
      | inputText text =>
        obtain ⟨hout, hR'⟩ := h text.toList st st' hR
        exact ⟨congrArg (fun t => FunctionCallOutputContentItem.inputText (String.ofList t)) hout, hR'⟩
      | inputImage url | encryptedContent c => exact ⟨rfl, hR⟩
    obtain ⟨hout, hR'⟩ := Run.mapAccum_lockstep items hit st st' hR
    exact ⟨congrArg FunctionCallOutputBody.contentItems hout, hR'⟩

theorem compressItem_lockstep (item : ResponseItem)
    (h : ∀ callId, outputCallId item = some callId → Agree f g R callId) (st : σ) (st' : τ)
    (hR : R st st') :
    (compressItem f item st).1 = (compressItem g item st').1 ∧
      R (compressItem f item st).2 (compressItem g item st').2 := by
  cases item with
  | functionCallOutput o | customToolCallOutput o =>
    obtain ⟨hout, hR'⟩ := compressBody_lockstep o.callId (h o.callId rfl) o.output.body st st' hR
    unfold compressItem
    exact ⟨by dsimp only; rw [hout], hR'⟩
  | _ => exact ⟨rfl, hR⟩

end

def BothTraced (env env' : Env) (ss ss' : Session) : Prop :=
  Traced env (fun _ => True) ss.store ∧ Traced env' (fun _ => True) ss'.store

theorem traced_handle (env : Env) (cfg : Config) (cmdIndex : List (String × CommandHint))
    (callId : String) (s : Text) (ss : Session) (ht : Traced env (fun _ => True) ss.store) :
    Traced env (fun _ => True) (handle env cfg cmdIndex callId s ss).2.store :=
  (compressInPlace_handles env cfg cmdIndex callId s ss.store).store_inv ht fun _ =>
    ht.tryPersist cfg.ccr s callId trivial

theorem agree_handle (env : Env) (io : Io) (hio : env.io.Writable) (hio' : io.Writable)
    (cfg : Config) (cmdIndex cmdIndex' : List (String × CommandHint)) (callId : String)
    (h : cmdIndex.lookup callId = cmdIndex'.lookup callId) :
    Agree (handle env cfg cmdIndex) (handle { env with io := io } cfg cmdIndex')
      (BothTraced env { env with io := io }) callId := by
  intro s ss ss' hR
  refine ⟨?_, traced_handle env cfg cmdIndex callId s ss hR.1,
    traced_handle _ cfg cmdIndex' callId s ss' hR.2⟩
  show (compressInPlace env cfg cmdIndex callId s ss.store).1.output =
    (compressInPlace { env with io := io } cfg cmdIndex' callId s ss'.store).1.output
  rw [compressInPlace_output env hio _ cfg cmdIndex callId s ss.store hR.1,
    compressInPlace_output { env with io := io } hio' _ cfg cmdIndex' callId s ss'.store hR.2, h]
  -- `outputText` reads nothing of the operating system
  rfl

/-- **Prefix stability.**  Items appended to a request, none of them a call of an output
that is already there, leave what the earlier items become as it is; the two runs may
meet different disks. -/
theorem transform_take (env : Env) (io : Io) (cfg : Config) (dir dir' : Dir)
    (request request' : ResponsesApiRequest) (later : List ResponseItem)
    (hinput : request'.input = request.input ++ later)
    (hlater : ∀ c, ResponseItem.functionCall c ∈ later →
      ∀ item ∈ request.input, outputCallId item ≠ some c.callId)
    (hio : env.io.Writable) (hio' : io.Writable) :
    (transform { env with io := io } cfg dir' request').1.input.take request.input.length =
      (transform env cfg dir request).1.input := by
  unfold transform
  by_cases hon : cfg.enabled = true
  · rw [if_pos hon, if_pos hon]
    dsimp only
    rw [hinput, Run.mapAccum_append]
    have hagree : ∀ item ∈ request.input, ∀ ss ss', BothTraced env { env with io := io } ss ss' →
        (compressItem (handle env cfg (index env.ext request.input)) item ss).1 =
          (compressItem (handle { env with io := io } cfg
            (index env.ext (request.input ++ later))) item ss').1 ∧
        BothTraced env { env with io := io }
          (compressItem (handle env cfg (index env.ext request.input)) item ss).2
          (compressItem (handle { env with io := io } cfg
            (index env.ext (request.input ++ later))) item ss').2 := by
      intro item hitem ss ss' hR
      refine compressItem_lockstep item (fun callId hid => ?_) ss ss' hR
      refine agree_handle env io hio hio' cfg _ _ callId ?_
      rw [lookup_index_append env.ext request.input later callId]
      intro c hc heq
      exact hlater c hc item hitem (by rw [heq]; exact hid)
    obtain ⟨hout, -⟩ := Run.mapAccum_lockstep request.input hagree ⟨{ dir := dir }, []⟩
      ⟨{ dir := dir' }, []⟩ ⟨traced_init env _ dir, traced_init _ _ dir'⟩
    rw [hout]
    exact take_left' (Run.length_mapAccum _ _ _)
  · rw [if_neg hon, if_neg hon]
    dsimp only
    rw [hinput]
    exact take_left' rfl

def fetchLog : Text := "Fetching ".toList ++ List.replicate 72 'a' ++ "\nok".toList

def fetchEnv : Env where
  ext := Ext.ofTables
    [(fetchLog, #v[211, 85, 89, 235, 112, 95, 127, 221, 57, 235, 208, 228, 241, 142, 216, 157, 139, 162,
      95, 186, 66, 139, 242, 111, 57, 118, 90, 238, 101, 62, 209, 112])]
    [] []
  home := some "/root".toList
  io := Io.plain
  queryid := "q".toList

def fetchRequest : ResponsesApiRequest := outputsRequest [("c1", fetchLog)]

def laterTurn : List ResponseItem :=
  [.functionCall ⟨none, "view", none, "", "c2"⟩] ++ (outputsRequest [("c2", fetchLog)]).input

theorem transform_take_fetch : let cfg : Config := { enabled := true, perItemMinBytes := 0 }
    let io : Io := { Io.plain with now := fun _ => 7 }
    let dir : Dir := ⟨[⟨"old.txt".toList, 3, []⟩], nodup_singleton _⟩
    (transform fetchEnv cfg Dir.empty fetchRequest).1.input =
        (outputsRequest [("c1", "ok [llm-compress: original ".toList ++
          "/root/.codex/llm-compress/ccr/q/c1-d35559eb705f.txt]".toList)]).input ∧
      (transform { fetchEnv with io := io } cfg dir
          { input := fetchRequest.input ++ laterTurn }).1.input.take 1 =
        (transform fetchEnv cfg Dir.empty fetchRequest).1.input := by
  refine ⟨by decide +kernel, ?_⟩
  refine transform_take fetchEnv _ _ _ _ fetchRequest _ laterTurn rfl ?_ Io.plain_succeeds.toWritable
    ⟨fun _ => rfl, fun _ => rfl⟩
  intro c hc item hitem
  have hcall : c.callId = "c2" := by
    simp only [laterTurn, outputsRequest, map_cons, map_nil, cons_append,
      nil_append, mem_cons, not_mem_nil, or_false] at hc
    rcases hc with hc | hc
    · cases hc
      rfl
    · cases hc
  have hid : outputCallId item = some "c1" := by
    simp only [fetchRequest, outputsRequest, map_cons, map_nil, mem_cons, not_mem_nil, or_false] at hitem
    rw [hitem]
    rfl
  rw [hid, hcall]
  decide

end LlmCompress
