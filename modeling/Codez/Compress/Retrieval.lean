import Codez.Compress.Transform

/-!
Nothing lossy without a way back: a text that lost content is written back only with a
pointer to a file that holds the original (`lossy_output_retrievable`).

One product never goes through the store: TOON stays bare, also when preprocessing has dropped lines
before it (`BareToon`).
-/

namespace LlmCompress

open Codex

def reportsLoss (ext : Ext) (cfg : Config) (cmd : Option CommandHint) (s : Text) : Bool :=
  (Preprocess.run s cfg.preprocess).2 ||
    match routed ext cfg cmd s with
    | some (_, lossy, _) => lossy
    | none => false

/-- The text was left alone, or ends with a pointer to a path its original was written to. -/
def Retrievable (writes : List (Text × Text)) (h : Handled) : Prop :=
  h.output = h.original ∨ ∃ text path, h.output = text ++ pointerText path ∧ (path, h.original) ∈ writes

/-- Preprocessing dropped content, and the output is the TOON form of what was left. -/
def BareToon (ext : Ext) (cfg : Config) (cmd : Option CommandHint) (s output : Text) : Prop :=
  (Preprocess.run s cfg.preprocess).2 = true ∧ routed ext cfg cmd s = some (output, false, .toon)

def DistinctHashes (ext : Ext) (T : List (String × Text)) : Prop :=
  ∀ x ∈ T, ∀ y ∈ T, x.1 = y.1 → shortHash ext x.2 = shortHash ext y.2 → x.2 = y.2

instance (ext : Ext) (T : List (String × Text)) : Decidable (DistinctHashes ext T) :=
  inferInstanceAs (Decidable (∀ x ∈ T, ∀ y ∈ T, _ → _ → _))

theorem Retrievable.mono {writes writes' : List (Text × Text)} {h : Handled}
    (hr : Retrievable writes h) (hsub : writes ⊆ writes') : Retrievable writes' h := by
  rcases hr with hr | ⟨text, path, hout, hmem⟩
  · exact .inl hr
  · exact .inr ⟨text, path, hout, hsub hmem⟩

theorem bareToon_of_reportsLoss (ext : Ext) (cfg : Config) (cmd : Option CommandHint) (s : Text)
    (c : Candidate) (hc : candidate ext cfg cmd s = some c) (ha : c.attach = false)
    (hloss : reportsLoss ext cfg cmd s = true) : BareToon ext cfg cmd s c.text := by
  have hplain := candidate_plain ext cfg cmd s c hc ha
  unfold reportsLoss at hloss
  generalize c.text = t at hplain ⊢
  cases hplain with
  | reformatted hpre hrouted =>
    rw [hpre, hrouted] at hloss
    cases hloss
  | toon t hrouted =>
    rw [hrouted, Bool.or_false] at hloss
    exact ⟨hloss, hrouted⟩

section
variable (env : Env) (cfg : Config) (cmdIndex : List (String × CommandHint)) (T : List (String × Text))

/-- What is kept along a run: the registry is traced to the texts, and every lossy output
so far can be retrieved or is bare TOON. -/
structure Recoverable (ss : Session) : Prop where
  traced : Traced env (· ∈ T) ss.store
  outputs : ∀ h ∈ ss.handled, reportsLoss env.ext cfg (cmdIndex.lookup h.callId) h.original = true →
    Retrievable ss.store.writes h ∨ BareToon env.ext cfg (cmdIndex.lookup h.callId) h.original h.output

variable (hccr : cfg.ccr.enabled = true)
variable (hhash : DistinctHashes env.ext T)
include hccr hhash

theorem retrievable_compressInPlace (cid : String) (s : Text) (st : Store)
    (ht : Traced env (· ∈ T) st) (hT : (cid, s) ∈ T)
    (hloss : reportsLoss env.ext cfg (cmdIndex.lookup cid) s = true) :
    Retrievable (compressInPlace env cfg cmdIndex cid s st).2.writes
        (compressInPlace env cfg cmdIndex cid s st).1 ∨
      BareToon env.ext cfg (cmdIndex.lookup cid) s
        (compressInPlace env cfg cmdIndex cid s st).1.output := by
  have hh := compressInPlace_handles env cfg cmdIndex cid s st
  generalize compressInPlace env cfg cmdIndex cid s st = r at hh ⊢
  cases hh with
  | kept st' hst => exact .inl (.inl rfl)
  | plain c hc ha hw => exact .inr (bareToon_of_reportsLoss _ _ _ _ c hc ha hloss)
  | bare c hc ha hoff =>
    rw [hccr] at hoff
    cases hoff
  | pointed c path hc hwants hp =>
    have hreg := ht.mem_writes cid s fun t htT heq =>
      hhash (cid, t) htT (cid, s) hT rfl heq
    exact .inl (.inr ⟨c.text, path, rfl, mem_writes_of_tryPersist env cfg.ccr s cid st path hreg hp⟩)

theorem Recoverable.step (ss : Session) (x : String × Text) (hss : Recoverable env cfg cmdIndex T ss)
    (hT : x ∈ T) :
    Recoverable env cfg cmdIndex T (sessionStep env cfg cmdIndex ss x) := by
  have hh := compressInPlace_handles env cfg cmdIndex x.1 x.2 ss.store
  have hwrites : ss.store.writes ⊆ (compressInPlace env cfg cmdIndex x.1 x.2 ss.store).2.writes :=
    hh.store_inv (P := fun st => ss.store.writes ⊆ st.writes) (List.Subset.refl _) fun _ =>
      writes_subset_tryPersist env cfg.ccr x.2 x.1 ss.store
  constructor
  · exact hh.store_inv hss.traced fun _ => hss.traced.tryPersist cfg.ccr x.2 x.1 hT
  · intro h hmem hloss
    rcases mem_handled_sessionStep env cfg cmdIndex ss x h hmem with hmem | hmem
    · exact (hss.outputs h hmem hloss).imp_left fun hr => hr.mono hwrites
    · rw [hmem, hh.record.1, hh.record.2] at hloss
      rw [hmem, hh.record.1, hh.record.2]
      exact retrievable_compressInPlace env cfg cmdIndex T hccr hhash x.1 x.2 ss.store hss.traced hT
        hloss

end

/-- **No lossy output without a pointer**, bare TOON apart, in every request none of whose
calls has two texts with one short hash. -/
theorem lossy_output_retrievable (env : Env) (cfg : Config) (dir : Dir)
    (request : ResponsesApiRequest) (hccr : cfg.ccr.enabled = true)
    (hhash : DistinctHashes env.ext (toolTexts request.input)) :
    ∀ h ∈ (transform env cfg dir request).2.handled,
      reportsLoss env.ext cfg ((index env.ext request.input).lookup h.callId) h.original = true →
      Retrievable (transform env cfg dir request).2.store.writes h ∨
        BareToon env.ext cfg ((index env.ext request.input).lookup h.callId) h.original h.output := by
  by_cases hon : cfg.enabled = true
  · have hinv : Recoverable env cfg (index env.ext request.input) (toolTexts request.input)
        (transform env cfg dir request).2 := by
      rw [transform_session env cfg dir request hon]
      apply Run.foldl_invariant
      · exact ⟨traced_init env _ dir, fun h hmem => absurd hmem List.not_mem_nil⟩
      · intro ss x hx hss
        exact hss.step env cfg _ _ hccr hhash ss x hx
    exact hinv.outputs
  · intro h hmem
    unfold transform at hmem
    rw [if_neg hon] at hmem
    cases hmem

def downloadLog (build : String) : Text :=
  "Downloading ".toList ++ List.replicate 62 'a' ++ build.toList ++ "\nok".toList

def downloadJson : Text := "Downloading x\n\x7b\"a\": 1\x7d".toList

/-- The SHA-256 digests of two logs, which agree in their first 48 bits, and the value and
the TOON form of the JSON. -/
def downloadExt : Ext :=
  Ext.ofTables
    [(downloadLog "36645690",
      #v[177, 213, 57, 122, 62, 41, 132, 221, 167, 143, 65, 191, 173, 145, 241, 205, 238, 91,
      235, 93, 215, 173, 209, 136, 250, 214, 130, 171, 84, 103, 250, 84]),
     (downloadLog "37764805",
      #v[177, 213, 57, 122, 62, 41, 19, 138, 58, 197, 3, 189, 36, 141, 146, 253, 184, 163, 183,
      74, 37, 65, 162, 50, 25, 202, 67, 94, 8, 228, 124, 9])]
    [("\x7b\"a\": 1\x7d".toList, .object [("a", .number (.posInt 1))])]
    [(.object [("a", .number (.posInt 1))], "a: 1".toList)]

def downloadEnv : Env := ⟨downloadExt, some "/root".toList, Io.plain, "q".toList⟩

def eagerCfg : Config := { enabled := true, perItemMinBytes := 0 }

theorem lossy_output_retrievable_download :
    let r := transform downloadEnv eagerCfg Dir.empty (outputsRequest [("c1", downloadLog "36645690")])
    r.2.handled.map Handled.pointer = [some "/root/.codex/llm-compress/ccr/q/c1-b1d5397a3e29.txt".toList] ∧
      ∀ h ∈ r.2.handled, reportsLoss downloadExt eagerCfg
          ((index downloadExt (outputsRequest [("c1", downloadLog "36645690")]).input).lookup h.callId)
          h.original = true →
        Retrievable r.2.store.writes h ∨ BareToon downloadExt eagerCfg
            ((index downloadExt (outputsRequest [("c1", downloadLog "36645690")]).input).lookup
              h.callId)
            h.original h.output :=
  ⟨by decide +kernel, lossy_output_retrievable downloadEnv eagerCfg Dir.empty
      (outputsRequest [("c1", downloadLog "36645690")]) rfl (by decide +kernel)⟩

def LosesOutput (env : Env) (cfg : Config) (request : ResponsesApiRequest) : Prop :=
  ∃ h ∈ (transform env cfg Dir.empty request).2.handled,
    reportsLoss env.ext cfg ((index env.ext request.input).lookup h.callId) h.original = true ∧
      ¬Retrievable (transform env cfg Dir.empty request).2.store.writes h

theorem lossy_outputs_lost : eagerCfg.ccr.enabled = true ∧ downloadEnv.io.Succeeds ∧
      LosesOutput downloadEnv eagerCfg (outputsRequest [("c1", downloadJson)]) ∧
      LosesOutput downloadEnv eagerCfg
        (outputsRequest [("c1", downloadLog "36645690"), ("c1", downloadLog "37764805")]) := by
  refine ⟨rfl, Io.plain_succeeds, ?_, ?_⟩
  · refine ⟨⟨"c1", downloadJson, "a: 1".toList, none⟩, by decide +kernel, by decide +kernel, ?_⟩
    have hw : (transform downloadEnv eagerCfg Dir.empty
        (outputsRequest [("c1", downloadJson)])).2.store.writes = [] := by decide +kernel
    rw [hw]
    rintro (h | ⟨text, path, -, h⟩)
    · revert h
      decide
    · cases h
  · refine ⟨⟨"c1", downloadLog "37764805", "ok".toList ++
      pointerText "/root/.codex/llm-compress/ccr/q/c1-b1d5397a3e29.txt".toList,
      some "/root/.codex/llm-compress/ccr/q/c1-b1d5397a3e29.txt".toList⟩, by decide +kernel,
      by decide +kernel, ?_⟩
    have hw : (transform downloadEnv eagerCfg Dir.empty (outputsRequest
        [("c1", downloadLog "36645690"), ("c1", downloadLog "37764805")])).2.store.writes =
        [("/root/.codex/llm-compress/ccr/q/c1-b1d5397a3e29.txt".toList, downloadLog "36645690")] := by
      decide +kernel
    rw [hw]
    rintro (h | ⟨text, path, -, h⟩)
    · revert h
      decide +kernel
    · have hsame : downloadLog "37764805" = downloadLog "36645690" :=
        congrArg Prod.snd (List.mem_singleton.mp h)
      revert hsame
      decide +kernel

end LlmCompress
