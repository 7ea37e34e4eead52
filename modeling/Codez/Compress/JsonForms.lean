import Codez.Compress.Retrieval

/-!
The forms a JSON output can come back in.
-/

namespace LlmCompress

open Codex

/-- `serde_json` skips blank lines: a JSON text has its value also with runs of blank lines
made one.  (No line break of a JSON text stands inside a string.) -/
def SkipsBlankLines (ext : Ext) : Prop :=
  ∀ t v, ext.parse t = some v → ext.parse (Preprocess.collapseBlank t) = some v

def KeepsValue (ext : Ext) (writes : List (Text × Text)) (s : Text) (v : Value) (output : Text) : Prop :=
  output = s ∨ ext.parse output = some v ∨ ext.decodeDefault output = some v ∨
    ∃ text path, output = text ++ pointerText path ∧ (path, s) ∈ writes

def NothingFolded (cfg : PreprocessCfg) (s : Text) : Prop :=
  cfg.dedupConsecutive = true →
    Preprocess.NoRepeat ((if cfg.collapseBlank then Preprocess.collapseBlank s else s).splitOn '\n')

open Preprocess

theorem reformat_of_nothingFolded (cfg : PreprocessCfg) (s : Text) (h : NothingFolded cfg s) :
    reformat s cfg = if cfg.collapseBlank then collapseBlank s else s := by
  unfold reformat
  dsimp only
  by_cases hd : cfg.dedupConsecutive = true
  · rw [if_pos hd]
    exact dedupConsecutive_of_noRepeat _ (h hd)
  · rw [if_neg hd]

section
variable (ext : Ext) (cfg : Config) (cmd : Option CommandHint) (s : Text) (v : Value)
variable (hserde : SkipsBlankLines ext) (hparse : ext.parse s = some v)
include hserde hparse

theorem parse_preprocessed (hfold : NothingFolded cfg.preprocess s)
    (hpre : (run s cfg.preprocess).2 = false) :
    ext.parse (run s cfg.preprocess).1 = some v := by
  rw [run_of_not_lossy s cfg.preprocess hpre, reformat_of_nothingFolded _ s hfold]
  split
  · exact hserde s v hparse
  · exact hparse

theorem keepsValue_plain (writes : List (Text × Text)) (c : Candidate)
    (hc : candidate ext cfg cmd s = some c) (ha : c.attach = false)
    (hfold : reportsLoss ext cfg cmd s = false → NothingFolded cfg.preprocess s)
    (htable : reportsLoss ext cfg cmd s = false → ∀ t, routed ext cfg cmd s = some (t, false, .toon) →
        Json.tryToon ext (run s cfg.preprocess).1 ⟨cfg, cmd⟩ = some t) :
    KeepsValue ext writes s v c.text ∨ BareToon ext cfg cmd s c.text := by
  by_cases hloss : reportsLoss ext cfg cmd s = true
  · exact .inr (bareToon_of_reportsLoss ext cfg cmd s c hc ha hloss)
  · rw [Bool.not_eq_true] at hloss
    have hpre : (run s cfg.preprocess).2 = false := (Bool.or_eq_false_iff.mp hloss).1
    have hv := parse_preprocessed ext cfg s v hserde hparse (hfold hloss) hpre
    have hplain := candidate_plain ext cfg cmd s c hc ha
    generalize c.text = t at hplain ⊢
    cases hplain with
    | reformatted _ hrouted => exact .inl (.inr (.inl hv))
    | toon t hrouted =>
      have hdec := Json.tryToon_eq_some _ _ _ _ (htable hloss t hrouted)
      exact .inl (.inr (.inr (.inl (hdec.trans hv))))

end

/-- **JSON keeps its value**, with the store switched on and bare TOON apart, for a text
that is not silently folded or read as a table, and whose registry entry, if there is one,
was made for it. -/
theorem json_output_forms (env : Env) (cfg : Config) (cmdIndex : List (String × CommandHint))
    (callId : String) (s : Text) (v : Value) (st : Store)
    (hserde : SkipsBlankLines env.ext) (hparse : env.ext.parse s = some v)
    (hccr : cfg.ccr.enabled = true)
    (hfold : reportsLoss env.ext cfg (cmdIndex.lookup callId) s = false → NothingFolded cfg.preprocess s)
    (htable : reportsLoss env.ext cfg (cmdIndex.lookup callId) s = false →
      ∀ t, routed env.ext cfg (cmdIndex.lookup callId) s = some (t, false, .toon) →
        Json.tryToon env.ext (Preprocess.run s cfg.preprocess).1 ⟨cfg, cmdIndex.lookup callId⟩ = some t)
    (hregistry : ∀ p, st.written.lookup (callId, shortHash env.ext s) = some p → (p, s) ∈ st.writes) :
    KeepsValue env.ext (compressInPlace env cfg cmdIndex callId s st).2.writes s v
        (compressInPlace env cfg cmdIndex callId s st).1.output ∨
      BareToon env.ext cfg (cmdIndex.lookup callId) s
        (compressInPlace env cfg cmdIndex callId s st).1.output := by
  have hh := compressInPlace_handles env cfg cmdIndex callId s st
  generalize compressInPlace env cfg cmdIndex callId s st = r at hh ⊢
  cases hh with
  | kept st' hst => exact .inl (.inl rfl)
  | plain c hc ha hw =>
    exact keepsValue_plain env.ext cfg _ s v hserde hparse st.writes c hc ha hfold htable
  | bare c hc ha hoff =>
    rw [hccr] at hoff
    cases hoff
  | pointed c path hc hwants hp =>
    exact .inl (.inr (.inr (.inr ⟨c.text, path, rfl,
      mem_writes_of_tryPersist env cfg.ccr s callId st path hregistry hp⟩)))

theorem skipsBlankLines_ofTables (digests : List (Text × Vector UInt8 32))
    (jsons : List (Text × Value)) (toons : List (Value × Text))
    (h : ∀ e ∈ jsons, collapseBlank e.1 = e.1) :
    SkipsBlankLines (Ext.ofTables digests jsons toons) := by
  intro t v hp
  have ht : collapseBlank t = t := by
    unfold Ext.parse Ext.ofTables at hp
    dsimp only at hp
    split at hp
    · next e he =>
      have hkey := List.find?_some he
      rw [beq_iff_eq, String.toList_ofList] at hkey
      rw [← hkey]
      exact h e (List.mem_of_find?_eq_some he)
    · cases hp
  rw [ht]
  exact hp

def smallJson : Text := "\x7b\n\"a\": 1\n\x7d".toList

def longJson : Text := "\x7b\"a\": \"".toList ++ List.replicate 36 'x' ++ "\"\x7d".toList

/-- A line that ends in a carriage return counts as progress. -/
def mixedEnds : Text := "\x7b\"a\": 1,\n\"b\": 2,\r\n\"c\": 3\x7d".toList

def smallValue : Value := .object [("a", .number (.posInt 1))]

def longValue : Value := .object [("a", .string (String.ofList (List.replicate 36 'x')))]

def abcValue : Value := .object [("a", .number (.posInt 1)), ("b", .number (.posInt 2)), ("c", .number (.posInt 3))]

def acValue : Value := .object [("a", .number (.posInt 1)), ("c", .number (.posInt 3))]

def jsonEnv : Env where
  ext := Ext.ofTables [] [(smallJson, smallValue), (longJson, longValue), (mixedEnds, abcValue),
      ("\x7b\"a\": 1,\n\"c\": 3\x7d".toList, acValue)]
    [(smallValue, "a: 1".toList), (longValue, "a: ".toList ++ List.replicate 36 'x'), (acValue, "a: 1\nc: 3".toList)]
  home := some "/root".toList
  io := Io.plain
  queryid := "q".toList

theorem json_output_forms_small : let cfg : Config := { enabled := true, perItemMinBytes := 0 }
    let r := compressInPlace jsonEnv cfg [] "c1" smallJson { dir := Dir.empty }
    r.1.output = "a: 1".toList ∧ (KeepsValue jsonEnv.ext r.2.writes smallJson smallValue r.1.output ∨
        BareToon jsonEnv.ext cfg none smallJson r.1.output) := by
  refine ⟨by decide +kernel, ?_⟩
  refine json_output_forms jsonEnv _ [] "c1" smallJson smallValue _ ?_ (by decide +kernel) rfl ?_ ?_ ?_
  · exact skipsBlankLines_ofTables _ _ _ (by decide +kernel)
  · intro _ _
    rw [NoRepeat]
    decide +kernel
  · intro _ t ht
    have hrouted : routed jsonEnv.ext { enabled := true, perItemMinBytes := 0 } none smallJson =
        some ("a: 1".toList, false, .toon) := by decide +kernel
    cases hrouted.symm.trans ht
    decide +kernel
  · intro p hp
    cases hp

theorem not_keepsValue {ext : Ext} {s output : Text} {v : Value} (hs : output ≠ s) (hp : ext.parse output ≠ some v)
    (hd : ext.decodeDefault output ≠ some v) : ¬KeepsValue ext [] s v output := by
  rintro (h | h | h | ⟨_, _, -, h⟩)
  · exact hs h
  · exact hp h
  · exact hd h
  · cases h

theorem cut_json_without_store :
    (let cfg : Config :=
        { enabled := true, perItemMinBytes := 0, truncate := { maxBytes := 37 }, ccr := { enabled := false } }
      let r := compressInPlace jsonEnv cfg [] "c1" longJson { dir := Dir.empty }
      jsonEnv.ext.parse longJson = some longValue ∧ longValue.isContainer = true ∧
        r.1.output = "\x7b\n[llm-compress: 截断至 max_bytes]".toList ∧
        ¬KeepsValue jsonEnv.ext r.2.writes longJson longValue r.1.output) ∧
    let r := compressInPlace jsonEnv { enabled := true, perItemMinBytes := 0 } [] "c1" mixedEnds { dir := Dir.empty }
    jsonEnv.ext.parse mixedEnds = some abcValue ∧ abcValue.isContainer = true ∧
      r.1.output = "a: 1\nc: 3".toList ∧
      ¬KeepsValue jsonEnv.ext r.2.writes mixedEnds abcValue r.1.output := by
  constructor
  · intro cfg r
    obtain ⟨hout, hwrites⟩ : r.1.output = "\x7b\n[llm-compress: 截断至 max_bytes]".toList ∧
        r.2.writes = [] := by decide +kernel
    refine ⟨by decide +kernel, rfl, hout, ?_⟩
    rw [hout, hwrites]
    exact not_keepsValue (by decide +kernel) (by decide +kernel) (by decide +kernel)
  · intro r
    obtain ⟨hout, hwrites⟩ : r.1.output = "a: 1\nc: 3".toList ∧ r.2.writes = [] := by decide +kernel
    refine ⟨by decide +kernel, rfl, hout, ?_⟩
    rw [hout, hwrites]
    exact not_keepsValue (by decide +kernel) (by decide +kernel) (by decide +kernel)

end LlmCompress
