import Codez.Compress.Transform

/-!
Pointers that outlive the request: what `enforce_limits` does to the files that earlier
texts of the same request point to.

Before every write the oldest files are removed until the directory keeps both limits, whoever wrote
them.
-/

namespace LlmCompress

open Codex List

/-- The file of this name keeps both limits together with the younger ones. -/
def HasRoom (io : Io) (k : Nat) (cfg : CcrCfg) (dir : Dir) (name : Text) : Prop :=
  ∀ es ∈ (entries io k dir).tails, es.head?.map File.name = some name →
    Evict.Fits File.size cfg.maxFilesPerThread cfg.maxThreadBytes es

instance (io : Io) (k : Nat) (cfg : CcrCfg) (dir : Dir) (name : Text) :
    Decidable (HasRoom io k cfg dir name) :=
  inferInstanceAs (Decidable (∀ es ∈ _, _ → _))

section
variable (io : Io) (hio : io.Succeeds) (k : Nat) (cfg : CcrCfg) (dir : Dir)
include hio

theorem perm_entries : (entries io k dir).Perm dir.files := by
  unfold entries
  refine (perm_insertionSort _ _).trans ?_
  rw [filter_eq_self.mpr fun f _ => hio.metadata k f.name]
  exact io.listing_perm k dir.files

theorem enforceLimits_eq :
    enforceLimits io k cfg dir = dir.keep fun f =>
      !((Evict.evicted File.size cfg.maxFilesPerThread cfg.maxThreadBytes
        (entries io k dir)).map File.name).contains f.name := by
  have hrm : (fun f : File => io.removeFile k f.name) = fun _ => true := by
    funext f
    exact hio.removeFile k f.name
  unfold enforceLimits
  rw [if_pos (hio.readDir k)]
  dsimp only
  rw [hrm]
  rfl

theorem mem_enforceLimits (f : File) (hf : f ∈ dir.files) :
    f ∈ (enforceLimits io k cfg dir).files ↔
      f ∉ Evict.evicted File.size cfg.maxFilesPerThread cfg.maxThreadBytes (entries io k dir) := by
  rw [enforceLimits_eq io hio k cfg dir]
  constructor
  · intro h hgone
    have hkeep := (mem_filter.mp h).2
    have hn := mem_map_of_mem (f := File.name) hgone
    simp [hn] at hkeep
  · intro h
    refine mem_filter.mpr ⟨hf, ?_⟩
    rw [Bool.not_eq_true', contains_eq_mem, decide_eq_false_iff_not]
    intro hn
    obtain ⟨g, hg, hgf⟩ := mem_map.mp hn
    have hgdir : g ∈ dir.files :=
      (perm_entries io hio k dir).subset (Evict.victims_subset _ _ _ _ _ _ _ hg)
    have hgf' : g = f := dir.eq_of_name g f hgdir hf hgf
    exact h (hgf' ▸ hg)

theorem mem_enforceLimits_iff (f : File) (hf : f ∈ dir.files) :
    f ∈ (enforceLimits io k cfg dir).files ↔ HasRoom io k cfg dir f.name := by
  have hperm := perm_entries io hio k dir
  have hnd : (entries io k dir).Nodup := by
    rw [hperm.nodup_iff]
    exact dir.distinct.of_map
  have hcut : ∀ before after, entries io k dir = before ++ f :: after → f ∉ before := by
    intro before after he hb
    rw [he] at hnd
    exact (disjoint_of_nodup_append hnd) hb mem_cons_self
  rw [mem_enforceLimits io hio k cfg dir f hf]
  constructor
  · intro hstay es hes hn
    obtain ⟨before, hes⟩ := (mem_tails es _).mp hes
    cases es with
    | nil => cases hn
    | cons g after =>
      have hg : g ∈ dir.files := hperm.subset (hes ▸ mem_append_right _ mem_cons_self)
      have hgf : g = f := dir.eq_of_name g f hg hf (Option.some.inj hn)
      subst hgf
      rw [← hes, Evict.mem_evicted_iff _ _ _ _ _ _ (hcut before after hes.symm), not_not] at hstay
      exact hstay
  · intro hroom hgone
    obtain ⟨before, after, he⟩ := append_of_mem (hperm.symm.subset hf)
    have hfits := hroom (f :: after) ((mem_tails _ _).mpr ⟨before, he.symm⟩) rfl
    rw [he, Evict.mem_evicted_iff _ _ _ _ _ _ (hcut before after he)] at hgone
    exact hgone hfits

end

def readFile (env : Env) (dir : Dir) (path : Text) : Option (List UInt8) :=
  match threadDir env.ext env.home env.queryid with
  | none => none
  | some d => (dir.files.find? fun f => join d f.name == path).map File.content

theorem readFile_of_mem (env : Env) (dir : Dir) (callId : String) (t path : Text) (f : File)
    (hp : pathOf env callId t = some path) (hf : f ∈ dir.files)
    (hn : f.name = fileName env.ext callId (shortHash env.ext t)) :
    readFile env dir path = some f.content := by
  obtain ⟨d, hd, hjoin⟩ := Option.map_eq_some_iff.mp hp
  unfold readFile
  rw [hd, ← hjoin, ← hn]
  dsimp only
  cases hfind : dir.files.find? fun g => join d g.name == join d f.name with
  | none =>
    have := find?_eq_none.mp hfind f hf
    simp at this
  | some g =>
    have hfnd := find?_some hfind
    have hg : join d g.name = join d f.name := eq_of_beq hfnd
    have hgf : g = f :=
      dir.eq_of_name g f (mem_of_find?_eq_some hfind) hf (join_right_inj d _ _ hg)
    rw [hgf]
    rfl

/-- Every registered path names a file that holds the text it was registered for. -/
def Backed (env : Env) (T : List (String × Text)) (st : Store) : Prop :=
  ∀ c h p, st.written.lookup (c, h) = some p →
    ∃ t, (c, t) ∈ T ∧ shortHash env.ext t = h ∧ pathOf env c t = some p ∧
      ∃ f ∈ st.dir.files, f.name = fileName env.ext c h ∧ f.content = Text.bytes t

def InjectiveHash (ext : Ext) (T : List (String × Text)) : Prop :=
  ∀ x ∈ T, ∀ y ∈ T, shortHash ext x.2 = shortHash ext y.2 → x.2 = y.2

instance (ext : Ext) (T : List (String × Text)) : Decidable (InjectiveHash ext T) :=
  inferInstanceAs (Decidable (∀ x ∈ T, ∀ y ∈ T, _ → _))

/-- If the text goes to the disk in this step, there is room for every file the request
has stored before. -/
def StepHasRoom (env : Env) (cfg : Config) (cmdIndex : List (String × CommandHint)) (ss : Session)
    (x : String × Text) : Prop :=
  wantsStore env.ext cfg (cmdIndex.lookup x.1) x.2 = true →
  ss.store.written.lookup (x.1, shortHash env.ext x.2) = none →
  ∀ e ∈ ss.store.written,
    HasRoom env.io ss.store.attempts cfg.ccr ss.store.dir (fileName env.ext e.1.1 e.1.2)

instance (env : Env) (cfg : Config) (cmdIndex : List (String × CommandHint)) (ss : Session)
    (x : String × Text) : Decidable (StepHasRoom env cfg cmdIndex ss x) :=
  inferInstanceAs (Decidable (_ → _ → ∀ e ∈ _, _))

section
variable (env : Env) (hio : env.io.Succeeds) (T : List (String × Text))
variable (hinj : InjectiveHash env.ext T)
include hio hinj

theorem mem_put_enforceLimits (k : Nat) (cfg : CcrCfg) (dir : Dir) (c callId : String)
    (t original : Text) (hc : (c, t) ∈ T) (hT : (callId, original) ∈ T) (f : File) (hf : f ∈ dir.files)
    (hn : f.name = fileName env.ext c (shortHash env.ext t)) (hcontent : f.content = Text.bytes t)
    (hroom : HasRoom env.io k cfg dir f.name) :
    ∃ g ∈ ((enforceLimits env.io k cfg dir).put
        ⟨fileName env.ext callId (shortHash env.ext original), env.io.now k,
          Text.bytes original⟩).files,
      g.name = fileName env.ext c (shortHash env.ext t) ∧ g.content = Text.bytes t := by
  by_cases hsame : f.name = fileName env.ext callId (shortHash env.ext original)
  · -- the file is overwritten: equal names mean equal hashes, so with the same text
    have hhash := shortHash_eq_of_fileName env.ext c callId t original (hn.symm.trans hsame)
    have ht : t = original := hinj (c, t) hc (callId, original) hT hhash
    refine ⟨_, (Dir.mem_put _ _ _).mpr (.inl rfl), ?_, ?_⟩
    · exact hsame.symm.trans hn
    · rw [ht]
  · have hstay := (mem_enforceLimits_iff env.io hio k cfg dir f hf).mpr hroom
    exact ⟨f, (Dir.mem_put _ _ _).mpr (.inr ⟨hstay, hsame⟩), hn, hcontent⟩

theorem Backed.tryPersist {st : Store} (hb : Backed env T st) (cfg : CcrCfg) (original : Text)
    (callId : String) (hT : (callId, original) ∈ T)
    (hroom : st.written.lookup (callId, shortHash env.ext original) = none →
      ∀ e ∈ st.written, HasRoom env.io st.attempts cfg st.dir (fileName env.ext e.1.1 e.1.2)) :
    Backed env T (tryPersist env cfg original callId st).2 := by
  have hp := tryPersist_persists env cfg original callId st
  generalize LlmCompress.tryPersist env cfg original callId st = r at hp ⊢
  cases hp with
  | known p hk => exact hb
  | homeless hk hpath => exact hb
  | failed st' hk hwr hwrites why => exact absurd hio.toWritable why
  | stored path hk hpath =>
    intro c h p hl
    dsimp only at hl ⊢
    rw [lookup_cons] at hl
    split at hl
    · next heq =>
      cases eq_of_beq heq
      cases hl
      exact ⟨original, hT, rfl, hpath, _, (Dir.mem_put _ _ _).mpr (.inl rfl), rfl, rfl⟩
    · obtain ⟨t, hc, rfl, hpt, f, hf, hn, hcontent⟩ := hb c h p hl
      refine ⟨t, hc, rfl, hpt, ?_⟩
      apply mem_put_enforceLimits env hio T hinj st.attempts cfg st.dir c callId t original hc hT f hf
        hn hcontent
      obtain ⟨l₁, l₂, hl, -⟩ := lookup_eq_some_iff.mp hl
      rw [hn]
      exact hroom hk ((c, shortHash env.ext t), p) (hl ▸ mem_append_right _ mem_cons_self)

/-- What is kept along a run: the registry is backed by files, and every pointer put into
the request is registered. -/
structure Resolvable (ss : Session) : Prop where
  backed : Backed env T ss.store
  pointers : ∀ r ∈ ss.handled, ∀ p, r.pointer = some p →
    (r.callId, r.original) ∈ T ∧
      ss.store.written.lookup (r.callId, shortHash env.ext r.original) = some p

theorem Resolvable.step (cfg : Config) (cmdIndex : List (String × CommandHint)) (ss : Session)
    (x : String × Text) (hss : Resolvable env T ss) (hT : x ∈ T)
    (hroom : StepHasRoom env cfg cmdIndex ss x) :
    Resolvable env T (sessionStep env cfg cmdIndex ss x) := by
  have hh := compressInPlace_handles env cfg cmdIndex x.1 x.2 ss.store
  have hlk : ∀ key p, ss.store.written.lookup key = some p →
      (compressInPlace env cfg cmdIndex x.1 x.2 ss.store).2.written.lookup key = some p := by
    intro key p hl
    exact hh.store_inv (P := fun st => st.written.lookup key = some p) hl fun _ =>
      lookup_tryPersist env cfg.ccr x.2 x.1 ss.store key p hl
  constructor
  · exact hh.store_inv hss.backed fun hwants =>
      hss.backed.tryPersist env hio T hinj cfg.ccr x.2 x.1 hT (hroom hwants)
  · intro r hr p hp
    rcases mem_handled_sessionStep env cfg cmdIndex ss x r hr with hr | hr
    · obtain ⟨hrT, hl⟩ := hss.pointers r hr p hp
      exact ⟨hrT, hlk _ p hl⟩
    · rw [hr, hh.record.1, hh.record.2]
      refine ⟨hT, ?_⟩
      show (compressInPlace env cfg cmdIndex x.1 x.2 ss.store).2.written.lookup _ = some p
      rw [hr] at hp
      generalize compressInPlace env cfg cmdIndex x.1 x.2 ss.store = res at hh hp ⊢
      cases hh with
      | pointed c path hc hwants hpath =>
        cases hp
        exact lookup_of_tryPersist env cfg.ccr x.2 x.1 ss.store _ hpath
      | _ => cases hp

end

/-- **Every pointer names its original**, in every run whose steps that go to the disk all
find room for the files the request has stored before. -/
theorem pointers_resolve (env : Env) (cfg : Config) (dir : Dir) (request : ResponsesApiRequest)
    (hio : env.io.Succeeds) (hinj : InjectiveHash env.ext (toolTexts request.input))
    (hroom : Run.AllSteps (StepHasRoom env cfg (index env.ext request.input))
      (sessionStep env cfg (index env.ext request.input)) ⟨{ dir := dir }, []⟩
      (toolTexts request.input)) :
    ∀ r ∈ (transform env cfg dir request).2.handled, ∀ path, r.pointer = some path →
      readFile env (transform env cfg dir request).2.store.dir path = some (Text.bytes r.original) := by
  by_cases hon : cfg.enabled = true
  · have hinv : Resolvable env (toolTexts request.input) (transform env cfg dir request).2 := by
      rw [transform_session env cfg dir request hon]
      refine Run.AllSteps.invariant ?_ _ ?_ hroom
      · intro ss x hx hss hr
        exact hss.step env hio _ hinj cfg _ ss x hx hr
      · exact ⟨fun c h p hl => (by cases hl), fun r hr => absurd hr not_mem_nil⟩
    intro r hr path hp
    obtain ⟨hrT, hl⟩ := hinv.pointers r hr path hp
    obtain ⟨t, ht, hhash, hpath, f, hf, hname, hcontent⟩ := hinv.backed _ _ path hl
    have hts : t = r.original := hinj _ ht _ hrT hhash
    rw [readFile_of_mem env _ r.callId t path f hpath hf (by rw [hname, hhash]), hcontent, hts]
  · intro r hr
    unfold transform at hr
    rw [if_neg hon] at hr
    cases hr

def progressLog (c : Char) : Text := "Downloading ".toList ++ List.replicate 70 c ++ "\nok".toList

def progressEnv : Env where
  ext := Ext.ofTables
    [(progressLog 'a',
      #v[1, 199, 120, 234, 238, 14, 96, 152, 25, 83, 239, 113, 250, 171, 49, 233, 74, 224, 74,
      244, 136, 136, 200, 23, 59, 217, 111, 171, 75, 226, 206, 83]),
     (progressLog 'b',
      #v[246, 99, 103, 165, 196, 215, 169, 221, 93, 160, 246, 198, 157, 170, 233, 189, 39, 193,
      60, 243, 26, 108, 239, 222, 33, 237, 255, 105, 38, 23, 172, 110]),
     (progressLog 'c',
      #v[126, 205, 109, 207, 247, 125, 53, 195, 233, 130, 116, 206, 141, 88, 191, 95, 112, 200,
      133, 86, 34, 244, 44, 51, 156, 45, 145, 30, 6, 91, 52, 77])]
    [] []
  home := some "/root".toList
  io := Io.plain
  queryid := "q".toList

def oneFileCfg : Config :=
  { enabled := true, perItemMinBytes := 0, ccr := { maxFilesPerThread := 1 } }

theorem pointers_resolve_two_logs :
    let request := outputsRequest [("c1", progressLog 'a'), ("c2", progressLog 'b')]
    let r := transform progressEnv oneFileCfg Dir.empty request
    r.2.handled.map Handled.pointer =
        [some "/root/.codex/llm-compress/ccr/q/c1-01c778eaee0e.txt".toList,
          some "/root/.codex/llm-compress/ccr/q/c2-f66367a5c4d7.txt".toList] ∧
      ∀ h ∈ r.2.handled, ∀ path, h.pointer = some path →
        readFile progressEnv r.2.store.dir path = some (Text.bytes h.original) :=
  ⟨by decide +kernel,
    pointers_resolve progressEnv oneFileCfg Dir.empty _ Io.plain_succeeds (by decide +kernel)
      (by decide +kernel)⟩

theorem third_log_evicts_first :
    let request := outputsRequest
      [("c1", progressLog 'a'), ("c2", progressLog 'b'), ("c3", progressLog 'c')]
    let r := transform progressEnv oneFileCfg Dir.empty request
    progressEnv.io.Succeeds ∧ InjectiveHash progressEnv.ext (toolTexts request.input) ∧
      ∃ h ∈ r.2.handled, ∃ path, h.pointer = some path ∧
        h.output = "ok".toList ++ pointerText path ∧ readFile progressEnv r.2.store.dir path = none := by
  intro request r
  refine ⟨Io.plain_succeeds, by decide +kernel, ?_⟩
  have hrun : ⟨"c1", progressLog 'a', "ok".toList ++
        pointerText "/root/.codex/llm-compress/ccr/q/c1-01c778eaee0e.txt".toList,
        some "/root/.codex/llm-compress/ccr/q/c1-01c778eaee0e.txt".toList⟩ ∈ r.2.handled ∧
      readFile progressEnv r.2.store.dir "/root/.codex/llm-compress/ccr/q/c1-01c778eaee0e.txt".toList = none := by
    decide +kernel
  exact ⟨_, hrun.1, _, rfl, rfl, hrun.2⟩

end LlmCompress
