import Codez.Compress.Command
import Codez.Lib.Evict

/-!
The store behind the retrieval pointers (`ccr.rs`): the original of a lossy product is
written to a file of the thread's directory, and the product carries the file's path.
-/

namespace LlmCompress

open List

structure File where
  name : Text
  mtime : Nat
  content : List UInt8
deriving DecidableEq

def File.size (f : File) : Nat := f.content.length

structure Dir where
  files : List File
  distinct : (files.map File.name).Nodup

namespace Dir

def empty : Dir := ⟨[], nodup_nil⟩

def keep (d : Dir) (p : File → Bool) : Dir where
  files := d.files.filter p
  distinct := d.distinct.sublist (filter_sublist.map File.name)

def put (d : Dir) (f : File) : Dir where
  files := f :: (d.keep fun g => g.name != f.name).files
  distinct := by
    rw [map_cons, nodup_cons]
    refine ⟨?_, (d.keep fun g => g.name != f.name).distinct⟩
    intro h
    obtain ⟨g, hg, hn⟩ := mem_map.mp h
    have := (mem_filter.mp hg).2
    simp [hn] at this

theorem mem_put (d : Dir) (f g : File) :
    g ∈ (d.put f).files ↔ g = f ∨ g ∈ d.files ∧ g.name ≠ f.name := by
  simp [put, keep]

theorem eq_of_name (d : Dir) (f g : File) (hf : f ∈ d.files) (hg : g ∈ d.files)
    (h : f.name = g.name) : f = g :=
  inj_on_of_nodup_map d.distinct hf hg h

end Dir

/-! ## The operating system -/

/-- A write is done, or fails and leaves the directory as it was or the file with other
content. -/
inductive WriteResult where
  | ok
  | failed (left : Option (List UInt8))

structure Io where
  createDirAll : Nat → Bool
  readDir : Nat → Bool
  /-- the order in which the entries are listed -/
  listing : Nat → List File → List File
  listing_perm : ∀ k files, (listing k files).Perm files
  metadata : Nat → Text → Bool
  removeFile : Nat → Text → Bool
  write : Nat → WriteResult
  /-- the modification time a file written by attempt `k` gets -/
  now : Nat → Nat

structure Io.Writable (io : Io) : Prop where
  createDirAll : ∀ k, io.createDirAll k = true
  write : ∀ k, io.write k = .ok

structure Io.Succeeds (io : Io) : Prop extends io.Writable where
  readDir : ∀ k, io.readDir k = true
  metadata : ∀ k name, io.metadata k name = true
  removeFile : ∀ k name, io.removeFile k name = true

/-- Every call succeeds, the entries are listed as they stand, and the clock counts the
attempts. -/
def Io.plain : Io where
  createDirAll _ := true
  readDir _ := true
  listing _ files := files
  listing_perm _ files := List.Perm.refl files
  metadata _ _ := true
  removeFile _ _ := true
  write _ := .ok
  now k := k

theorem Io.plain_succeeds : Io.plain.Succeeds where
  createDirAll _ := rfl
  write _ := rfl
  readDir _ := rfl
  metadata _ _ := rfl
  removeFile _ _ := rfl

/-! ## Names and paths -/

def hexByte (b : UInt8) : Text := [Nat.digitChar (b.toNat / 16), Nat.digitChar (b.toNat % 16)]

def hexDigest (ext : Ext) (s : Text) (n : Nat) : Text :=
  ((ext.sha256 (Text.bytes s)).toList.take n).flatMap hexByte

def shortHash (ext : Ext) (s : Text) : Text := hexDigest ext s 6

theorem length_shortHash (ext : Ext) (s : Text) : (shortHash ext s).length = 12 := by
  have h : ∀ bs : List UInt8, (bs.flatMap hexByte).length = 2 * bs.length := by
    intro bs
    induction bs with
    | nil => rfl
    | cons b bs ih =>
      rw [flatMap_cons, length_append, ih, length_cons]
      show 2 + 2 * bs.length = 2 * (bs.length + 1)
      omega
  unfold shortHash hexDigest
  rw [h, length_take]
  simp

def sanitizeComponent (ext : Ext) (s : Text) (maxLen : Nat) : Text :=
  let cleaned := s.map fun c =>
    if Text.isAsciiAlphanumeric c || c == '_' || c == '-' then c else '_'
  if maxLen < Text.byteLen cleaned ∨ cleaned = [] then hexDigest ext s 8 else cleaned

def join (path component : Text) : Text :=
  if path = [] ∨ path.getLast? = some '/' then path ++ component else path ++ '/' :: component

theorem join_right_inj (path a b : Text) (h : join path a = join path b) : a = b := by
  unfold join at h
  split at h
  · exact append_cancel_left h
  · exact (List.cons.inj (append_cancel_left h)).2

def ccrRoot (home : Option Text) : Option Text :=
  home.map fun h => join (join (join h ".codex".toList) "llm-compress".toList) "ccr".toList

def threadDir (ext : Ext) (home : Option Text) (queryid : Text) : Option Text :=
  (ccrRoot home).map fun root => join root (sanitizeComponent ext queryid 64)

def fileName (ext : Ext) (callId : String) (fragHash : Text) : Text :=
  sanitizeComponent ext callId.toList 32 ++ ['-'] ++ fragHash ++ ".txt".toList

theorem shortHash_eq_of_fileName (ext : Ext) (c c' : String) (s t : Text)
    (h : fileName ext c (shortHash ext s) = fileName ext c' (shortHash ext t)) :
    shortHash ext s = shortHash ext t := by
  have h1 := append_inj_left' h rfl
  exact (append_inj' h1 (by rw [length_shortHash, length_shortHash])).2

def entries (io : Io) (k : Nat) (dir : Dir) : List File :=
  ((io.listing k dir.files).filter fun f => io.metadata k f.name).insertionSort
    fun a b => a.mtime ≤ b.mtime

def enforceLimits (io : Io) (k : Nat) (cfg : CcrCfg) (dir : Dir) : Dir :=
  if io.readDir k then
    let es := entries io k dir
    let gone := Evict.victims File.size cfg.maxFilesPerThread cfg.maxThreadBytes
      (fun f => io.removeFile k f.name) es.length (Evict.total File.size es) es
    dir.keep fun f => !(gone.map File.name).contains f.name
  else dir

/-! ## Persisting and attaching -/

/-- The registry of a request, the thread's directory, the number of attempts so far and
the history of writes. -/
structure Store where
  written : List ((String × Text) × Text) := []
  dir : Dir
  attempts : Nat := 0
  writes : List (Text × Text) := []

/-- What every call of a request shares: the other crates' code, the value of `HOME`, the
operating system and the query id. -/
structure Env where
  ext : Ext
  home : Option Text
  io : Io
  queryid : Text

def pathOf (env : Env) (callId : String) (s : Text) : Option Text :=
  (threadDir env.ext env.home env.queryid).map fun dir =>
    join dir (fileName env.ext callId (shortHash env.ext s))

def writeOriginal (env : Env) (cfg : CcrCfg) (original : Text) (callId : String) (path : Text)
    (st : Store) : Option Text × Store :=
  let k := st.attempts
  let fragHash := shortHash env.ext original
  let fname := fileName env.ext callId fragHash
  if env.io.createDirAll k then
    let dir := enforceLimits env.io k cfg st.dir
    match env.io.write k with
    | .ok =>
      (some path,
        { written := ((callId, fragHash), path) :: st.written
          dir := dir.put ⟨fname, env.io.now k, Text.bytes original⟩
          attempts := k + 1
          writes := st.writes ++ [(path, original)] })
    | .failed none => (none, { st with dir := dir, attempts := k + 1 })
    | .failed (some left) =>
      (none, { st with dir := dir.put ⟨fname, env.io.now k, left⟩, attempts := k + 1 })
  else (none, { st with attempts := k + 1 })

def tryPersist (env : Env) (cfg : CcrCfg) (original : Text) (callId : String) (st : Store) :
    Option Text × Store :=
  match st.written.lookup (callId, shortHash env.ext original) with
  | some p => (some p, st)
  | none =>
    match pathOf env callId original with
    | none => (none, st)
    | some path => writeOriginal env cfg original callId path st

def pointerText (path : Text) : Text := " [llm-compress: original ".toList ++ path ++ [']']

structure Attached where
  text : Text
  pointer : Option Text := none

def attach (env : Env) (cfg : CcrCfg) (compressed original : Text) (callId : String) (st : Store) :
    Attached × Store :=
  if cfg.enabled then
    if cfg.maxFileBytes < Text.byteLen original then (⟨original, none⟩, st)
    else
      match tryPersist env cfg original callId st with
      | (some path, st) =>
        let attached := compressed ++ pointerText path
        if Text.byteLen attached ≤ Text.byteLen original then (⟨attached, some path⟩, st)
        else (⟨original, none⟩, st)
      | (none, st) => (⟨original, none⟩, st)
  else (⟨compressed, none⟩, st)

/-! ## What persisting can do -/

inductive Persists (env : Env) (cfg : CcrCfg) (original : Text) (callId : String) (st : Store) :
    Option Text × Store → Prop where
  /-- the registry knows the fragment -/
  | known (p : Text) (hk : st.written.lookup (callId, shortHash env.ext original) = some p) :
      Persists env cfg original callId st (some p, st)
  /-- `HOME` is not set -/
  | homeless (hk : st.written.lookup (callId, shortHash env.ext original) = none)
      (hpath : pathOf env callId original = none) :
      Persists env cfg original callId st (none, st)
  /-- a call failed; the registry is as before -/
  | failed (st' : Store) (hk : st.written.lookup (callId, shortHash env.ext original) = none)
      (hwritten : st'.written = st.written) (hwrites : st'.writes = st.writes)
      (why : ¬env.io.Writable) :
      Persists env cfg original callId st (none, st')
  /-- limits are enforced, then the file is written and registered -/
  | stored (path : Text) (hk : st.written.lookup (callId, shortHash env.ext original) = none)
      (hpath : pathOf env callId original = some path) :
      Persists env cfg original callId st
        (some path,
          { written := ((callId, shortHash env.ext original), path) :: st.written
            dir := (enforceLimits env.io st.attempts cfg st.dir).put
              ⟨fileName env.ext callId (shortHash env.ext original), env.io.now st.attempts,
                Text.bytes original⟩
            attempts := st.attempts + 1
            writes := st.writes ++ [(path, original)] })

variable (env : Env) (cfg : CcrCfg) (original : Text) (callId : String) (st : Store) {T : String × Text → Prop}

theorem tryPersist_persists : Persists env cfg original callId st (tryPersist env cfg original callId st) := by
  unfold tryPersist
  split
  · next p hk => exact .known p hk
  · next hk =>
    split
    · next hp => exact .homeless hk hp
    · next path hp =>
      unfold writeOriginal
      dsimp only
      split
      · split
        · exact .stored path hk hp
        · next hw => exact .failed _ hk rfl rfl fun h => by simp [h.write] at hw
        · next hw => exact .failed _ hk rfl rfl fun h => by simp [h.write] at hw
      · next hm => exact .failed _ hk rfl rfl fun h => hm (h.createDirAll _)

inductive Attaches (env : Env) (cfg : CcrCfg) (compressed original : Text) (callId : String)
    (st : Store) : Attached × Store → Prop where
  | original (st' : Store)
      (hst : st' = st ∨
        Text.byteLen original ≤ cfg.maxFileBytes ∧ st' = (tryPersist env cfg original callId st).2) :
      Attaches env cfg compressed original callId st (⟨original, none⟩, st')
  | pointer (path : Text) (hsize : Text.byteLen original ≤ cfg.maxFileBytes)
      (hp : (tryPersist env cfg original callId st).1 = some path)
      (hlen : Text.byteLen (compressed ++ pointerText path) ≤ Text.byteLen original) :
      Attaches env cfg compressed original callId st
        (⟨compressed ++ pointerText path, some path⟩, (tryPersist env cfg original callId st).2)

theorem attach_attaches (compressed original : Text) (callId : String) (st : Store) (h : cfg.enabled = true) :
    Attaches env cfg compressed original callId st
      (attach env cfg compressed original callId st) := by
  unfold attach
  rw [if_pos h]
  split
  · exact .original st (.inl rfl)
  · next hmax =>
    have hsz := Nat.le_of_not_lt hmax
    split
    · next path st' hr =>
      have hst : st' = (tryPersist env cfg original callId st).2 := by rw [hr]
      dsimp only
      split
      · next hlen =>
        rw [hst]
        exact .pointer path hsz (by rw [hr]) hlen
      · exact .original st' (.inr ⟨hsz, hst⟩)
    · next st' hr => exact .original st' (.inr ⟨hsz, by rw [hr]⟩)

/-! ## The registry -/

/-- Every entry of the registry was made for a text that `T` holds of, stands for its path,
and the text was written there. -/
structure Traced (env : Env) (T : String × Text → Prop) (st : Store) : Prop where
  entry : ∀ c h p, st.written.lookup (c, h) = some p →
    ∃ t, T (c, t) ∧ shortHash env.ext t = h ∧ pathOf env c t = some p ∧ (p, t) ∈ st.writes

theorem traced_init (T : String × Text → Prop) (dir : Dir) : Traced env T { dir := dir } := by
  constructor
  intro c h p hk
  cases hk

theorem writes_subset_tryPersist : st.writes ⊆ (tryPersist env cfg original callId st).2.writes := by
  have hp := tryPersist_persists env cfg original callId st
  generalize tryPersist env cfg original callId st = r at hp ⊢
  cases hp with
  | known p hk | homeless hk hpath => exact List.Subset.refl _
  | failed st' hk hwr hwrites why =>
    rw [hwrites]
    exact List.Subset.refl _
  | stored path hk hpath => exact subset_append_left _ _

theorem lookup_tryPersist (key : String × Text) (p : Text) (h : st.written.lookup key = some p) :
    (tryPersist env cfg original callId st).2.written.lookup key = some p := by
  have hp := tryPersist_persists env cfg original callId st
  generalize tryPersist env cfg original callId st = r at hp ⊢
  cases hp with
  | known q hk => exact h
  | homeless hk hpath => exact h
  | failed st' hk hwr hwrites why =>
    rw [hwr]
    exact h
  | stored path hk hpath =>
    have hne : (key == (callId, shortHash env.ext original)) = false := by
      rw [beq_eq_false_iff_ne]
      rintro rfl
      rw [hk] at h
      cases h
    rw [lookup_cons, hne]
    exact h

theorem lookup_of_tryPersist (path : Text) (h : (tryPersist env cfg original callId st).1 = some path) :
    (tryPersist env cfg original callId st).2.written.lookup (callId, shortHash env.ext original) =
      some path := by
  have hp := tryPersist_persists env cfg original callId st
  generalize tryPersist env cfg original callId st = r at hp h ⊢
  cases hp with
  | known q hk =>
    cases h
    exact hk
  | homeless hk hpath => cases h
  | failed st' hk hwr hwrites why => cases h
  | stored p hk hpath =>
    cases h
    rw [lookup_cons, beq_self_eq_true]

theorem mem_writes_of_tryPersist (path : Text)
    (hreg : ∀ p, st.written.lookup (callId, shortHash env.ext original) = some p →
      (p, original) ∈ st.writes) (h : (tryPersist env cfg original callId st).1 = some path) :
    (path, original) ∈ (tryPersist env cfg original callId st).2.writes := by
  have hp := tryPersist_persists env cfg original callId st
  generalize tryPersist env cfg original callId st = r at hp h ⊢
  cases hp with
  | known q hk =>
    cases h
    exact hreg _ hk
  | homeless hk hpath => cases h
  | failed st' hk hwr hwrites why => cases h
  | stored p hk hpath =>
    cases h
    exact mem_append_right _ mem_cons_self

theorem Traced.tryPersist {env : Env} {st : Store}
    (ht : Traced env T st) (cfg : CcrCfg) (original : Text) (callId : String)
    (hT : T (callId, original)) :
    Traced env T (LlmCompress.tryPersist env cfg original callId st).2 := by
  have hp := tryPersist_persists env cfg original callId st
  generalize LlmCompress.tryPersist env cfg original callId st = r at hp ⊢
  cases hp with
  | known p hk => exact ht
  | homeless hk hpath => exact ht
  | failed st' hk hwr hwrites why =>
    constructor
    rw [hwr, hwrites]
    exact ht.entry
  | stored path hk hpath =>
    constructor
    intro c h p hl
    dsimp only at hl ⊢
    rw [lookup_cons] at hl
    split at hl
    · next heq =>
      cases eq_of_beq heq
      cases hl
      exact ⟨original, hT, rfl, hpath, mem_append_right _ mem_cons_self⟩
    · obtain ⟨t, h1, h2, h3, h4⟩ := ht.entry c h p hl
      exact ⟨t, h1, h2, h3, mem_append_left _ h4⟩

theorem Traced.mem_writes {env : Env} {st : Store} (ht : Traced env T st) (callId : String) (s : Text)
    (hhash : ∀ t, T (callId, t) → shortHash env.ext t = shortHash env.ext s → t = s) (p : Text)
    (hk : st.written.lookup (callId, shortHash env.ext s) = some p) : (p, s) ∈ st.writes := by
  obtain ⟨t, htT, heq, -, hmem⟩ := ht.entry _ _ _ hk
  rw [← hhash t htT heq]
  exact hmem

end LlmCompress
