import Codez.Lib.Effect
import Codez.Lib.Text

/-!
The filesystem a patch is applied to (`file-system/src/lib.rs`), and its paths
(`utils/path-uri/src/lib.rs`).

`ExecutorFileSystem σ P` is the trait: operations on a state `σ`, each of which may fail, with or
without an effect.
-/

namespace ApplyPatch

open Effect

inductive ErrorKind where
  | notFound
  | invalidInput
  | other
deriving DecidableEq

structure IoError where
  kind : ErrorKind
  message : Text
deriving DecidableEq

structure FileMetadata where
  isDirectory : Bool
  isFile : Bool
  isSymlink : Bool
deriving DecidableEq

structure PathUri (P : Type) where
  join : P → Text → Except Text P
  parent : P → Option P
  inferredNativePathString : P → Text

/-- The operations apply-patch calls.  Directories are created recursively, and `remove` is
neither recursive nor forced. -/
structure ExecutorFileSystem (σ P : Type) where
  readFileText : P → EStateM IoError σ Text
  writeFile : P → Text → EStateM IoError σ Unit
  createDirectory : P → EStateM IoError σ Unit
  getMetadata : P → EStateM IoError σ FileMetadata
  remove : P → EStateM IoError σ Unit

abbrev TextState (P : Type) := P → Option Text

def Silent {ε σ P α : Type} (text : σ → TextState P) (m : EStateM ε σ α) : Prop :=
  ∀ s, After m s (fun _ s' => text s' = text s) fun _ s' => text s' = text s

theorem Silent.andThen {ε σ P α β : Type} {text : σ → TextState P} {m : EStateM ε σ α}
    {f : α → EStateM ε σ β} (hm : Silent text m) (hf : ∀ a, Silent text (f a)) :
    Silent text (m >>= f) := by
  intro s
  refine (hm s).andThen (fun a s1 h1 => ?_) fun _ _ h => h
  exact (hf a s1).mono (fun _ _ h => h.trans h1) fun _ _ h => h.trans h1

structure ExecutorFileSystem.Textual {σ P : Type} [DecidableEq P] (fs : ExecutorFileSystem σ P)
    (text : σ → TextState P) : Prop where
  readFileText : ∀ p s, After (fs.readFileText p) s
    (fun content s' => text s' = text s ∧ text s p = some content)
    fun e s' => text s' = text s ∧ (e.kind = .notFound → text s p = none)
  writeFile : ∀ p content s, After (fs.writeFile p content) s
    (fun _ s' => text s' = Function.update (text s) p (some content))
    fun _ s' => ∃ left, text s' = Function.update (text s) p left
  createDirectory : ∀ p, Silent text (fs.createDirectory p)
  getMetadata : ∀ p, Silent text (fs.getMetadata p)
  remove : ∀ p s, After (fs.remove p) s
    (fun _ s' => text s' = Function.update (text s) p none)
    fun _ s' => text s' = text s ∨ text s' = Function.update (text s) p none

def notFoundError : IoError := ⟨.notFound, "No such file or directory (os error 2)".toList⟩

def textFs (P : Type) [DecidableEq P] : ExecutorFileSystem (TextState P) P where
  readFileText p s :=
    match s p with
    | some content => .ok content s
    | none => .error notFoundError s
  writeFile p content s := .ok () (Function.update s p (some content))
  createDirectory _ s := .ok () s
  getMetadata p s :=
    match s p with
    | some _ => .ok { isDirectory := false, isFile := true, isSymlink := false } s
    | none => .error notFoundError s
  remove p s :=
    match s p with
    | some _ => .ok () (Function.update s p none)
    | none => .error notFoundError s

theorem textFs_textual (P : Type) [DecidableEq P] : (textFs P).Textual id where
  readFileText p s := by
    cases h : s p <;> simp [After, textFs, h]
  writeFile p content s := by simp [After, textFs]
  createDirectory p s := by simp [After, textFs]
  getMetadata p s := by
    cases h : s p <;> simp [After, textFs, h]
  remove p s := by
    cases h : s p <;> simp [After, textFs, h]

end ApplyPatch
