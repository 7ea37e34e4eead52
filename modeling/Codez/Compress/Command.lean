import Codez.Compress.Config
import Codez.Lib.Run
import Codez.Protocol

/-!
Which command produced a tool output (`command.rs`): an index from call ids to the
program and arguments read off the `FunctionCall` items of the request.

A later call with the same id replaces an earlier hint; a call whose command line cannot be read
leaves the index as it is.
-/

namespace LlmCompress

open Codex

structure CommandHint where
  program : Text
  argv : List Text := []
deriving DecidableEq

namespace CommandHint

def baseName (c : CommandHint) : Text := (c.program.splitOn '/').getLast?.getD []

def isGitDiff (c : CommandHint) : Bool :=
  "git".toList.isSuffixOf c.program &&
    (c.argv.head? == some "diff".toList || c.argv.head? == some "show".toList)

def isGrep (c : CommandHint) : Bool :=
  ["grep".toList, "rg".toList, "ripgrep".toList].contains c.baseName

def isTestRunner (c : CommandHint) : Bool :=
  ["pytest".toList, "jest".toList, "vitest".toList, "cargo".toList, "go".toList,
    "rspec".toList].contains c.baseName

end CommandHint

/-- The loop of `shell_split`: `cur` is the token being read, `quote` the quote it is in,
`hasToken` whether a token has begun. -/
def shellSplitGo (cur : Text) (quote : Option Char) (hasToken : Bool) : Text → List Text
  | [] => if hasToken then [cur] else []
  | ch :: rest =>
    match quote with
    | some q =>
      if ch = q then shellSplitGo cur none hasToken rest
      else shellSplitGo (cur ++ [ch]) (some q) hasToken rest
    | none =>
      if ch = '\'' ∨ ch = '"' then shellSplitGo cur (some ch) true rest
      else if Text.isWhitespace ch then
        if hasToken then cur :: shellSplitGo [] none false rest
        else shellSplitGo cur none false rest
      else shellSplitGo (cur ++ [ch]) none true rest

def shellSplit (line : Text) : List Text := shellSplitGo [] none false line

example : shellSplit "git log  --format='%h %s' \"\"".toList =
    ["git".toList, "log".toList, "--format=%h %s".toList, []] := by decide

def shellHint (ext : Ext) (field arguments : String) : Option CommandHint :=
  match ext.parse arguments.toList with
  | none => none
  | some v =>
    match v.strField field with
    | none => none
    | some line =>
      match shellSplit line.toList with
      | [] => none
      | program :: argv => some ⟨program, argv⟩

def parseHint (ext : Ext) (name arguments : String) : Option CommandHint :=
  if name = "shell_command" then shellHint ext "command" arguments
  else if name = "exec_command" then shellHint ext "cmd" arguments
  else if name = "" then none
  else some ⟨name.toList, []⟩

def indexStep (ext : Ext) (map : List (String × CommandHint)) (item : ResponseItem) :
    List (String × CommandHint) :=
  match item with
  | .functionCall c =>
    match parseHint ext c.name c.arguments with
    | some hint => (c.callId, hint) :: map
    | none => map
  | _ => map

def index (ext : Ext) (input : List ResponseItem) : List (String × CommandHint) :=
  input.foldl (indexStep ext) []

theorem lookup_indexStep (ext : Ext) (map : List (String × CommandHint)) (item : ResponseItem)
    (callId : String) (h : ∀ c, item = .functionCall c → c.callId ≠ callId) :
    (indexStep ext map item).lookup callId = map.lookup callId := by
  unfold indexStep
  split
  · next c =>
    split
    · next hint _ =>
      have hne : (callId == c.callId) = false := by
        rw [beq_eq_false_iff_ne]
        exact fun he => h c rfl he.symm
      rw [List.lookup_cons, hne]
    · rfl
  · rfl

theorem lookup_index_append (ext : Ext) (xs ys : List ResponseItem) (callId : String)
    (h : ∀ c, ResponseItem.functionCall c ∈ ys → c.callId ≠ callId) :
    (index ext (xs ++ ys)).lookup callId = (index ext xs).lookup callId := by
  unfold index
  rw [List.foldl_append]
  refine @Run.foldl_invariant _ _ (indexStep ext) (fun m => m.lookup callId = _) ys _ rfl ?_
  intro m item hit hm
  rw [lookup_indexStep ext m item callId, hm]
  intro c hc
  exact h c (hc ▸ hit)

end LlmCompress
