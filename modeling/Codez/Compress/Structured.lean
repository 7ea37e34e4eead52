import Codez.Compress.Router

/-!
The two compressors with structured products: JSON containers (`compress/json.rs`) and
tables (`compress/tabular.rs`), both rewritten as TOON (`compress/toon.rs`).

A product is claimed only when it decodes back to the encoded value
(`encodeChecked_eq_some`), is smaller than the text and fits the byte limit; it is never
lossy.
-/

namespace LlmCompress

def encodeChecked (ext : Ext) (value : Value) : Option Text :=
  match ext.encodeDefault value with
  | none => none
  | some toon =>
    match ext.decodeDefault toon with
    | none => none
    | some back => if back = value then some toon else none

theorem encodeChecked_eq_some (ext : Ext) (value : Value) (toon : Text)
    (h : encodeChecked ext value = some toon) : ext.decodeDefault toon = some value := by
  unfold encodeChecked at h
  split at h
  · cases h
  · next t _ =>
    split at h
    · cases h
    · next back hback =>
      split at h
      · next heq =>
        cases h
        rw [hback, heq]
      · cases h

/-- The end of both claim pipelines: encode, compare the size with the text's and with
the byte limit. -/
def claimToon (ext : Ext) (text : Text) (budget : Budget) (value : Value) : Option Text :=
  match encodeChecked ext value with
  | none => none
  | some toon =>
    if Text.byteLen toon < Text.byteLen text ∧ Text.byteLen toon ≤ budget.cfg.truncate.maxBytes then
      some toon
    else none

theorem claimToon_eq_some (ext : Ext) (text : Text) (budget : Budget) (value : Value) (toon : Text)
    (h : claimToon ext text budget value = some toon) : ext.decodeDefault toon = some value := by
  unfold claimToon at h
  split at h
  · cases h
  · next t ht =>
    split at h
    · cases h
      exact encodeChecked_eq_some ext value _ ht
    · cases h

def toonOutcome (text : Text) : Option Text → CompressOutcome
  | none => .unchanged
  | some toon =>
    let saved := Text.byteLen text - Text.byteLen toon
    if saved = 0 then .unchanged else .compressed toon saved false .toon

def toonCompressor (name : String) (tryToon : Text → Budget → Option Text) : Compressor where
  name := name
  detect text budget := (tryToon text budget).isSome
  compress text budget := toonOutcome text (tryToon text budget)

theorem toonCompressor_compress (name : String) (tryToon : Text → Budget → Option Text)
    (text : Text) (budget : Budget) (new : Text) (saved : Nat) (lossy : Bool) (kind : ContentKind)
    (h : (toonCompressor name tryToon).compress text budget = .compressed new saved lossy kind) :
    tryToon text budget = some new ∧ lossy = false ∧ kind = .toon := by
  have h' : toonOutcome text (tryToon text budget) = .compressed new saved lossy kind := h
  cases ht : tryToon text budget with
  | none =>
    rw [ht] at h'
    cases h'
  | some toon =>
    rw [ht] at h'
    unfold toonOutcome at h'
    dsimp only at h'
    split at h'
    · cases h'
    · cases h'
      exact ⟨rfl, rfl, rfl⟩

namespace Json

def tryToon (ext : Ext) (text : Text) (budget : Budget) : Option Text :=
  if budget.cfg.json.useToon then
    match ext.parse text with
    | some value => if value.isContainer then claimToon ext text budget value else none
    | none => none
  else none

theorem tryToon_eq_some (ext : Ext) (text : Text) (budget : Budget) (toon : Text)
    (h : tryToon ext text budget = some toon) : ext.decodeDefault toon = ext.parse text := by
  unfold tryToon at h
  split at h
  · split at h
    · next value hv =>
      split at h
      · rw [hv]
        exact claimToon_eq_some ext text budget value toon h
      · cases h
    · cases h
  · cases h

end Json

def jsonCompressor (ext : Ext) : Compressor := toonCompressor "json" (Json.tryToon ext)

namespace Tabular

/-- A table as `parse_table` accepts it: named columns and at least one row, all of the
header's width. -/
structure Table where
  header : List Text
  rows : List (List Text)
  header_ne : header ≠ []
  named : ∀ name ∈ header, name ≠ []
  distinct : header.Nodup
  rows_ne : rows ≠ []
  width : ∀ row ∈ rows, row.length = header.length

def splitCells (isMd : Bool) (line : Text) : List Text :=
  if isMd then
    let t := ((Text.trim line).dropWhile (· == '|')).rdropWhile (· == '|')
    (t.splitOn '|').map Text.trim
  else if line.any (· == '\t') then (line.splitOn '\t').map Text.trim
  else (line.splitOn ',').map Text.trim

def isSeparator (line : Text) : Bool :=
  line.all fun c => c == '|' || c == '-' || c == ':' || c == ' '

def parseTable (text : Text) : Option Table :=
  match (Text.lines text).filter fun l => !(Text.trim l).isEmpty with
  | [] => none
  | [_] => none
  | first :: rawLines =>
    let isMd := (Text.trimStart first).head? == some '|'
    if text.any (· == '"') then none
    else
      match ((first :: rawLines).filter fun l => !(isMd && isSeparator l)).map (splitCells isMd) with
      | [] => none
      | header :: rows =>
        if h : header ≠ [] ∧ (∀ name ∈ header, name ≠ []) ∧ header.Nodup ∧ rows ≠ [] ∧
            ∀ row ∈ rows, row.length = header.length then
          some ⟨header, rows, h.1, h.2.1, h.2.2.1, h.2.2.2.1, h.2.2.2.2⟩
        else none

def Table.value (t : Table) : Value :=
  .array (t.rows.map fun row =>
    Value.mkObj ((t.header.zip row).map fun c => (String.ofList c.1, .string (String.ofList c.2))))

def tryToon (ext : Ext) (text : Text) (budget : Budget) : Option Text :=
  if budget.cfg.json.useToon then
    match parseTable text with
    | some table => claimToon ext text budget table.value
    | none => none
  else none

example : (parseTable "a,b\n1, 2".toList).map Table.rows = some [["1".toList, "2".toList]] := by
  decide

end Tabular

def tabularCompressor (ext : Ext) : Compressor := toonCompressor "tabular" (Tabular.tryToon ext)

end LlmCompress
