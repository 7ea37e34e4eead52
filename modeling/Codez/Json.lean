import Codez.Lib.OrdMap

/-!
JSON values (`serde_json::Value`) with the accessors the connectors and compressors use.

Objects list their fields by increasing key, so that equality of values is equality of the lists.
-/

/-- `serde_json::Number`.  A float is never NaN or infinite; it is given by the number it
denotes, so that equality is the comparison of `f64`s. -/
inductive Number where
  | posInt (n : UInt64)
  | negInt (n : Int64)
  | float (x : Rat)
deriving DecidableEq

inductive Value where
  | null
  | bool (b : Bool)
  | number (n : Number)
  | string (s : String)
  | array (xs : List Value)
  | object (m : List (String × Value))

namespace Value

instance : Inhabited Value := ⟨.null⟩

mutual

def beq : Value → Value → Bool
  | .null, .null => true
  | .bool a, .bool b => a == b
  | .number a, .number b => decide (a = b)
  | .string a, .string b => decide (a = b)
  | .array a, .array b => beqList a b
  | .object a, .object b => beqFields a b
  | _, _ => false

def beqList : List Value → List Value → Bool
  | [], [] => true
  | a :: as, b :: bs => beq a b && beqList as bs
  | _, _ => false

def beqFields : List (String × Value) → List (String × Value) → Bool
  | [], [] => true
  | (k, a) :: as, (l, b) :: bs => decide (k = l) && beq a b && beqFields as bs
  | _, _ => false

end

mutual

theorem beq_iff (a b : Value) : beq a b = true ↔ a = b := by
  cases a <;> cases b <;> simp [beq]
  · exact beqList_iff _ _
  · exact beqFields_iff _ _

theorem beqList_iff (a b : List Value) : beqList a b = true ↔ a = b := by
  cases a with
  | nil => cases b <;> simp [beqList]
  | cons x a =>
    cases b with
    | nil => simp [beqList]
    | cons y b => simp [beqList, beq_iff x y, beqList_iff a b]

theorem beqFields_iff (a b : List (String × Value)) : beqFields a b = true ↔ a = b := by
  cases a with
  | nil => cases b <;> simp [beqFields]
  | cons x a =>
    cases b with
    | nil => simp [beqFields]
    | cons y b =>
      obtain ⟨k, v⟩ := x
      obtain ⟨l, w⟩ := y
      simp [beqFields, beq_iff v w, beqFields_iff a b]

end

instance : DecidableEq Value := fun a b => decidable_of_iff _ (beq_iff a b)

def get (v : Value) (k : String) : Option Value :=
  match v with
  | .object m => m.lookup k
  | _ => none

def asStr : Value → Option String
  | .string s => some s
  | _ => none

def asArray : Value → Option (List Value)
  | .array xs => some xs
  | _ => none

def asI64 : Value → Option Int
  | .number (.posInt n) => if n.toNat < 2 ^ 63 then some n.toNat else none
  | .number (.negInt n) => some n.toInt
  | _ => none

def asU64 : Value → Option Nat
  | .number (.posInt n) => some n.toNat
  | _ => none

def isContainer : Value → Bool
  | .object _ => true
  | .array _ => true
  | _ => false

/-- An object from its fields in the order they are written; a later field replaces an earlier one. -/
def mkObj (fs : List (String × Value)) : Value :=
  .object (fs.foldl (fun m f => OrdMap.insertL f.1 f.2 m) [])

/-- `v[k] = x`: inserts into an object, turns `null` into one.  (On any other value the
index assignment panics; no caller has one.) -/
def set (v : Value) (k : String) (x : Value) : Value :=
  match v with
  | .object m => .object (OrdMap.insertL k x m)
  | .null => .object [(k, x)]
  | v => v

def ofNat (n : Nat) : Value := .number (.posInt (UInt64.ofNat n))

def strField (v : Value) (k : String) : Option String := (v.get k).bind asStr

def i64Field (v : Value) (k : String) : Option Int := (v.get k).bind asI64

open OrdMap

theorem lookup_foldl_insertL (fs m : List (String × Value)) (hm : OrdMap.Increasing m) (k : String) :
    (fs.foldl (fun m f => insertL f.1 f.2 m) m).lookup k = (fs.reverse.lookup k).or (m.lookup k) := by
  induction fs generalizing m with
  | nil => rfl
  | cons f fs ih =>
    have hm' : OrdMap.Increasing (insertL f.1 f.2 m) := increasing_alterL f.1 _ m hm
    rw [List.foldl_cons, ih _ hm', List.reverse_cons, List.lookup_append, Option.or_assoc]
    congr 1
    by_cases hk : k = f.1
    · subst hk
      simp [insertL, lookup_alterL_self f.1 _ m hm, List.lookup]
    · have hb : (k == f.1) = false := beq_false_of_ne hk
      rw [insertL, lookup_alterL_ne f.1 k _ m hk]
      simp [List.lookup, hb]

theorem get_mkObj (fs : List (String × Value)) (k : String) : (mkObj fs).get k = fs.reverse.lookup k := by
  have h := lookup_foldl_insertL fs [] List.Pairwise.nil k
  rw [List.lookup_nil, Option.or_none] at h
  exact h

theorem get_set_ne {v x : Value} {k k' : String} (h : k' ≠ k) : (v.set k x).get k' = v.get k' := by
  have hb : (k' == k) = false := beq_false_of_ne h
  cases v with
  | object m => exact lookup_alterL_ne k k' _ m h
  | null => simp [set, get, List.lookup, hb]
  | _ => rfl

end Value

/-- `serde_json::from_str` (the error is given by its text) and `Value`'s `Display`. -/
structure Serde where
  fromStr : String → Except String Value
  display : Value → String

def Serde.accepts (serde : Serde) (s : String) : Bool := (serde.fromStr s).isOk

example : (Value.mkObj [("b", .null), ("a", .bool true)]).get "a" = some (.bool true) := by decide
