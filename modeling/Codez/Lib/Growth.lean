import Mathlib

/-!
Lists that only grow at their end.

`Grows R l l'`: the elements of `l` stay where they are, all but the last one as they are;
the last one may grow as `R` says, and new elements come behind it.
-/

namespace Growth

open List

variable {α : Type} {R : α → α → Prop}

def Grows (R : α → α → Prop) (l l' : List α) : Prop :=
  l = [] ∨ ∃ init a a' rest, l = init ++ [a] ∧ l' = init ++ a' :: rest ∧ R a a'

theorem Grows.nil (l : List α) : Grows R [] l := .inl rfl

theorem Grows.append (hrefl : ∀ a, R a a) (l more : List α) : Grows R l (l ++ more) := by
  rcases eq_nil_or_concat l with rfl | ⟨init, a, rfl⟩
  · exact .nil _
  · exact .inr ⟨init, a, a, more, by simp, by simp, hrefl a⟩

theorem Grows.refl (hrefl : ∀ a, R a a) (l : List α) : Grows R l l := by
  have h := Grows.append hrefl l []
  rwa [append_nil] at h

theorem Grows.last {a a' : α} (init : List α) (h : R a a') : Grows R (init ++ [a]) (init ++ [a']) :=
  Or.inr ⟨init, a, a', [], rfl, rfl, h⟩

theorem Grows.trans (htrans : ∀ a b c, R a b → R b c → R a c) {l l' l'' : List α} (h : Grows R l l')
    (h' : Grows R l' l'') : Grows R l l'' := by
  rcases h with rfl | ⟨init, a, a', rest, rfl, rfl, ha⟩
  · exact .nil _
  · rcases h' with h' | ⟨init', b, b', rest', heq, rfl, hb⟩
    · simp at h'
    · refine Or.inr ⟨init, a, ?_⟩
      -- the last element of `l'` is the one that grew, or one behind it
      rcases eq_nil_or_concat rest with rfl | ⟨rest, c, rfl⟩
      · obtain ⟨rfl, hl⟩ := append_inj' heq rfl
        obtain rfl : a' = b := by simpa using hl
        exact ⟨b', rest', rfl, rfl, htrans a a' b' ha hb⟩
      · have heq' : (init ++ a' :: rest) ++ [c] = init' ++ [b] := by simpa using heq
        obtain ⟨rfl, -⟩ := append_inj' heq' rfl
        exact ⟨a', rest ++ b' :: rest', rfl, by simp, ha⟩

theorem next_unique {l k : List α} {a b : α} (ha : l ++ [a] <+: k) (hb : l ++ [b] <+: k) : a = b := by
  have heq : l ++ [a] = l ++ [b] := (prefix_of_prefix_length_le ha hb (by simp)).eq_of_length (by simp)
  simpa using heq

end Growth
