import Mathlib

/-!
Parsers that are fed a text in pieces.
-/

namespace Streaming

variable {α σ O V : Type} [Append O] [Append V]

def run (push : σ → List α → O × σ) (finish : σ → O) : σ → List (List α) → O
  | s, [] => finish s
  | s, piece :: pieces => (push s piece).1 ++ run push finish (push s piece).2 pieces

/-- In the states of `Inv`, `meaning s text` is what the parser gives when `text` is still to come. -/
structure Streams (view : O → V) (push : σ → List α → O × σ) (finish : σ → O) (Inv : σ → Prop)
    (meaning : σ → List α → V) : Prop where
  inv : ∀ s piece, Inv s → Inv (push s piece).2
  push : ∀ s piece text, Inv s → meaning s (piece ++ text) = view (push s piece).1 ++ meaning (push s piece).2 text
  finish : ∀ s, Inv s → view (finish s) = meaning s []

theorem Streams.run_eq {view : O → V} {push : σ → List α → O × σ} {finish : σ → O} {Inv : σ → Prop}
    {meaning : σ → List α → V} (h : Streams view push finish Inv meaning)
    (hview : ∀ a b, view (a ++ b) = view a ++ view b) (pieces : List (List α)) (s : σ) (hs : Inv s) :
    view (run push finish s pieces) = meaning s pieces.flatten := by
  induction pieces generalizing s with
  | nil => exact h.finish s hs
  | cons piece pieces ih =>
    rw [run, hview, ih _ (h.inv s piece hs), List.flatten_cons, h.push s piece _ hs]

end Streaming
