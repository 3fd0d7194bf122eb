/-
# `WebTech.Lib.Chars` — a property of every character of a text

Whether each character of a text has a property is decided along the text, in
every context.
-/
import Mathlib.Data.List.Basic

namespace Chars

/-- Preferred to a search through all characters. -/
instance decForallMem (s : List Char) (p : Char → Prop) [DecidablePred p] :
    Decidable (∀ c ∈ s, p c) := List.decidableBAll p s

end Chars
