import Mathlib.Tactic.Common

/-!
# Characters of a text

What holds of the characters of a text is decided by going through the text.
-/

namespace Sentry.Library

instance decidableForallMemText {p : Char → Prop} [DecidablePred p] (text : List Char) :
    Decidable (∀ c ∈ text, p c) :=
  List.decidableBAll p text

end Sentry.Library
