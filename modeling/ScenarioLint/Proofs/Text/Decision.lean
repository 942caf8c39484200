import ScenarioLint.Text

/-!
What is said of all characters of a text is decided by going over the text, and not over all
characters there are.
-/

namespace ScenarioLint.Text

variable {p : Char → Prop} [DecidablePred p]

instance (priority := high) decidableForallMem (t : Text) : Decidable (∀ c ∈ t, p c) :=
  List.decidableBAll p t

instance (priority := high) decidableExistsMem (t : Text) : Decidable (∃ c ∈ t, p c) :=
  List.decidableBEx p t

instance (priority := high) decidableForallMemOption (o : Option Char) : Decidable (∀ c ∈ o, p c) :=
  o.decidableForallMem

instance (priority := high) decidableExistsMemOption (o : Option Char) : Decidable (∃ c ∈ o, p c) :=
  o.decidableExistsMem

end ScenarioLint.Text
