import ScenarioLint.Text
import ScenarioLint.Unicode.Digit

/-!
Regular expressions over characters and the texts that they describe.

Only single characters are repeated, which keeps the search for a match linear in the text: from
every place of the text a repetition reaches a run of places.
-/

namespace ScenarioLint

/-- A set of characters, as a pattern writes it. -/
inductive CharClass where
  /-- Every character but the line feed. -/
  | any
  | space
  | visible
  /-- A decimal digit of any script. -/
  | digit
  | char (c : Char)
  /-- One letter in either case. -/
  | letter (c : Char)
  | within (ranges : List (Char × Char))
  | outside (ranges : List (Char × Char))
  deriving DecidableEq, Repr

/-- The small letter to which a letter folds when case does not count: the long s folds to `s` and
    the Kelvin sign to `k`. -/
def foldCase (c : Char) : Char :=
  if c = '\u017f' then 's' else if c = '\u212a' then 'k' else c.toLower

namespace CharClass

/-- A character lies in one of the ranges, whose ends are included. -/
def inSome (ranges : List (Char × Char)) (x : Char) : Bool :=
  ranges.any fun (low, high) => low ≤ x && x ≤ high

def has : CharClass → Char → Bool
  | any, x => x != '\n'
  | space, x => isSpace x
  | visible, x => !isSpace x
  | digit, x => isDigit x
  | char c, x => x == c
  | letter c, x => foldCase x == foldCase c
  | within ranges, x => inSome ranges x
  | outside ranges, x => !inSome ranges x

end CharClass

inductive Regex where
  | empty
  | one (c : CharClass)
  | many (c : CharClass)
  | seq (first second : Regex)
  | alt (left right : Regex)
  deriving DecidableEq, Repr

namespace Regex

/-- The expression describes the text. -/
def Describes : Regex → Text → Prop
  | empty, t => t = []
  | one c, t => ∃ x, t = [x] ∧ c.has x = true
  | many c, t => ∀ x ∈ t, c.has x = true
  | seq first second, t => ∃ u v, t = u ++ v ∧ first.Describes u ∧ second.Describes v
  | alt left right, t => left.Describes t ∨ right.Describes t

def sequence : List Regex → Regex
  | [] => empty
  | r :: rest => rest.foldl seq r

def times (r : Regex) : Nat → Regex
  | 0 => empty
  | 1 => r
  | n + 1 => seq (times r n) r

end Regex

end ScenarioLint
