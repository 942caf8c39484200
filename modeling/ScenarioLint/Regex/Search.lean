import ScenarioLint.Regex.Basic

/-!
Deciding whether an expression describes a text.

A place of a text lies before one of its characters or at its end, and a set of places is a list of
marks, one for each place in order.  An expression turns the set of places where it may start into
the set of places where it may end.
-/

namespace ScenarioLint.Regex

/-- Spreads marks over the runs of characters of a class: a place is marked if it was, or if the
    place before it is marked and the character between them belongs to the class. -/
def spread (c : CharClass) (carry : Bool) : Text → List Bool → List Bool
  | _, [] => []
  | [], mark :: _ => [mark || carry]
  | x :: t, mark :: marks =>
    (mark || carry) :: spread c ((mark || carry) && c.has x) t marks

/-- The places where an expression may end if it starts at one of the marked places. -/
def ends : Regex → Text → List Bool → List Bool
  | empty, _, marks => marks
  | one c, t, marks => false :: List.zipWith (fun mark x => mark && c.has x) marks t
  | many c, t, marks => spread c false t marks
  | seq first second, t, marks =>
    let between := first.ends t marks
    if between.any id then second.ends t between else between
  | alt left right, t, marks => List.zipWith or (left.ends t marks) (right.ends t marks)

def accepts (r : Regex) (t : Text) : Bool :=
  (r.ends t (true :: List.replicate t.length false)).getLast?.getD false

end ScenarioLint.Regex
