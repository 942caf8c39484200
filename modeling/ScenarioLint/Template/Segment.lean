import ScenarioLint.Placeholder

/-!
The segments of a template: placeholders, and the literal text between them.
-/

namespace ScenarioLint.Template

/-- A piece of a template. -/
inductive Segment where
  | literal (text : Text)
  | placeholder (p : Placeholder)
  deriving DecidableEq, Repr

namespace Segment

def text : Segment → Text
  | literal t => t
  | placeholder p => p.token

/-- A literal segment from its characters in reverse order, or none if there are none. -/
def ofRun (run : Text) : List Segment :=
  if run.isEmpty then [] else [literal run.reverse]

/-- Splits a text, after `run`, the literal characters read last in reverse order, and `done`, the
    segments before them in reverse order.  While `skip` is not zero the characters belong to the
    token of the last segment. -/
def split (skip : Nat) (run : Text) (done : List Segment) : Text → List Segment
  | [] => (ofRun run ++ done).reverse
  | c :: rest =>
    if 0 < skip then split (skip - 1) run done rest
    else
      match Placeholder.at? (c :: rest) with
      | some p => split (p.token.length - 1) [] (placeholder p :: (ofRun run ++ done)) rest
      | none => split 0 (c :: run) done rest

/-- The segments of a template, cut at every token from left to right. -/
def ofTemplate (body : Text) : List Segment :=
  split 0 [] [] body

end Segment

end ScenarioLint.Template
