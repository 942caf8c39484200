import ScenarioLint.Gherkin.Line

/-!
Places between the lines of a feature file, and the replies of its readers.

A reader takes what it recognises and replies with the place behind it, passes if the lines in
front of it are not its concern, or stops the whole reading with an error.
-/

namespace ScenarioLint.Gherkin

/-- A place between two lines: the number of the next line, and the lines that follow. -/
structure Place where
  line : Nat
  rest : List Line
  deriving DecidableEq, Repr

structure ParseError where
  line : Nat
  message : Text
  deriving DecidableEq, Repr

namespace ParseError

def text (e : ParseError) : Text :=
  "line ".toList ++ Text.ofNat e.line ++ ": ".toList ++ e.message

end ParseError

/-- The reply of a reader. -/
inductive Reply (α : Type) where
  /-- The value that was read, and the place behind it. -/
  | done (a : α) (next : Place)
  /-- Nothing here is the reader's concern. -/
  | pass
  /-- The document cannot be read. -/
  | stop (e : ParseError)

namespace Reply

variable {α β : Type}

def bind (r : Reply α) (f : α → Place → Reply β) : Reply β :=
  match r with
  | done a next => f a next
  | pass => pass
  | stop e => stop e

def map (f : α → β) (r : Reply α) : Reply β :=
  r.bind fun a next => done (f a) next

def orElse (r : Reply α) (other : Reply α) : Reply α :=
  match r with
  | pass => other
  | r => r

/-- Reads nothing where the reader passes. -/
def optional (p : Place) (r : Reply α) : Reply (Option α) :=
  match r with
  | done a next => done (some a) next
  | pass => done none p
  | stop e => stop e

end Reply

namespace Place

def next (p : Place) : Place :=
  ⟨p.line + 1, p.rest.tail⟩

def take {α : Type} (p : Place) (test : Line → Option α) : Reply α :=
  match p.rest with
  | [] => .pass
  | line :: _ =>
    match test line with
    | some a => .done a p.next
    | none => .pass

/-- The number of lines up to the first one that a test refuses, moved over. -/
def skipWhile (test : Line → Bool) : Nat → List Line → Place
  | n, [] => ⟨n, []⟩
  | n, line :: rest => if test line then skipWhile test (n + 1) rest else ⟨n, line :: rest⟩

def skipIgnorable (p : Place) : Place :=
  skipWhile Line.isIgnorable p.line p.rest

/-- Reads with a reader as often as it does not pass.  A reader that reads no line makes the whole
    reading pass. -/
def many {α : Type} (read : Place → Reply α) (p : Place) : Reply (List α) :=
  match read p with
  | .pass => .done [] p
  | .stop e => .stop e
  | .done a next =>
    if next.rest.length < p.rest.length then (many read next).map (a :: ·) else .pass
termination_by p.rest.length

end Place

end ScenarioLint.Gherkin
