import ScenarioLint.Regex.Basic

/-!
Reading the text of an anchored pattern, from `^` to `$`.

The reader goes over the text once, character by character.  It knows the open groups, the branches
of the innermost one, and what the next character may be.  A backslash before punctuation stands for
that punctuation, `\s`, `\S` and `\d` are classes, `(?i:` opens a group in which case does not
count, and a question mark after another repetition sign changes nothing about what is described.
-/

namespace ScenarioLint.Regex

/-- The branches of a group that is being read. -/
structure Branches where
  /-- The branches before the last bar, as one expression. -/
  earlier : Option Regex
  /-- The parts of the branch that is being read, the latest first. -/
  parts : List Regex
  deriving DecidableEq, Repr

namespace Branches

def start : Branches :=
  ⟨none, []⟩

def push (b : Branches) (r : Regex) : Branches :=
  { b with parts := r :: b.parts }

def close (b : Branches) : Regex :=
  let last := sequence b.parts.reverse
  match b.earlier with
  | none => last
  | some r => alt r last

def bar (b : Branches) : Branches :=
  ⟨some b.close, []⟩

end Branches

/-- What the reader is in the middle of. -/
inductive Stage where
  /-- Nothing has been read, and `^` has to come. -/
  | opening
  /-- The last part cannot be repeated. -/
  | ready
  /-- The last part may be repeated. -/
  | part
  /-- The last part has been repeated. -/
  | repeated
  | escape
  /-- After the brace of a count. -/
  | count (digits : Nat)
  | setStart
  /-- Inside a set: whether it is negated, and its characters with a mark on every dash that is not
      escaped, the latest first. -/
  | set (negated : Bool) (members : List (Char × Bool))
  | setEscape (negated : Bool) (members : List (Char × Bool))
  | group
  /-- After `(?`. -/
  | groupFlag
  /-- After `(?i`. -/
  | groupFold
  /-- After `$`, where the text has to end. -/
  | closed
  deriving DecidableEq, Repr

/-- The reader between two characters. -/
structure Reader where
  /-- The groups around the innermost one, each with its own case rule, the innermost first. -/
  outer : List (Branches × Bool)
  inner : Branches
  /-- Case does not count in the innermost group. -/
  anyCase : Bool
  stage : Stage
  deriving DecidableEq, Repr

namespace Reader

def start : Reader :=
  ⟨[], .start, false, .opening⟩

/-- Adds a part that may be repeated. -/
def push (s : Reader) (c : CharClass) : Reader :=
  { s with inner := s.inner.push (.one c), stage := .part }

/-- The class of a character that stands for itself. -/
def literal (s : Reader) (c : Char) : CharClass :=
  if s.anyCase && c.isAlpha then .letter c else .char c

def replace (s : Reader) (f : Regex → Option Regex) : Option Reader :=
  match s.inner.parts with
  | [] => none
  | r :: rest =>
    (f r).map fun r => { s with inner := ⟨s.inner.earlier, r :: rest⟩, stage := .repeated }

/-- Any number of times, for a single character. -/
def star : Regex → Option Regex
  | .one c => some (.many c)
  | _ => none

/-- At least once, for a single character. -/
def plus : Regex → Option Regex
  | .one c => some (.seq (.one c) (.many c))
  | _ => none

/-- The ranges of a set, in the order in which it lists its members. -/
def ranges : List (Char × Bool) → List (Char × Char)
  | (low, _) :: ('-', true) :: (high, _) :: rest => (low, high) :: ranges rest
  | (c, _) :: rest => (c, c) :: ranges rest
  | [] => []

def setClass (negated : Bool) (members : List (Char × Bool)) : CharClass :=
  if negated then .outside (ranges members.reverse) else .within (ranges members.reverse)

/-- Characters that a backslash turns into themselves. -/
def isPunctuation (c : Char) : Bool :=
  33 ≤ c.toNat && c.toNat < 127 && !c.isAlphanum

def readPart (s : Reader) (c : Char) : Option Reader :=
  if c = '\\' then some { s with stage := .escape }
  else if c = '[' then some { s with stage := .setStart }
  else if c = '(' then some { s with stage := .group }
  else if c = '|' then some { s with inner := s.inner.bar, stage := .ready }
  else if c = ')' then
    match s.outer with
    | [] => none
    | (branches, anyCase) :: outer =>
      some ⟨outer, branches.push s.inner.close, anyCase, .part⟩
  else if c = '$' then
    if s.outer.isEmpty then some { s with stage := .closed } else none
  else if c = '.' then some (s.push .any)
  else if c = '*' || c = '+' || c = '?' || c = '\x7b' || c = '\x7d' || c = ']' || c = '^' then none
  else some (s.push (s.literal c))

def readEscape (s : Reader) (c : Char) : Option Reader :=
  if c = 's' then some (s.push .space)
  else if c = 'S' then some (s.push .visible)
  else if c = 'd' then some (s.push .digit)
  else if isPunctuation c then some (s.push (.char c))
  else none

def setEscaped (c : Char) : Option Char :=
  if c = 't' then some '\t'
  else if c = 'r' then some '\r'
  else if c = 'n' then some '\n'
  else if isPunctuation c then some c
  else none

def step (s : Reader) (c : Char) : Option Reader :=
  match s.stage with
  | .opening => if c = '^' then some { s with stage := .ready } else none
  | .ready => s.readPart c
  | .part =>
    if c = '*' then s.replace star
    else if c = '+' then s.replace plus
    else if c = '?' then s.replace fun r => some (.alt r .empty)
    else if c = '\x7b' then some { s with stage := .count 0 }
    else s.readPart c
  | .repeated => if c = '?' then some { s with stage := .ready } else s.readPart c
  | .escape => s.readEscape c
  | .count n =>
    if c = '\x7d' then s.replace fun r => some (r.times n)
    else if c.isDigit then some { s with stage := .count (10 * n + (c.toNat - '0'.toNat)) }
    else none
  | .setStart =>
    if c = '^' then some { s with stage := .set true [] }
    else if c = '\\' then some { s with stage := .setEscape false [] }
    else if c = ']' then none
    else some { s with stage := .set false [(c, c == '-')] }
  | .set negated members =>
    if c = ']' then some (s.push (setClass negated members))
    else if c = '\\' then some { s with stage := .setEscape negated members }
    else some { s with stage := .set negated ((c, c == '-') :: members) }
  | .setEscape negated members =>
    (setEscaped c).map fun d => { s with stage := .set negated ((d, false) :: members) }
  | .group => if c = '?' then some { s with stage := .groupFlag } else none
  | .groupFlag =>
    if c = ':' then some ⟨(s.inner, s.anyCase) :: s.outer, .start, s.anyCase, .ready⟩
    else if c = 'i' then some { s with stage := .groupFold }
    else none
  | .groupFold =>
    if c = ':' then some ⟨(s.inner, s.anyCase) :: s.outer, .start, true, .ready⟩ else none
  | .closed => none

def run (s : Reader) (t : Text) : Option Reader :=
  t.foldlM step s

end Reader

/-- The expression that an anchored pattern writes. -/
def read? (source : Text) : Option Regex :=
  match Reader.start.run source with
  | some s => if s.stage = .closed then some s.inner.close else none
  | none => none

end ScenarioLint.Regex
