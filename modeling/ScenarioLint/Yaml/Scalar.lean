import ScenarioLint.Json.Source
import ScenarioLint.Settings.Node
import ScenarioLint.Yaml.Cursor

/-!
The scalars of YAML: plain ones, quoted ones, and the values that plain ones stand for.

A single line ending inside a scalar stands for a space, and every further one for itself.
-/

namespace ScenarioLint.Yaml

open Settings (Node)

/-- How a scalar is written, as far as its value depends on it. -/
inductive Style where
  | plain
  /-- Behind a bar. -/
  | literal
  /-- In quotes, or behind a greater-than sign. -/
  | other
  deriving DecidableEq, Repr

/-- What lies between two words of a scalar. -/
inductive Gap where
  | blanks (t : Text)
  /-- The line ending that ends the line of the word in front, unless it is escaped, and those
      behind it, the latest first. -/
  | breaks (first : Option Char) (later : Text)

namespace Gap

def none : Gap :=
  .blanks []

/-- What a gap stands for, in reverse order. -/
def folded : Gap → Text
  | .blanks t => t
  | .breaks (some '\n') [] => [' ']
  | .breaks (some '\n') later => later
  | .breaks first later => later ++ first.toList

/-- Adds a blank, which does not count behind a line ending. -/
def pushBlank (g : Gap) (c : Char) : Gap :=
  match g with
  | .blanks t => .blanks (c :: t)
  | .breaks first later => .breaks first later

/-- Adds a line ending, before which blanks do not count. -/
def pushBreak (g : Gap) (c : Char) : Gap :=
  match g with
  | .blanks _ => .breaks (some c) []
  | .breaks first later => .breaks first (c :: later)

def hasBreak : Gap → Bool
  | .blanks _ => false
  | .breaks _ _ => true

def isEmpty : Gap → Bool
  | .blanks t => t.isEmpty
  | .breaks _ _ => false

end Gap

/-- Characters that end a plain scalar inside brackets or braces. -/
def isFlowMark (c : Char) : Bool :=
  c == ',' || c == '[' || c == ']' || c == '\x7b' || c == '\x7d'

/-- Reads a plain scalar that has to be indented by at least `indent` characters unless it stands
    in brackets or braces: its text, whether a line ending follows it, and the place behind it. -/
def plain? (flow : Bool) (indent : Nat) : Nat → Text → Gap → Cursor → Option (Text × Bool × Cursor)
  | 0, _, _, _ => none
  | fuel + 1, passed, gap, c =>
    let done := some (passed.reverse, gap.hasBreak, c)
    match c.head? with
    | none => done
    | some d =>
      if isBlank d then
        if gap.hasBreak && c.column < indent && d == '\t' then none
        else plain? flow indent fuel passed (gap.pushBlank d) (c.skip 1)
      else if isBreak d then
        let (e, c) := c.skipBreak
        plain? flow indent fuel passed (gap.pushBreak e) c
      else
        if gap.hasBreak && !flow && c.column < indent then done
        else if !gap.isEmpty && (c.atAnyMark || d == '#') then done
        else if flow && d == ':' && (c.rest[1]?).any (fun e => isFlowMark e || e == '?') then none
        else if (d == ':' && c.endsAt 1) || (flow && isFlowMark d) then done
        else plain? flow indent fuel (d :: (gap.folded ++ passed)) .none (c.skip 1)

def single? : Nat → Text → Gap → Cursor → Option (Text × Cursor)
  | 0, _, _, _ => none
  | fuel + 1, passed, gap, c =>
    if c.atAnyMark then none
    else
      match c.rest with
      | [] => none
      | '\'' :: '\'' :: _ => single? fuel ('\'' :: (gap.folded ++ passed)) .none (c.skip 2)
      | '\'' :: _ => some ((gap.folded ++ passed).reverse, c.skip 1)
      | d :: _ =>
        if isBlank d then single? fuel passed (gap.pushBlank d) (c.skip 1)
        else if isBreak d then
          let (e, c) := c.skipBreak
          single? fuel passed (gap.pushBreak e) c
        else single? fuel (d :: (gap.folded ++ passed)) .none (c.skip 1)

def shortEscape? (c : Char) : Option Char :=
  match c with
  | '0' => some '\x00'
  | 'a' => some '\x07'
  | 'b' => some '\x08'
  | 't' => some '\t'
  | '\t' => some '\t'
  | 'n' => some '\n'
  | 'v' => some '\x0b'
  | 'f' => some '\x0c'
  | 'r' => some '\r'
  | 'e' => some '\x1b'
  | ' ' => some ' '
  | '"' => some '"'
  | '/' => some '/'
  | '\\' => some '\\'
  | 'N' => some '\u0085'
  | '_' => some '\u00a0'
  | 'L' => some '\u2028'
  | 'P' => some '\u2029'
  | _ => none

/-- The number of hexadecimal digits that follow a letter after a backslash. -/
def hexCount? (c : Char) : Option Nat :=
  match c with
  | 'x' => some 2
  | 'u' => some 4
  | 'U' => some 8
  | _ => none

def hexChar? (digits : Text) (count : Nat) : Option Char := do
  let values ← digits.mapM Json.Source.hexValue?
  let n := values.foldl (fun n d => 16 * n + d) 0
  if digits.length = count && (n < 0xD800 || (0xE000 ≤ n && n < 0x110000)) then
    some (Char.ofNat n)
  else none

def double? : Nat → Text → Gap → Cursor → Option (Text × Cursor)
  | 0, _, _, _ => none
  | fuel + 1, passed, gap, c =>
    if c.atAnyMark then none
    else
      match c.rest with
      | [] => none
      | '"' :: _ => some ((gap.folded ++ passed).reverse, c.skip 1)
      | '\\' :: d :: _ =>
        let passed := gap.folded ++ passed
        if isBreak d then
          double? fuel passed (.breaks none []) (c.skip 1).skipBreak.2
        else
          match shortEscape? d, hexCount? d with
          | some e, _ => double? fuel (e :: passed) .none (c.skip 2)
          | none, some count =>
            match hexChar? ((c.rest.drop 2).take count) count with
            | some e => double? fuel (e :: passed) .none (c.skip (2 + count))
            | none => none
          | none, none => none
      | d :: _ =>
        if isBlank d then double? fuel passed (gap.pushBlank d) (c.skip 1)
        else if isBreak d then
          let (e, c) := c.skipBreak
          double? fuel passed (gap.pushBreak e) c
        else double? fuel (d :: (gap.folded ++ passed)) .none (c.skip 1)

def digits? (base : Nat) (ds : Text) : Option Nat := do
  let values ← ds.mapM Json.Source.hexValue?
  if ds.isEmpty || values.any (base ≤ ·) then none
  else some (values.foldl (fun n d => base * n + d) 0)

/-- The number that unsigned text stands for.  A decimal number has no superfluous zero in
    front. -/
def magnitude? : Text → Option Nat
  | '0' :: 'x' :: ds => digits? 16 ds
  | '0' :: 'o' :: ds => digits? 8 ds
  | '0' :: 'b' :: ds => digits? 2 ds
  | '0' :: d :: ds => if (d :: ds).all Char.isDigit then none else digits? 10 ('0' :: d :: ds)
  | ds => digits? 10 ds

/-- The number that text stands for, with a plus sign in front of it or not. -/
def unsigned? (t : Text) : Option Nat :=
  magnitude? (if t.head? = some '+' then t.tail else t)

/-- What a plain scalar stands for.  No setting takes a negative number, not even a negative
    zero. -/
def plainNode (t : Text) : Node :=
  if t.isEmpty then .absent
  else if t = "~".toList || t = "null".toList || t = "Null".toList || t = "NULL".toList then .null
  else
    match unsigned? t with
    | some n => .integer n
    | none => .text t

end ScenarioLint.Yaml
