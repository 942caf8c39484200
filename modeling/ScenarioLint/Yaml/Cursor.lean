import ScenarioLint.Text

/-!
Places in a YAML text, and the characters that YAML tells apart.
-/

namespace ScenarioLint.Yaml

def isBlank (c : Char) : Bool :=
  c == ' ' || c == '\t'

def isBreak (c : Char) : Bool :=
  c == '\n' || c == '\r' || c == '\u0085' || c == '\u2028' || c == '\u2029'

/-- A character of which names of anchors, handles and directives are made. -/
def isWord (c : Char) : Bool :=
  c.isAlphanum || c == '_' || c == '-'

def isAllowed (c : Char) : Bool :=
  c == '\t' || c == '\n' || c == '\r' || (32 ≤ c.toNat && c.toNat ≤ 126) || c == '\u0085' ||
    (160 ≤ c.toNat && c != '\ufffe' && c != '\uffff')

/-- The number of bytes in front of the piece that holds the first character that must not stand in
    a YAML text, if there is one.  A text is cut into pieces of 16384 bytes, or less where that
    would cut a character, and such a character counts as soon as its piece is needed. -/
def readable? (start offset : Nat) : Text → Option Nat
  | [] => none
  | c :: t =>
    let start := if start + 16384 < offset + c.utf8Size then offset else start
    if isAllowed c then readable? start (offset + c.utf8Size) t else some start

/-- A place in a text: the text that follows, the number of bytes and of lines before it, and the
    number of characters before it on its line. -/
structure Cursor where
  rest : Text
  offset : Nat
  line : Nat
  column : Nat

namespace Cursor

def start (t : Text) : Cursor :=
  ⟨t, 0, 0, 0⟩

/-- The place behind the next `n` characters, none of which ends a line. -/
def skip (c : Cursor) (n : Nat) : Cursor :=
  ⟨c.rest.drop n, c.offset + Text.byteSize (c.rest.take n), c.line, c.column + n⟩

/-- The character that a line ending stands for, and the place behind it. -/
def skipBreak (c : Cursor) : Char × Cursor :=
  match c.rest with
  | '\r' :: '\n' :: t => ('\n', ⟨t, c.offset + 2, c.line + 1, 0⟩)
  | d :: t =>
    (if d = '\u2028' || d = '\u2029' then d else '\n', ⟨t, c.offset + d.utf8Size, c.line + 1, 0⟩)
  | [] => ('\n', c)

def head? (c : Cursor) : Option Char :=
  c.rest.head?

def sees (c : Cursor) (d : Char) : Bool :=
  c.rest.head? == some d

/-- The characters from here on that a test accepts, and the place behind them.  No line ending may
    be among them. -/
def takeWhile (c : Cursor) (test : Char → Bool) : Text × Cursor :=
  let t := c.rest.takeWhile test
  (t, c.skip t.length)

def skipWhile (c : Cursor) (test : Char → Bool) : Cursor :=
  (c.takeWhile test).2

/-- The next line, if nothing is left on this one but blanks and a comment. -/
def nextLine? (c : Cursor) : Option Cursor :=
  let c := c.skipWhile isBlank
  let c := if c.sees '#' then c.skipWhile (fun d => !isBreak d) else c
  match c.head? with
  | none => some c
  | some d => if isBreak d then some c.skipBreak.2 else none

/-- A blank, a line ending or the end of the text lies `n` characters further on. -/
def endsAt (c : Cursor) (n : Nat) : Bool :=
  (c.rest[n]?).all fun d => isBlank d || isBreak d

/-- A mark of three characters that begins or ends a document stands here. -/
def atMark (c : Cursor) (d : Char) : Bool :=
  c.column == 0 && c.rest.take 3 == [d, d, d] && c.endsAt 3

def atAnyMark (c : Cursor) : Bool :=
  c.atMark '-' || c.atMark '.'

end Cursor

end ScenarioLint.Yaml
