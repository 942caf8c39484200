import ScenarioLint.Json.Source
import ScenarioLint.Yaml.Cursor

/-!
Tags of values, and the directives in front of a document.

A tag is a name that stands in full between angle brackets, or behind a handle that stands for the
start of the name.  A directive tells the version of YAML or makes a handle.
-/

namespace ScenarioLint.Yaml

/-- The bytes of a name, which no zero byte is among. -/
abbrev Name := List UInt8

def nameOf (t : Text) : Name :=
  t.flatMap String.utf8EncodeChar

/-- A byte that is written as two hexadecimal digits. -/
def hexByte? (a b : Char) : Option UInt8 := do
  let a ← Json.Source.hexValue? a
  let b ← Json.Source.hexValue? b
  some (UInt8.ofNat (16 * a + b))

/-- How many bytes of a character in UTF-8 follow the first one. -/
def trailing? (first : UInt8) : Option Nat :=
  if first < 0x80 then some 0
  else if first < 0xc0 then none
  else if first < 0xe0 then some 1
  else if first < 0xf0 then some 2
  else if first < 0xf8 then some 3
  else none

/-- Characters of a name.  Three of them count in angle brackets only. -/
def isNameChar (bracketed : Bool) (c : Char) : Bool :=
  isWord c || ";/?:@&=+$.!~*'()".toList.contains c || (bracketed && ",[]".toList.contains c)

/-- Reads the bytes of a name, where a percent sign with two digits stands for a byte and `due`
    bytes of a character are still to come: the bytes and the text behind them. -/
def nameBytes? (bracketed : Bool) : (due : Nat) → Text → Option (List UInt8 × Text)
  | due, '%' :: a :: b :: rest => do
    let byte ← hexByte? a b
    let due ←
      if due = 0 then trailing? byte
      else if 0x80 ≤ byte && byte < 0xc0 then some (due - 1)
      else none
    let (bytes, rest) ← nameBytes? bracketed due rest
    some (byte :: bytes, rest)
  | 0, c :: rest =>
    if c == '%' then none
    else if isNameChar bracketed c then do
      let (bytes, rest) ← nameBytes? bracketed 0 rest
      some (UInt8.ofNat c.toNat :: bytes, rest)
    else some ([], c :: rest)
  | 0, [] => some ([], [])
  | _ + 1, _ => none

/-- Reads a name, which must not be empty unless something precedes it.  What follows a zero byte in
    it does not count. -/
def name? (bracketed preceded : Bool) (c : Cursor) : Option (Name × Cursor) := do
  let (bytes, rest) ← nameBytes? bracketed 0 c.rest
  if bytes.isEmpty && !preceded then none
  else some (bytes.takeWhile (· != 0), c.skip (c.rest.length - rest.length))

/-- Reads what may be a handle: an exclamation mark, a word, and another mark if there is one. -/
def handle? (c : Cursor) : Option (Text × Cursor) :=
  if c.sees '!' then
    let (word, c) := (c.skip 1).takeWhile isWord
    if c.sees '!' then some ('!' :: word ++ ['!'], c.skip 1) else some ('!' :: word, c)
  else none

/-- A tag as it is written: a handle, which is empty if the name is written in full, and the end of
    the name. -/
structure Tag where
  handle : Text
  suffix : Name
  deriving DecidableEq, Repr

/-- Reads a tag.  A word that ends without a mark is no handle but the start of the name, and the
    mark alone is a name. -/
def tag? (c : Cursor) : Option (Tag × Cursor) :=
  if (c.skip 1).sees '<' then do
    let (name, c) ← name? true false (c.skip 2)
    if c.sees '>' then some (⟨[], name⟩, c.skip 1) else none
  else do
    let (handle, c) ← handle? c
    if 1 < handle.length && handle.getLast? == some '!' then
      let (suffix, c) ← name? false false c
      some (⟨handle, suffix⟩, c)
    else
      let (rest, c) ← name? false true c
      let suffix := nameOf (handle.drop 1) ++ rest
      some (if suffix.isEmpty then ⟨[], nameOf ['!']⟩ else ⟨['!'], suffix⟩, c)

inductive Directive where
  | version (major minor : Nat)
  | handle (handle : Text) (start : Name)
  deriving DecidableEq, Repr

def versionNumber? (c : Cursor) : Option (Nat × Cursor) :=
  let (digits, c) := c.takeWhile Char.isDigit
  if digits.isEmpty || 9 < digits.length then none
  else some (Json.Literal.ofDigits digits, c)

/-- Reads the numbers of a version. -/
def version? (c : Cursor) : Option (Directive × Cursor) := do
  let (major, c) ← versionNumber? c
  if c.sees '.' then
    let (minor, c) ← versionNumber? (c.skip 1)
    some (.version major minor, c)
  else none

/-- Reads a handle and what it stands for. -/
def handleDirective? (c : Cursor) : Option (Directive × Cursor) := do
  let (handle, c) ← handle? c
  if handle.getLast? == some '!' && c.head?.any isBlank then
    let (start, c) ← name? true false (c.skipWhile isBlank)
    if c.endsAt 0 then some (.handle handle start, c) else none
  else none

/-- Reads a directive and the rest of its line. -/
def directive? (c : Cursor) : Option (Directive × Cursor) := do
  let (word, c) := (c.skip 1).takeWhile isWord
  if !c.endsAt 0 then none
  else
    let behind := c.skipWhile isBlank
    let (directive, c) ←
      if word = "YAML".toList then version? behind
      else if word = "TAG".toList then handleDirective? behind
      else none
    some (directive, ← c.nextLine?)

end ScenarioLint.Yaml
