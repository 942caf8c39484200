import ScenarioLint.Yaml.Block
import ScenarioLint.Yaml.Scalar
import ScenarioLint.Yaml.Tag

/-!
The tokens of a YAML text.

Indentation opens and closes blocks.  A key is known as one only at the colon behind it, so the
tokens that open a block of keys and mark a key are put in front of the key afterwards.  Until then
neither the key nor what follows it counts as read: if the text stops being YAML first, the tokens
end in front of the key.
-/

namespace ScenarioLint.Yaml

inductive Token where
  | directive (d : Directive)
  | documentStart
  | documentEnd
  | blockList
  | blockTable
  | blockEnd
  | flowList
  | flowListEnd
  | flowTable
  | flowTableEnd
  | item
  | comma
  | key
  | colon
  | anchor (name : Text)
  | reference (name : Text)
  | tag (tag : Tag)
  | scalar (t : Text) (style : Style)
  /-- Nothing follows. -/
  | streamEnd
  deriving DecidableEq, Repr

/-- A token that may turn out to be a key: how many tokens precede it, where it stands, and whether
    it has to be a key. -/
structure Candidate where
  tokens : Nat
  offset : Nat
  line : Nat
  column : Nat
  required : Bool

/-- The scanner between two tokens. -/
structure Scanner where
  size : Nat
  cursor : Cursor
  /-- The tokens that have been read, the latest first. -/
  tokens : List Token
  count : Nat
  /-- The column of the innermost block, or none outside all blocks. -/
  indent : Option Nat
  outer : List (Option Nat)
  /-- The candidate outside all brackets and braces, and inside each of those that are open, the
      innermost first. -/
  candidates : List (Option Candidate)
  keyAllowed : Bool
  /-- The number of bytes behind which the text cannot be read, if it cannot. -/
  limit : Option Nat

namespace Scanner

def start (t : Text) : Scanner :=
  ⟨t.length, .start t, [], 0, none, [], [none], true, readable? 0 0 t⟩

def inFlow (s : Scanner) : Bool :=
  1 < s.candidates.length

def push (s : Scanner) (t : Token) : Scanner :=
  { s with tokens := t :: s.tokens, count := s.count + 1 }

/-- Puts a token behind the first `n` ones. -/
def insert (s : Scanner) (n : Nat) (t : Token) : Scanner :=
  let later := s.count - n
  { s with tokens := s.tokens.take later ++ t :: s.tokens.drop later, count := s.count + 1 }

def skip (s : Scanner) (n : Nat) : Scanner :=
  { s with cursor := s.cursor.skip n }

def canRead (s : Scanner) (n : Nat) : Bool :=
  s.limit.all ((s.cursor.skip n).offset ≤ ·)

/-- Skips white space and comments in front of a token, and a byte order mark at the beginning of a
    line. -/
def skipGap : Nat → Scanner → Scanner
  | 0, s => s
  | fuel + 1, s =>
    match s.cursor.head? with
    | none => s
    | some c =>
      if c == ' ' || (c == '\t' && (s.inFlow || !s.keyAllowed)) then skipGap fuel (s.skip 1)
      else if c == '\ufeff' && s.cursor.column == 0 then skipGap fuel (s.skip 1)
      else if c == '#' then
        skipGap fuel (s.skip (s.cursor.rest.takeWhile fun d => !isBreak d).length)
      else if isBreak c then
        skipGap fuel
          { s with cursor := s.cursor.skipBreak.2, keyAllowed := s.keyAllowed || !s.inFlow }
      else s

/-- Drops candidates that are too far back: on another line, or by more than 1024 bytes.  A
    candidate that has to be a key must not be dropped. -/
def dropStale (s : Scanner) : Option Scanner := do
  let candidates ← s.candidates.mapM fun candidate =>
    match candidate with
    | none => some none
    | some k =>
      if k.line < s.cursor.line || k.offset + 1024 < s.cursor.offset then
        if k.required then none else some none
      else some (some k)
  some { s with candidates := candidates }

/-- Drops the innermost candidate, which must not have to be a key. -/
def dropCandidate (s : Scanner) : Option Scanner :=
  match s.candidates with
  | some k :: rest => if k.required then none else some { s with candidates := none :: rest }
  | _ => some s

/-- Makes the next token a candidate, if a key may begin here. -/
def saveCandidate (s : Scanner) : Option Scanner :=
  if s.keyAllowed then do
    let s ← s.dropCandidate
    let c := s.cursor
    let required := !s.inFlow && s.indent == some c.column
    some { s with
      candidates := some ⟨s.count, c.offset, c.line, c.column, required⟩ ::
        s.candidates.drop 1 }
  else some s

/-- Opens a block at a column right of the innermost one, with its token behind the first `n`
    ones. -/
def openBlock (s : Scanner) (column n : Nat) (t : Token) : Scanner :=
  if s.inFlow || s.indent.any (column ≤ ·) then s
  else { s.insert n t with indent := some column, outer := s.indent :: s.outer }

/-- Closes the blocks right of a column, or all blocks. -/
def closeBlocks (column : Option Nat) : List (Option Nat) → Scanner → Scanner
  | [], s => s
  | outer :: rest, s =>
    match s.indent with
    | some n =>
      if column.all (· < n) then
        closeBlocks column rest { s.push .blockEnd with indent := outer, outer := rest }
      else s
    | none => s

def unindent (s : Scanner) (column : Option Nat) : Scanner :=
  if s.inFlow then s else closeBlocks column s.outer s

def readDirective (s : Scanner) : Option Scanner := do
  let s ← (s.unindent none).dropCandidate
  let (directive, cursor) ← directive? s.cursor
  some { s.push (.directive directive) with cursor := cursor, keyAllowed := false }

def readMark (s : Scanner) (t : Token) : Option Scanner := do
  let s ← (s.unindent none).dropCandidate
  some { (s.push t).skip 3 with keyAllowed := false }

def readOpening (s : Scanner) (t : Token) : Option Scanner := do
  let s ← s.saveCandidate
  some { (s.push t).skip 1 with candidates := none :: s.candidates, keyAllowed := true }

def readClosing (s : Scanner) (t : Token) : Option Scanner := do
  let s ← s.dropCandidate
  some { (s.push t).skip 1 with
    candidates := if s.inFlow then s.candidates.drop 1 else s.candidates
    keyAllowed := false }

def readComma (s : Scanner) : Option Scanner := do
  let s ← s.dropCandidate
  some { (s.push .comma).skip 1 with keyAllowed := true }

def readDash (s : Scanner) : Option Scanner :=
  if !s.inFlow && !s.keyAllowed then none
  else do
    let s := s.openBlock s.cursor.column s.count .blockList
    let s ← s.dropCandidate
    some { (s.push .item).skip 1 with keyAllowed := true }

def readQuestion (s : Scanner) : Option Scanner :=
  if !s.inFlow && !s.keyAllowed then none
  else do
    let s := s.openBlock s.cursor.column s.count .blockTable
    let s ← s.dropCandidate
    some { (s.push .key).skip 1 with keyAllowed := !s.inFlow }

def readColon (s : Scanner) : Option Scanner :=
  match s.candidates with
  | some k :: rest =>
    let s := s.insert k.tokens .key
    let s := { s with candidates := none :: rest }
    let s := s.openBlock k.column k.tokens .blockTable
    some { (s.push .colon).skip 1 with keyAllowed := false }
  | _ =>
    if !s.inFlow && !s.keyAllowed then none
    else
      let s := s.openBlock s.cursor.column s.count .blockTable
      some { (s.push .colon).skip 1 with keyAllowed := !s.inFlow }

/-- The column from which on text belongs to the innermost block. -/
def least (s : Scanner) : Nat :=
  match s.indent with
  | some n => n + 1
  | none => 0

/-- What may follow the name of an anchor. -/
def endsAnchor (c : Cursor) : Bool :=
  c.endsAt 0 || c.head?.any "?:,]\x7d%@\x60".toList.contains

/-- Reads the name of an anchor, behind the mark of one or of a reference to one. -/
def readAnchor (s : Scanner) (token : Text → Token) : Option Scanner := do
  let s ← s.saveCandidate
  let (name, cursor) := (s.cursor.skip 1).takeWhile isWord
  if name.isEmpty || !endsAnchor cursor then none
  else some { s.push (token name) with cursor := cursor, keyAllowed := false }

def readTag (s : Scanner) : Option Scanner := do
  let s ← s.saveCandidate
  let (tag, cursor) ← tag? s.cursor
  if cursor.endsAt 0 || (s.inFlow && cursor.sees ',') then
    some { s.push (.tag tag) with cursor := cursor, keyAllowed := false }
  else none

def readBlockScalar (s : Scanner) (literal : Bool) : Option Scanner := do
  let s ← s.dropCandidate
  let (t, cursor) ← block? literal s.least (s.cursor.skip 1)
  let style := if literal then Style.literal else .other
  some { s.push (.scalar t style) with cursor := cursor, keyAllowed := true }

def readQuoted (s : Scanner) (read : Nat → Text → Gap → Cursor → Option (Text × Cursor)) :
    Option Scanner := do
  let s ← s.saveCandidate
  let (t, cursor) ← read (s.size + 1) [] .none (s.cursor.skip 1)
  some { s.push (.scalar t .other) with cursor := cursor, keyAllowed := false }

def readPlain (s : Scanner) : Option Scanner := do
  let s ← s.saveCandidate
  let (t, broken, cursor) ← plain? s.inFlow s.least (s.size + 1) [] .none s.cursor
  some { s.push (.scalar t .plain) with cursor := cursor, keyAllowed := broken }

/-- Characters that cannot begin a plain scalar. -/
def isIndicator (c : Char) : Bool :=
  "-?:,[]\x7b\x7d#&*!|>'\"%@\x60".toList.contains c || isBlank c || isBreak c

def atPlain (s : Scanner) (c : Char) : Bool :=
  !isIndicator c || (c == '-' && !s.cursor.endsAt 1) ||
    (!s.inFlow && (c == '?' || c == ':') && !s.cursor.endsAt 1)

def readToken (s : Scanner) (c : Char) : Option Scanner :=
  let c' := s.cursor
  if c'.column == 0 && c == '%' then s.readDirective
  else if c'.atMark '-' then s.readMark .documentStart
  else if c'.atMark '.' then s.readMark .documentEnd
  else if c == '[' then s.readOpening .flowList
  else if c == '\x7b' then s.readOpening .flowTable
  else if c == ']' then s.readClosing .flowListEnd
  else if c == '\x7d' then s.readClosing .flowTableEnd
  else if c == ',' then s.readComma
  else if c == '-' && c'.endsAt 1 then s.readDash
  else if c == '?' && (s.inFlow || c'.endsAt 1) then s.readQuestion
  else if c == ':' && (s.inFlow || c'.endsAt 1) then s.readColon
  else if c == '*' then s.readAnchor .reference
  else if c == '&' then s.readAnchor .anchor
  else if c == '!' then s.readTag
  else if c == '|' && !s.inFlow then s.readBlockScalar true
  else if c == '>' && !s.inFlow then s.readBlockScalar false
  else if c == '\'' then s.readQuoted single?
  else if c == '"' then s.readQuoted double?
  else if s.atPlain c then s.readPlain
  else none

/-- Closes all blocks at the end of the text, where no candidate may be left that has to be a
    key. -/
def finish (s : Scanner) : Option Scanner :=
  if s.candidates.any fun candidate => candidate.any (·.required) then none
  else some (s.unindent none)

/-- Reads the next token and those that its column puts in front of it.  At the end of the text it
    also says that nothing follows. -/
def next (s : Scanner) : Option (Scanner × Bool) := do
  let s ← (skipGap (s.size + 1) s).dropStale
  if !s.canRead 4 then none
  else
    match s.cursor.head? with
    | none => s.finish.map (·, true)
    | some c =>
      let s ← (s.unindent (some s.cursor.column)).readToken c
      if s.canRead 1 then some (s, false) else none

/-- The number of tokens that no candidate holds back. -/
def settled (s : Scanner) : Nat :=
  (s.candidates.filterMap fun candidate => candidate.map (·.tokens)).foldl min s.count

/-- Reads the tokens up to the end of the text, or up to the place where it stops being YAML.  Only
    tokens that were settled before the text stopped being YAML count, the first `known` of them so
    far. -/
def run : Nat → Nat → Scanner → List Token
  | 0, known, s => s.tokens.reverse.take known
  | fuel + 1, known, s =>
    match s.dropStale with
    | none => s.tokens.reverse.take known
    | some s =>
      match s.next with
      | none => s.tokens.reverse.take s.settled
      | some (s', true) => s'.tokens.reverse ++ [.streamEnd]
      | some (s', false) => run fuel s.settled s'

end Scanner

def tokens (t : Text) : List Token :=
  Scanner.run (t.length + 1) 0 (.start t)

end ScenarioLint.Yaml
