/-!
Texts as lists of characters: white space, lines, words and ASCII case.

A line ends at a line feed, and one carriage return directly before that line feed belongs to the
ending.  What follows the last line feed is a line of its own unless it is empty.
-/

namespace ScenarioLint

/-- A text is the list of its characters. -/
abbrev Text := List Char

/-- White space: the characters of the Unicode property White_Space. -/
def isSpace (c : Char) : Bool :=
  c == ' ' || ('\t' ≤ c && c ≤ '\r') || c == '\u0085' || c == '\u00a0' || c == '\u1680' ||
    ('\u2000' ≤ c && c ≤ '\u200a') || c == '\u2028' || c == '\u2029' || c == '\u202f' ||
    c == '\u205f' || c == '\u3000'

/-- A space or a tab, the only characters that indent a line of a scenario. -/
def isIndent (c : Char) : Bool :=
  c == ' ' || c == '\t'

namespace Text

def trimStart (t : Text) : Text :=
  t.dropWhile isSpace

def trimEnd (t : Text) : Text :=
  (t.reverse.dropWhile isSpace).reverse

def trim (t : Text) : Text :=
  t.trimStart.trimEnd

def isBlank (t : Text) : Bool :=
  t.all isSpace

/-- What follows `lead` in a text that starts with it. -/
def after? : (lead t : Text) → Option Text
  | [], t => some t
  | _ :: _, [] => none
  | a :: lead, c :: t => if a = c then after? lead t else none

/-- The text before the first occurrence of a nonempty `mark` and the text after it. -/
def splitOnce (mark : Text) (t : Text) : Option (Text × Text) :=
  go [] t
where
  go (passed : Text) : Text → Option (Text × Text)
    | [] => none
    | c :: rest =>
      match after? mark (c :: rest) with
      | some tail => some (passed.reverse, tail)
      | none => go (c :: passed) rest

/-- The pieces of a text between the occurrences of `mark`, of which there is at least one. -/
def pieces (mark : Char) (t : Text) : List Text :=
  t.foldr (fun c done => if c = mark then [] :: done else
    match done with
    | [] => [[c]]
    | piece :: rest => (c :: piece) :: rest) [[]]

def dropReturn (t : Text) : Text :=
  if t.getLast? = some '\r' then t.dropLast else t

def lines (t : Text) : List Text :=
  let all := t.pieces '\n'
  let last := all.getLastD []
  all.dropLast.map dropReturn ++ if last.isEmpty then [] else [last]

/-- The runs of characters other than white space, in order. -/
def words (t : Text) : List Text :=
  (t.foldr (fun c done => if isSpace c then [] :: done else
    match done with
    | [] => [[c]]
    | word :: rest => (c :: word) :: rest) [[]]).filter (fun word => !word.isEmpty)

/-- Turns ASCII letters into capitals and keeps every other character. -/
def toUpper (t : Text) : Text :=
  t.map Char.toUpper

def toLower (t : Text) : Text :=
  t.map Char.toLower

/-- Two texts are alike if they differ at most in the case of ASCII letters. -/
def alike (a b : Text) : Bool :=
  a.toLower == b.toLower

def byteSize (t : Text) : Nat :=
  t.foldl (fun n c => n + c.utf8Size) 0

/-- The text that bytes stand for in UTF-8. -/
def ofBytes? (bytes : List UInt8) : Option Text :=
  (String.fromUTF8? ⟨bytes.toArray⟩).map String.toList

def ofNat (n : Nat) : Text :=
  Nat.toDigits 10 n

def join (mark : Text) (ts : List Text) : Text :=
  (ts.intersperse mark).flatten

/-- Every line followed by a line feed. -/
def unlines (ts : List Text) : Text :=
  ts.flatMap (· ++ ['\n'])

end Text

end ScenarioLint
