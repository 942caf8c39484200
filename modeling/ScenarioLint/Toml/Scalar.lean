import ScenarioLint.Json.Source
import ScenarioLint.Settings.Node

/-!
The scalars of TOML: strings, integers, floats, truth values and dates, and the keys of tables.

Every reader takes the text from a place on and gives what it read with the text that follows, or
nothing if the text is no TOML there.
-/

namespace ScenarioLint.Toml

open Settings (Node)

/-- A character that may stand in a comment or, quotes and backslashes apart, in a string. -/
def isPlain (c : Char) : Bool :=
  c == '\t' || (32 ≤ c.toNat && c.toNat != 127)

def skipIndent (t : Text) : Text :=
  t.dropWhile isIndent

/-- Drops a line ending, of which there has to be one. -/
def newline? : Text → Option Text
  | '\n' :: t => some t
  | '\r' :: '\n' :: t => some t
  | _ => none

def skipComment : Text → Text
  | '#' :: t => t.dropWhile isPlain
  | t => t

/-- Drops the rest of a line, in which only a comment may stand. -/
def endLine? (t : Text) : Option Text :=
  match skipComment (skipIndent t) with
  | [] => some []
  | t => newline? t

/-- The character with a code, if it is no surrogate. -/
def scalar? (n : Nat) : Option Char :=
  if n < 0xD800 || (0xE000 ≤ n && n < 0x110000) then some (Char.ofNat n) else none

def escape? : Text → Option (Char × Text)
  | 'b' :: t => some ('\x08', t)
  | 't' :: t => some ('\t', t)
  | 'n' :: t => some ('\n', t)
  | 'f' :: t => some ('\x0c', t)
  | 'r' :: t => some ('\r', t)
  | '"' :: t => some ('"', t)
  | '\\' :: t => some ('\\', t)
  | 'u' :: a :: b :: c :: d :: t => do
    let n ← Json.Source.hexUnit? a b c d
    let c ← scalar? n
    some (c, t)
  | 'U' :: a :: b :: c :: d :: e :: f :: g :: h :: t => do
    let high ← Json.Source.hexUnit? a b c d
    let low ← Json.Source.hexUnit? e f g h
    let c ← scalar? (high * 0x10000 + low)
    some (c, t)
  | _ => none

theorem length_of_escape? {t rest : Text} {c : Char} (h : escape? t = some (c, rest)) :
    rest.length < t.length := by
  unfold escape? at h
  split at h <;> simp_all [Option.bind_eq_some_iff] <;> grind

/-- Reads the rest of a string on one line, after `passed` in reverse order. -/
def basicRest (passed : Text) (t : Text) : Option (Text × Text) :=
  match t with
  | [] => none
  | '"' :: rest => some (passed.reverse, rest)
  | '\\' :: rest =>
    match h : escape? rest with
    | some (c, after) =>
      have := length_of_escape? h
      basicRest (c :: passed) after
    | none => none
  | c :: rest => if isPlain c then basicRest (c :: passed) rest else none
termination_by t.length
decreasing_by all_goals simp_all <;> omega

def literalRest (t : Text) : Option (Text × Text) :=
  let body := t.takeWhile fun c => isPlain c && c != '\''
  match t.dropWhile fun c => isPlain c && c != '\'' with
  | '\'' :: rest => some (body, rest)
  | _ => none

/-- Reads the quotes at the end of a string over several lines, of which up to two more than the
    closing ones belong to the string. -/
def closeQuotes (quote : Char) (t : Text) : Option (Text × Text) :=
  let run := (t.takeWhile (· == quote)).length
  if run < 3 then none
  else
    let extra := min (run - 3) 2
    some (List.replicate extra quote, t.drop (extra + 3))

/-- Drops white space and line endings, the first of which has to follow only spaces and tabs. -/
def skipFold (t : Text) : Option Text :=
  (newline? (skipIndent t)).map go
where
  go : Text → Text
    | '\r' :: '\n' :: t => go t
    | c :: t => if isIndent c || c == '\n' then go t else c :: t
    | [] => []

def multiBasicRest : Nat → Text → Text → Option (Text × Text)
  | 0, _, _ => none
  | fuel + 1, passed, t =>
    match closeQuotes '"' t with
    | some (extra, rest) => some (passed.reverse ++ extra, rest)
    | none =>
      match t with
      | [] => none
      | '\\' :: rest =>
        match escape? rest with
        | some (c, rest) => multiBasicRest fuel (c :: passed) rest
        | none =>
          match skipFold rest with
          | some rest => multiBasicRest fuel passed rest
          | none => none
      | '\r' :: '\n' :: rest => multiBasicRest fuel ('\n' :: passed) rest
      | c :: rest =>
        if isPlain c || c == '\n' then multiBasicRest fuel (c :: passed) rest else none

def multiLiteralRest (passed : Text) (t : Text) : Option (Text × Text) :=
  match closeQuotes '\'' t with
  | some (extra, rest) => some (passed.reverse ++ extra, rest)
  | none =>
    match t with
    | [] => none
    | '\r' :: '\n' :: rest => multiLiteralRest ('\n' :: passed) rest
    | c :: rest =>
      if isPlain c || c == '\n' then multiLiteralRest (c :: passed) rest else none

/-- A string over several lines does not begin with the line ending behind its opening quotes. -/
def skipFirstNewline (t : Text) : Text :=
  (newline? t).getD t

def string? : Text → Option (Text × Text)
  | '"' :: '"' :: '"' :: t =>
    let t := skipFirstNewline t
    multiBasicRest (t.length + 1) [] t
  | '"' :: t => basicRest [] t
  | '\'' :: '\'' :: '\'' :: t => multiLiteralRest [] (skipFirstNewline t)
  | '\'' :: t => literalRest t
  | _ => none

def isBare (c : Char) : Bool :=
  c.isAlphanum || c == '_' || c == '-'

def keyPart? (t : Text) : Option (Text × Text) :=
  match t with
  | '"' :: rest => basicRest [] rest
  | '\'' :: rest => literalRest rest
  | t =>
    let key := t.takeWhile isBare
    if key.isEmpty then none else some (key, t.dropWhile isBare)

/-- The number of lists and tables that may lie within one another in a value, and of parts that a
    key may have. -/
def maxDepth : Nat :=
  79

/-- Reads a key of at least one part and at most the given number of them, separated by dots. -/
def key? : Nat → Text → Option (List Text × Text)
  | 0, _ => none
  | room + 1, t => do
    let (part, rest) ← keyPart? (skipIndent t)
    match skipIndent rest with
    | '.' :: rest =>
      let (parts, rest) ← key? room rest
      some (part :: parts, rest)
    | rest => some ([part], rest)

/-- Reads a run of digits in which single underscores may separate digits. -/
def digitRun (isDigit : Char → Bool) : Text → Text × Text
  | c :: '_' :: d :: t =>
    if isDigit c && isDigit d then
      let (run, rest) := digitRun isDigit (d :: t)
      (c :: run, rest)
    else if isDigit c then ([c], '_' :: d :: t)
    else ([], c :: '_' :: d :: t)
  | c :: t =>
    if isDigit c then
      let (run, rest) := digitRun isDigit t
      (c :: run, rest)
    else ([], c :: t)
  | [] => ([], [])

/-- The integer that digits stand for, if it fits into 64 bits with its sign. -/
def integer? (negative : Bool) (base : Nat) (digits : Text) : Option Node :=
  let n : Int := digits.foldl (fun n d => base * n + (Json.Source.hexValue? d).getD 0) 0
  let n := if negative then -n else n
  if Int64.minValue.toInt ≤ n && n ≤ Int64.maxValue.toInt then some (.integer n) else none

def exponent? : Text → Option (Int × Text)
  | c :: t =>
    if c = 'e' || c = 'E' then
      let (negative, t) :=
        match t with
        | '+' :: t => (false, t)
        | '-' :: t => (true, t)
        | t => (false, t)
      let (digits, rest) := digitRun Char.isDigit t
      let n : Int := Json.Literal.ofDigits digits
      if digits.isEmpty then none else some (if negative then -n else n, rest)
    else none
  | [] => none

/-- A float, which must not be greater than the largest double. -/
def float? (negative : Bool) (digits : Text) (exponent : Int) : Option Node :=
  if negative then some .other
  else (Binary64.ofDecimal? false (Json.Literal.ofDigits digits) exponent).map fun _ => .other

def based? (base : Nat) (isDigit : Char → Bool) (t : Text) : Option (Node × Text) := do
  let (digits, rest) := digitRun isDigit t
  if digits.isEmpty then none
  else
    let n ← integer? false base digits
    some (n, rest)

def decimal? (negative : Bool) (t : Text) : Option (Node × Text) := do
  let (digits, rest) :=
    match t with
    | '0' :: rest => (['0'], rest)
    | t => digitRun Char.isDigit t
  if digits.isEmpty then none
  else
    let fraction :=
      match rest with
      | '.' :: t =>
        let (places, t) := digitRun Char.isDigit t
        if places.isEmpty then none else some (places, t)
      | _ => none
    match fraction with
    | some (places, rest) =>
      let (exponent, rest) := (exponent? rest).getD (0, rest)
      let x ← float? negative (digits ++ places) (exponent - places.length)
      some (x, rest)
    | none =>
      match exponent? rest with
      | some (exponent, rest) =>
        let x ← float? negative digits exponent
        some (x, rest)
      | none =>
        let n ← integer? negative 10 digits
        some (n, rest)

def number? : Text → Option (Node × Text)
  | '+' :: 'i' :: 'n' :: 'f' :: t => some (.other, t)
  | '-' :: 'i' :: 'n' :: 'f' :: t => some (.other, t)
  | '+' :: 'n' :: 'a' :: 'n' :: t => some (.other, t)
  | '-' :: 'n' :: 'a' :: 'n' :: t => some (.other, t)
  | '+' :: t => decimal? false t
  | '-' :: t => decimal? true t
  | '0' :: 'x' :: t => based? 16 (fun c => (Json.Source.hexValue? c).isSome) t
  | '0' :: 'o' :: t => based? 8 (fun c => '0' ≤ c && c ≤ '7') t
  | '0' :: 'b' :: t => based? 2 (fun c => c == '0' || c == '1') t
  | t => decimal? false t

/-- Reads a number of exactly `count` digits that lies in the given bounds. -/
def fixed? (count low high : Nat) (t : Text) : Option (Nat × Text) :=
  let digits := t.take count
  let n := Json.Literal.ofDigits digits
  if digits.length = count && digits.all Char.isDigit && low ≤ n && n ≤ high then
    some (n, t.drop count)
  else none

/-- Drops a given character, which has to come. -/
def expect? (c : Char) : Text → Option Text
  | d :: t => if d = c then some t else none
  | [] => none

def daysOf (year month : Nat) : Nat :=
  if month = 2 then
    if year % 4 = 0 && (year % 100 != 0 || year % 400 = 0) then 29 else 28
  else if month = 4 || month = 6 || month = 9 || month = 11 then 30
  else 31

def date? (t : Text) : Option Text := do
  let (year, t) ← fixed? 4 0 9999 t
  let t ← expect? '-' t
  let (month, t) ← fixed? 2 1 12 t
  let t ← expect? '-' t
  let (_, t) ← fixed? 2 1 (daysOf year month) t
  some t

def time? (t : Text) : Option Text := do
  let (_, t) ← fixed? 2 0 23 t
  let t ← expect? ':' t
  let (_, t) ← fixed? 2 0 59 t
  let t ← expect? ':' t
  let (_, t) ← fixed? 2 0 60 t
  match t with
  | '.' :: places =>
    if (places.takeWhile Char.isDigit).isEmpty then some t
    else some (places.dropWhile Char.isDigit)
  | t => some t

/-- Reads the distance of a time from universal time, if it is given. -/
def offset (t : Text) : Text :=
  let signed (t : Text) : Option Text := do
    let (_, t) ← fixed? 2 0 23 t
    let t ← expect? ':' t
    let (_, t) ← fixed? 2 0 59 t
    some t
  match t with
  | 'Z' :: t => t
  | 'z' :: t => t
  | '+' :: rest => (signed rest).getD t
  | '-' :: rest => (signed rest).getD t
  | t => t

/-- Reads a date, a time or both. -/
def moment? (t : Text) : Option Text :=
  match date? t with
  | some rest =>
    match rest with
    | c :: rest' =>
      if c = 'T' || c = 't' || c = ' ' then
        match time? rest' with
        | some rest => some (offset rest)
        | none => some rest
      else some rest
    | [] => some []
  | none => time? t

/-- A date or a time: where a table is wanted, it is one with this single key. -/
def momentNode : Node :=
  .table [(some "$__toml_private_datetime".toList, .other)] true

def scalarValue? (t : Text) : Option (Node × Text) :=
  match t with
  | 't' :: 'r' :: 'u' :: 'e' :: rest => some (.other, rest)
  | 'f' :: 'a' :: 'l' :: 's' :: 'e' :: rest => some (.other, rest)
  | 'i' :: 'n' :: 'f' :: rest => some (.other, rest)
  | 'n' :: 'a' :: 'n' :: rest => some (.other, rest)
  | c :: _ =>
    if c = '"' || c = '\'' then (string? t).map fun (s, rest) => (.text s, rest)
    else
      match moment? t with
      | some rest => some (momentNode, rest)
      | none => number? t
  | [] => none

end ScenarioLint.Toml
