import ScenarioLint.Json.Value

/-!
JSON text as far as it can be read.

Reading never fails: where the text stops being JSON, the tree holds a break, and everything
before that place is in the tree.  So whoever decodes a tree from front to back meets its faults
in the order of the text.  Numbers are kept as they are written, because what they denote depends
on the use.
-/

namespace ScenarioLint.Json

/-- A number as it is written. -/
structure Literal where
  negative : Bool
  /-- The digits in front of the point. -/
  digits : Text
  /-- The digits behind the point, if it is written. -/
  places : Option Text
  /-- The power of ten that scales the digits, if it is written. -/
  exponent : Option Int
  deriving DecidableEq, Repr

/-- A value as it is written. -/
inductive Source where
  | null
  | bool (b : Bool)
  | number (n : Literal)
  | string (t : Text)
  /-- A string with half of a surrogate pair, which denotes no text. -/
  | unpaired
  /-- The items of an array, and whether its bracket is closed. -/
  | array (items : List Source) (closed : Bool)
  /-- The members of an object, and whether its brace is closed.  A key may denote no text. -/
  | object (members : List (Option Text × Source)) (closed : Bool)
  /-- The text is no JSON from here on. -/
  | broken

def isGap (c : Char) : Bool :=
  c == ' ' || c == '\n' || c == '\t' || c == '\r'

def skipGap (t : Text) : Text :=
  t.dropWhile isGap

namespace Literal

def ofDigits (ds : Text) : Nat :=
  ds.foldl (fun n d => 10 * n + (d.toNat - '0'.toNat)) 0

def readExponent (t : Text) : Option (Option Int × Text) :=
  match t with
  | c :: t =>
    if c = 'e' || c = 'E' then
      let (negative, t) :=
        match t with
        | '-' :: t => (true, t)
        | '+' :: t => (false, t)
        | t => (false, t)
      let ds := t.takeWhile Char.isDigit
      if ds.isEmpty then none
      else
        let n : Int := ofDigits ds
        some (some (if negative then -n else n), t.dropWhile Char.isDigit)
    else some (none, c :: t)
  | [] => some (none, [])

def readFraction (t : Text) : Option (Option Text × Text) :=
  match t with
  | '.' :: t =>
    let ds := t.takeWhile Char.isDigit
    if ds.isEmpty then none else some (some ds, t.dropWhile Char.isDigit)
  | t => some (none, t)

def readMagnitude (negative : Bool) (t : Text) : Option (Literal × Text) := do
  let ds := t.takeWhile Char.isDigit
  if ds.isEmpty || (1 < ds.length && ds.head? == some '0') then none
  else
    let (places, t) ← readFraction (t.dropWhile Char.isDigit)
    let (exponent, t) ← readExponent t
    some (⟨negative, ds, places, exponent⟩, t)

def read (t : Text) : Option (Literal × Text) :=
  match t with
  | '-' :: t => readMagnitude true t
  | t => readMagnitude false t

/-- The integer that a literal denotes, unless it has a point or an exponent or is a negative
    zero. -/
def integer? (n : Literal) : Option Int :=
  let k := ofDigits n.digits
  if n.places.isSome || n.exponent.isSome || (n.negative && k = 0) then none
  else some (if n.negative then -(k : Int) else k)

def natBelow? (n : Literal) (bound : Nat) : Option Nat :=
  match n.integer? with
  | some (.ofNat k) => if k < bound then some k else none
  | _ => none

/-- Goes on with digits as long as the number that they make fits into 64 bits: the number, and the
    digits that are left. -/
def collect (n : Nat) : Text → Nat × Text
  | [] => (n, [])
  | d :: ds =>
    let next := 10 * n + (d.toNat - '0'.toNat)
    if next < UInt64.size then collect next ds else (n, d :: ds)

/-- The double that a literal denotes, or none if it is too large.  As many digits are taken as fit
    into 64 bits; those that are left in front of the point count as zeros, and those behind it not
    at all.  What has been taken is scaled in double arithmetic, so that the result need not be the
    nearest double. -/
def real? (n : Literal) : Option Binary64 :=
  let (front, left) := collect 0 n.digits
  let places := n.places.getD []
  let (all, dropped) := collect front places
  let shift : Int := (left.length : Int) - (places.length - dropped.length : Nat)
  Binary64.ofScaled? n.negative all (shift + n.exponent.getD 0)

/-- The number that a literal denotes: an integer if it is written as one and fits into 64 bits, and
    otherwise a double. -/
def number? (n : Literal) : Option Number :=
  match n.integer? with
  | some k =>
    if Int64.minValue.toInt ≤ k && k < UInt64.size then some (.integer k)
    else n.real?.map .real
  | none => n.real?.map .real

end Literal

namespace Source

def hexValue? (c : Char) : Option Nat :=
  if c.isDigit then some (c.toNat - '0'.toNat)
  else if 'a' ≤ c && c ≤ 'f' then some (c.toNat - 'a'.toNat + 10)
  else if 'A' ≤ c && c ≤ 'F' then some (c.toNat - 'A'.toNat + 10)
  else none

def hexUnit? (a b c d : Char) : Option Nat := do
  let a ← hexValue? a
  let b ← hexValue? b
  let c ← hexValue? c
  let d ← hexValue? d
  some (((16 * a + b) * 16 + c) * 16 + d)

/-- The character that a single letter stands for after a backslash. -/
def shortEscape? (c : Char) : Option Char :=
  if c = '"' || c = '\\' || c = '/' then some c
  else if c = 'b' then some '\x08'
  else if c = 'f' then some '\x0c'
  else if c = 'n' then some '\n'
  else if c = 'r' then some '\r'
  else if c = 't' then some '\t'
  else none

/-- What precedes a place inside a string: the characters in reverse order, the first half of a
    surrogate pair that still lacks the second one, and whether all halves before it were paired. -/
structure Passed where
  chars : Text
  half : Option Nat
  paired : Bool

namespace Passed

def start : Passed :=
  ⟨[], none, true⟩

/-- Adds a character, which leaves a half that is still open unpaired. -/
def push (p : Passed) (c : Char) : Passed :=
  ⟨c :: p.chars, none, p.paired && p.half.isNone⟩

def pushUnit (p : Passed) (unit : Nat) : Passed :=
  if 0xD800 ≤ unit && unit < 0xDC00 then
    ⟨p.chars, some unit, p.paired && p.half.isNone⟩
  else if 0xDC00 ≤ unit && unit < 0xE000 then
    match p.half with
    | some high =>
      ⟨Char.ofNat (0x10000 + (high - 0xD800) * 0x400 + (unit - 0xDC00)) :: p.chars, none, p.paired⟩
    | none => ⟨p.chars, none, false⟩
  else p.push (Char.ofNat unit)

def text? (p : Passed) : Option Text :=
  if p.paired && p.half.isNone then some p.chars.reverse else none

end Passed

/-- Reads the rest of a string up to its closing quote. -/
def readString (p : Passed) : Text → Option (Option Text × Text)
  | [] => none
  | '"' :: rest => some (p.text?, rest)
  | '\\' :: 'u' :: a :: b :: c :: d :: rest =>
    match hexUnit? a b c d with
    | some unit => readString (p.pushUnit unit) rest
    | none => none
  | '\\' :: c :: rest =>
    match shortEscape? c with
    | some d => readString (p.push d) rest
    | none => none
  | c :: rest => if c.toNat < 32 then none else readString (p.push c) rest

mutual

/-- Reads a value, behind any white space, and gives the text that follows it. -/
def readValue : Nat → Text → Source × Text
  | 0, t => (broken, t)
  | fuel + 1, t =>
    match skipGap t with
    | [] => (broken, [])
    | '\x7b' :: t => readMembers fuel true t []
    | '[' :: t => readItems fuel true t []
    | '"' :: t =>
      match readString .start t with
      | some (some text, rest) => (string text, rest)
      | some (none, rest) => (unpaired, rest)
      | none => (broken, t)
    | 'n' :: 'u' :: 'l' :: 'l' :: t => (null, t)
    | 't' :: 'r' :: 'u' :: 'e' :: t => (bool true, t)
    | 'f' :: 'a' :: 'l' :: 's' :: 'e' :: t => (bool false, t)
    | t =>
      match Literal.read t with
      | some (n, rest) => (number n, rest)
      | none => (broken, t)

/-- Reads the items of an array, of which `done` have been read, in reverse order, and its closing
    bracket. -/
def readItems : Nat → Bool → Text → List Source → Source × Text
  | 0, _, t, done => (array done.reverse false, t)
  | fuel + 1, first, t, done =>
    match skipGap t with
    | ']' :: rest =>
      if first then (array [] true, rest) else (array (broken :: done).reverse false, rest)
    | t =>
      let (item, rest) := readValue fuel t
      let done := item :: done
      match skipGap rest with
      | ',' :: rest => readItems fuel false rest done
      | ']' :: rest => (array done.reverse true, rest)
      | rest => (array done.reverse false, rest)

def readMembers : Nat → Bool → Text → List (Option Text × Source) → Source × Text
  | 0, _, t, done => (object done.reverse false, t)
  | fuel + 1, first, t, done =>
    match skipGap t with
    | '\x7d' :: rest => if first then (object [] true, rest) else (object done.reverse false, rest)
    | '"' :: t =>
      match readString .start t with
      | none => (object done.reverse false, t)
      | some (key, rest) =>
        match skipGap rest with
        | ':' :: rest =>
          let (item, rest) := readValue fuel rest
          let done := (key, item) :: done
          match skipGap rest with
          | ',' :: rest => readMembers fuel false rest done
          | '\x7d' :: rest => (object done.reverse true, rest)
          | rest => (object done.reverse false, rest)
        | rest => (object ((key, broken) :: done).reverse false, rest)
    | t => (object done.reverse false, t)

end

mutual

/-- No break lies within the tree. -/
def isWhole : Source → Bool
  | broken => false
  | array items closed => closed && areWhole items
  | object members closed => closed && membersWhole members
  | _ => true

def areWhole : List Source → Bool
  | [] => true
  | v :: rest => v.isWhole && areWhole rest

def membersWhole : List (Option Text × Source) → Bool
  | [] => true
  | (_, v) :: rest => v.isWhole && membersWhole rest

end

end Source

/-- Inserts a member into an object whose keys are sorted, in place of a member with the same
    key. -/
def insertMember (key : Text) (v : Value) : List (Text × Value) → List (Text × Value)
  | [] => [(key, v)]
  | (other, w) :: rest =>
    if key = other then (key, v) :: rest
    else if key < other then (key, v) :: (other, w) :: rest
    else (other, w) :: insertMember key v rest

namespace Source

mutual

/-- The value that a tree denotes: keys are sorted, the last of several members with one key counts,
    and at most `depth` arrays and objects lie within one another. -/
def value? (depth : Nat) : Source → Option Value
  | null => some .null
  | bool b => some (.bool b)
  | number n => n.number?.map .number
  | string t => some (.string t)
  | unpaired => none
  | broken => none
  | array items closed =>
    if closed && 0 < depth then (values? (depth - 1) items).map .array else none
  | object members closed =>
    if closed && 0 < depth then (members? (depth - 1) members []).map .object else none

def values? (depth : Nat) : List Source → Option (List Value)
  | [] => some []
  | v :: rest =>
    match v.value? depth, values? depth rest with
    | some v, some rest => some (v :: rest)
    | _, _ => none

def members? (depth : Nat) : List (Option Text × Source) → List (Text × Value) →
    Option (List (Text × Value))
  | [], done => some done
  | (none, _) :: _, _ => none
  | (some key, v) :: rest, done =>
    match v.value? depth with
    | some v => members? depth rest (insertMember key v done)
    | none => none

end

end Source

/-- A JSON text: the tree of its value, and whether nothing but white space follows it. -/
structure Document where
  root : Source
  ended : Bool

namespace Document

def read (t : Text) : Document :=
  let (root, rest) := Source.readValue (2 * t.length + 2) t
  ⟨root, (skipGap rest).isEmpty⟩

def whole? (d : Document) : Option Source :=
  if d.ended && d.root.isWhole then some d.root else none

end Document

end ScenarioLint.Json
