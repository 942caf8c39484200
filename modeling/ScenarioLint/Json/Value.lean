import ScenarioLint.Json.Binary64

/-!
JSON values and their written forms.

The members of an object are written in the order in which the value lists them.
-/

namespace ScenarioLint.Json

inductive Number where
  | integer (n : Int)
  | real (x : Binary64)
  deriving DecidableEq, Repr

inductive Value where
  | null
  | bool (b : Bool)
  | number (n : Number)
  | string (t : Text)
  | array (items : List Value)
  | object (members : List (Text × Value))

def hexDigit (n : Nat) : Char :=
  (Nat.digitChar n)

def escape (c : Char) : Text :=
  if c = '"' then "\\\"".toList
  else if c = '\\' then "\\\\".toList
  else if c = '\x08' then "\\b".toList
  else if c = '\t' then "\\t".toList
  else if c = '\n' then "\\n".toList
  else if c = '\x0c' then "\\f".toList
  else if c = '\r' then "\\r".toList
  else if c.toNat < 32 then "\\u00".toList ++ [hexDigit (c.toNat / 16), hexDigit (c.toNat % 16)]
  else [c]

def quoted (t : Text) : Text :=
  '"' :: (t.flatMap escape ++ ['"'])

namespace Number

def written : Number → Text
  | integer (.ofNat n) => Text.ofNat n
  | integer (.negSucc n) => '-' :: Text.ofNat (n + 1)
  | real x => x.written

end Number

namespace Value

mutual

/-- The written form without any white space. -/
def compact : Value → Text
  | null => "null".toList
  | bool true => "true".toList
  | bool false => "false".toList
  | number n => n.written
  | string t => quoted t
  | array [] => "[]".toList
  | array (v :: rest) => '[' :: (v.compact ++ compactItems rest)
  | object [] => "\x7b\x7d".toList
  | object ((key, v) :: rest) =>
    '\x7b' :: (quoted key ++ ':' :: (v.compact ++ compactMembers rest))

/-- The items of an array after the first one, and its closing bracket. -/
def compactItems : List Value → Text
  | [] => [']']
  | v :: rest => ',' :: (v.compact ++ compactItems rest)

def compactMembers : List (Text × Value) → Text
  | [] => ['\x7d']
  | (key, v) :: rest => ',' :: (quoted key ++ ':' :: (v.compact ++ compactMembers rest))

end

/-- A line feed and two spaces for each level. -/
def newline (level : Nat) : Text :=
  '\n' :: List.replicate (2 * level) ' '

mutual

/-- The written form over several lines, indented by two spaces for each level. -/
def prettyAt (level : Nat) : Value → Text
  | null => "null".toList
  | bool true => "true".toList
  | bool false => "false".toList
  | number n => n.written
  | string t => quoted t
  | array [] => "[]".toList
  | array (v :: rest) =>
    '[' :: (newline (level + 1) ++ v.prettyAt (level + 1) ++ prettyItems level rest)
  | object [] => "\x7b\x7d".toList
  | object ((key, v) :: rest) =>
    '\x7b' :: (newline (level + 1) ++ quoted key ++ ": ".toList ++ v.prettyAt (level + 1) ++
      prettyMembers level rest)

def prettyItems (level : Nat) : List Value → Text
  | [] => newline level ++ [']']
  | v :: rest => ',' :: (newline (level + 1) ++ v.prettyAt (level + 1) ++ prettyItems level rest)

def prettyMembers (level : Nat) : List (Text × Value) → Text
  | [] => newline level ++ ['\x7d']
  | (key, v) :: rest =>
    ',' :: (newline (level + 1) ++ quoted key ++ ": ".toList ++ v.prettyAt (level + 1) ++
      prettyMembers level rest)

end

def pretty (v : Value) : Text :=
  v.prettyAt 0

def count (n : Nat) : Value :=
  .number (.integer n)

/-- The members of an object that are present. -/
def present (members : List (String × Option Value)) : Value :=
  .object (members.filterMap fun (key, v) => v.map (key.toList, ·))

end Value

end ScenarioLint.Json
