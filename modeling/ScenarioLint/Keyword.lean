import ScenarioLint.Text
import ScenarioLint.Unicode.Word

/-!
The seven keywords that may lead a line of a scenario.

A keyword is detected in any case, behind any white space, and only as a whole word: `Givenx` is no
keyword and `Scenario:` is one.
-/

namespace ScenarioLint

/-- A leading keyword, in the order in which keywords are listed and sorted. -/
inductive Keyword where
  | feature
  | background
  | scenario
  | given
  | when
  | then
  | and
  deriving DecidableEq, Repr, Inhabited

namespace Keyword

def all : List Keyword :=
  [feature, background, scenario, given, when, .then, and]

def word : Keyword → Text
  | feature => "Feature".toList
  | background => "Background".toList
  | scenario => "Scenario".toList
  | given => "Given".toList
  | when => "When".toList
  | .then => "Then".toList
  | and => "And".toList

def rank : Keyword → Nat
  | feature => 0
  | background => 1
  | scenario => 2
  | given => 3
  | when => 4
  | .then => 5
  | and => 6

/-- A header keyword opens a section, every other one a step. -/
def isHeader : Keyword → Bool
  | feature | background | scenario => true
  | given | when | .then | and => false

/-- No word goes on into the rest of the line. -/
def endsWord : Text → Bool
  | [] => true
  | c :: _ => !isAlphanumeric c && c != '_'

/-- What follows the keyword in a line that starts with it, in any case and as a whole word. -/
def rest? (keyword : Keyword) (line : Text) : Option Text :=
  let size := keyword.word.length
  if Text.alike (line.take size) keyword.word && endsWord (line.drop size) then
    some (line.drop size)
  else
    none

/-- The leading keyword of a line and the untrimmed text directly after it. -/
def detect (line : Text) : Option (Keyword × Text) :=
  all.findSome? fun keyword => (keyword.rest? line.trimStart).map (keyword, ·)

/-- The keyword that a text names, in any case and with any white space around it. -/
def named? (name : Text) : Option Keyword :=
  all.find? fun keyword => Text.alike keyword.word name.trim

def spelled? (name : Text) : Option Keyword :=
  all.find? fun keyword => keyword.word == name

end Keyword

structure UnknownKeyword where
  name : Text
  deriving DecidableEq, Repr

namespace UnknownKeyword

def message (e : UnknownKeyword) : Text :=
  "unknown keyword: '".toList ++ e.name ++ "'".toList

end UnknownKeyword

def Keyword.parse (name : Text) : Except UnknownKeyword Keyword :=
  match Keyword.named? name with
  | some keyword => .ok keyword
  | none => .error ⟨name⟩

end ScenarioLint
