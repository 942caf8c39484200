import ScenarioLint.Unicode.Word
import ScenarioLint.Text

/-!
Cleaning up a line of a rulebook before it is compiled.

An enumeration such as `12. ` goes from the front, commentary behind ` - ` from the end, curly
quotes become straight, a leading `GIven` becomes `Given`, and every run of white space becomes one
space.
-/

namespace ScenarioLint.Template

/-- Drops a leading number with its mark and the white space behind it. -/
def dropEnumeration (line : Text) : Text :=
  match line.dropWhile isDigit with
  | mark :: rest =>
    if (line.takeWhile isDigit).isEmpty || !(mark == '.' || mark == ')' || mark == '-') then line
    else Text.trimStart rest
  | [] => line

/-- The text before the first dash that has white space on both sides. -/
def beforeCommentary (line : Text) : Text :=
  go [] line
where
  /-- Searches on, with the characters already passed in reverse order. -/
  go (passed : Text) : Text → Text
    | [] => passed.reverse
    | c :: rest =>
      match rest with
      | '-' :: d :: _ => if isSpace c && isSpace d then passed.reverse else go (c :: passed) rest
      | _ => go (c :: passed) rest

def straighten (c : Char) : Char :=
  if c = '\u201c' || c = '\u201d' then '"'
  else if c = '\u2018' || c = '\u2019' then '\''
  else c

/-- Corrects the spelling `GIven` of a first word. -/
def fixGiven (line : Text) : Text :=
  match Text.after? "GIven".toList line with
  | none => line
  | some [] => "Given".toList
  | some (c :: rest) => if isWord c then line else "Given".toList ++ c :: rest

def normalizeLine (raw : Text) : Text :=
  let line := (beforeCommentary (dropEnumeration (Text.trim raw))).trim
  Text.join [' '] (Text.words (fixGiven (line.map straighten)))

/-- A cleaned-up line holds no template if it is empty, a comment or a bullet note. -/
def isSkippable : Text → Bool
  | [] => true
  | c :: _ => c == '#' || c == '*'

end ScenarioLint.Template
