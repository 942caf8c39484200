import ScenarioLint.Regex.Basic
import ScenarioLint.Unicode.Word

/-!
The phrases by which lines of a scenario are recognised: endpoint, execution, request, content type
and status.

Words count in any case.  Where a phrase has to end with a word, no character that would continue
the word may follow.
-/

namespace ScenarioLint.Scenario

/-- What follows a word in a text that starts with it in any case. -/
def afterWord? : (word t : Text) → Option Text
  | [], t => some t
  | _ :: _, [] => none
  | a :: word, c :: t => if foldCase c = foldCase a then afterWord? word t else none

def afterOneOf? (words : List Text) (t : Text) : Option Text :=
  words.findSome? (afterWord? · t)

/-- What follows white space, of which there has to be some. -/
def afterGap? : Text → Option Text
  | c :: t => if isSpace c then some (Text.trimStart t) else none
  | [] => none

def afterWords? : (words : List Text) → Text → Option Text
  | [], t => some t
  | [word], t => afterWord? word t
  | word :: words, t => do
    let t ← afterWord? word t
    let t ← afterGap? t
    afterWords? words t

/-- No word goes on at the start of the text. -/
def atWordEnd : Text → Bool
  | [] => true
  | c :: _ => !isWord c

/-- The parts of an endpoint line: everything in front of the value, and the value without the white
    space behind it. -/
structure EndpointLine where
  lead : Text
  value : Text
  deriving DecidableEq, Repr

/-- Reads an endpoint line, whose value has to lie on one line. -/
def endpointLine? (line : Text) : Option EndpointLine := do
  let t ← afterOneOf? ["Given".toList, "And".toList, "When".toList] line.trimStart
  let t ← afterGap? t
  let t ← afterOneOf? ["url".toList, "endpoint".toList] t
  let t ← afterGap? t
  let v := t.trimEnd
  if v.isEmpty || v.contains '\n' then none
  else some ⟨line.take (line.length - t.length), v⟩

/-- The line names the method with which the request is sent. -/
def isExecutionLine (line : Text) : Bool :=
  ((do
    let t ← afterOneOf? ["When".toList, "And".toList] line.trimStart
    let t ← afterGap? t
    let t ← afterWord? "method".toList t
    afterGap? t) : Option Text).any fun t => !t.isEmpty

/-- What follows the word of a setup step or a bullet, and the white space behind it. -/
def afterSetup? (line : Text) : Option Text := do
  let t ← afterOneOf? ["Given".toList, "When".toList, "And".toList, ['*']] line.trimStart
  afterGap? t

def isRequestStep (line : Text) : Bool :=
  ((afterSetup? line).bind (afterWord? "request".toList)).any atWordEnd

/-- The words `content-type` occur on the same line behind a word that has ended, and are whole
    words themselves.  `fresh` tells whether a word may begin at the start of the text. -/
def hasContentType (fresh : Bool) : Text → Bool
  | [] => false
  | c :: t =>
    (fresh && ((afterWord? "content-type".toList (c :: t)).any atWordEnd)) ||
      (c != '\n' && hasContentType (!isWord c) t)

def isContentTypeHeader (line : Text) : Bool :=
  match (afterSetup? line).bind (afterWord? "header".toList) with
  | none => false
  | some t =>
    (atWordEnd t && hasContentType true t) ||
      (afterWord? ['s'] t).any fun t => atWordEnd t && hasContentType true t

/-- The three digits that a status line asserts. -/
def statusDigits? (line : Text) : Option Text := do
  let t ← afterOneOf? ["Then".toList, "And".toList] line.trimStart
  let t ← afterGap? t
  let t ←
    match afterWord? "status".toList t with
    | some t => some t
    | none =>
      afterWords? ["response".toList, "status".toList, "should".toList, "be".toList] t
  let t ← afterGap? t
  let digits := t.take 3
  if digits.length = 3 && digits.all isDigit && atWordEnd (t.drop 3) then some digits else none

def decimal? (digits : Text) : Option Nat :=
  if digits.all Char.isDigit then
    some (digits.foldl (fun n d => 10 * n + (d.toNat - '0'.toNat)) 0)
  else none

/-- The status code that a line asserts, if its digits are ASCII. -/
def statusCode? (line : Text) : Option Nat :=
  (statusDigits? line).bind decimal?

end ScenarioLint.Scenario
