import ScenarioLint.Endpoint
import ScenarioLint.Keyword
import ScenarioLint.Scenario.Docstring
import ScenarioLint.Scenario.Phrase

/-!
Repairing a scenario into its canonical shape without touching what it asserts.

Lines of code fences are dropped.  The endpoint line is qualified with the host, or made.  If the
endpoint has a body example, a content type header and a request block are added where they lack,
and so is the line that sends the request.  Blank lines at both ends go.
-/

namespace ScenarioLint.Scenario

structure RepairOptions where
  contentType : Text
  /-- The indentation below a header if no step shows it. -/
  stepIndent : Text
  deriving DecidableEq, Repr

def RepairOptions.standard : RepairOptions :=
  ⟨"application/json".toList, "  ".toList⟩

/-- The leading keyword of a line outside docstrings. -/
def keywordIn (role : Role) (line : Text) : Option Keyword :=
  if role = .text then (Keyword.detect line).map Prod.fst else none

def keywords (lines : List Text) : List (Option Keyword) :=
  List.zipWith keywordIn (Role.scan lines) lines

def findText? (test : Text → Bool) (lines : List Text) : Option Nat :=
  ((Role.scan lines).zip lines).findIdx? fun (role, line) => role = .text && test line

/-- Puts a block of lines in front of the line with the given index, or at the end. -/
def insertAt (lines : List Text) (i : Nat) (block : List Text) : List Text :=
  lines.take i ++ block ++ lines.drop i

def isStep : Option Keyword → Bool
  | some keyword => !keyword.isHeader
  | none => false

/-- A keyword of the setup: everything but headers and assertions. -/
def isSetup : Option Keyword → Bool
  | some .given | some .when | some .and => true
  | _ => false

def lastIndex? {α : Type} (test : α → Bool) (xs : List α) : Option Nat :=
  (xs.reverse.findIdx? test).map fun i => xs.length - 1 - i

/-- The header under which new lines go: the first scenario header, or else the last header before
    any step. -/
def headerAt? (lines : List Text) : Option Nat :=
  let ks := keywords lines
  match ks.findIdx? (· = some .scenario) with
  | some i => some i
  | none => lastIndex? Option.isSome (ks.takeWhile fun k => !isStep k)

/-- The index of the first assertion, or the number of lines if there is none. -/
def firstThen (lines : List Text) : Nat :=
  (keywords lines).findIdx (· = some .then)

def leadOf (line : Text) : Text :=
  line.takeWhile isSpace

/-- The indentation of steps: that of the first step, or else one level below the header. -/
def stepIndentOf (options : RepairOptions) (lines : List Text) : Text :=
  match (keywords lines).findIdx? isStep with
  | some i => leadOf (lines.getD i [])
  | none =>
    match headerAt? lines with
    | some i => leadOf (lines.getD i []) ++ options.stepIndent
    | none => []

/-- The quote around a value, if there is one, and the value inside it. -/
def unquote (v : Text) : Text × Text :=
  match v with
  | q :: rest =>
    if (q = '"' || q = '\'') && rest.getLast? = some q then ([q], rest.dropLast) else ([], v)
  | [] => ([], [])

/-- An endpoint line with its value qualified, where the value is one word without its quotes. -/
def qualifyLine (e : Endpoint) (line : Text) : Text :=
  match endpointLine? line with
  | none => line
  | some parts =>
    let (quote, inner) := unquote parts.value
    if inner.isEmpty || inner.any isSpace then line
    else
      let qualified := e.qualify inner
      if qualified = inner then line else parts.lead ++ quote ++ qualified ++ quote

/-- A request block: a request step, or a docstring under a setup step before the first
    assertion. -/
def hasBodyBlock (lines : List Text) : Bool :=
  (findText? isRequestStep lines).isSome ||
    (((keywords lines).zip (Role.scan lines).tail).take (firstThen lines - 1)).any
      fun (keyword, next) => isSetup keyword && next = .opening

/-- The last line of the setup at or behind `start` and before the first assertion: a setup step, or
    the end of a docstring. -/
def lastSetupLine? (start : Nat) (lines : List Text) : Option Nat :=
  (lastIndex? (fun (keyword, role) => isSetup keyword || role = .closing)
    ((((keywords lines).zip (Role.scan lines)).take (firstThen lines)).drop start)).map (start + ·)

def withEndpoint (e : Endpoint) (indent : Text) (lines : List Text) : List Text × Nat :=
  match findText? (fun line => (endpointLine? line).isSome) lines with
  | some i => (lines.modify i (qualifyLine e), i)
  | none =>
    let i := (headerAt? lines).elim 0 (· + 1)
    (insertAt lines i [indent ++ "Given endpoint \"".toList ++ e.fullUrl ++ ['"']], i)

/-- The lines with a content type header, and the index of the line behind which a request block
    goes. -/
def withHeader (options : RepairOptions) (indent : Text) (endpointAt : Nat) (lines : List Text) :
    List Text × Nat :=
  if (findText? isContentTypeHeader lines).isSome then
    let next := endpointAt + 1
    if (Role.scan lines)[next]? = some .text && isContentTypeHeader (lines.getD next []) then
      (lines, next)
    else (lines, endpointAt)
  else
    (insertAt lines (endpointAt + 1)
      [indent ++ "And header Content-Type = '".toList ++ options.contentType ++ ['\'']],
      endpointAt + 1)

def requestBlock (indent : Text) (body : Json.Value) : List Text :=
  [indent ++ "And request".toList, indent ++ docstringMark] ++
    body.pretty.lines.map (indent ++ ·) ++ [indent ++ docstringMark]

/-- The lines with all that a request with a body needs. -/
def withRequest (options : RepairOptions) (e : Endpoint) (indent : Text) (endpointAt : Nat)
    (lines : List Text) : List Text :=
  match e.body? with
  | none => lines
  | some body =>
    let (lines, anchor) := withHeader options indent endpointAt lines
    if hasBodyBlock lines then lines
    else insertAt lines (anchor + 1) (requestBlock indent body)

def withExecution (e : Endpoint) (indent : Text) (endpointAt : Nat) (lines : List Text) :
    List Text :=
  if e.methodUpper.isEmpty || (findText? isExecutionLine lines).isSome then lines
  else
    let i := (lastSetupLine? endpointAt lines).getD endpointAt + 1
    insertAt lines i [indent ++ "When method ".toList ++ e.methodUpper]

/-- Drops the blank lines at both ends. -/
def trimLines (lines : List Text) : List Text :=
  let blank := Text.isBlank
  ((lines.dropWhile blank).reverse.dropWhile blank).reverse

def isFence (line : Text) : Bool :=
  "\x60\x60\x60".toList.isPrefixOf line.trimStart

def fencelessLines (text : Text) : List Text :=
  text.lines.filter fun line => !isFence line

/-- The lines of the canonical form, before the blank ones at both ends go. -/
def repairedLines (options : RepairOptions) (e : Endpoint) (lines : List Text) : List Text :=
  let indent := stepIndentOf options lines
  let (lines, endpointAt) := withEndpoint e indent lines
  withExecution e indent endpointAt (withRequest options e indent endpointAt lines)

/-- The canonical form of a scenario. -/
def repair (options : RepairOptions) (e : Endpoint) (text : Text) : Text :=
  Text.join ['\n'] (trimLines (repairedLines options e (fencelessLines text))) ++ ['\n']

end ScenarioLint.Scenario
