import ScenarioLint.Json.Source
import ScenarioLint.Settings.Basic

/-!
The endpoint that a scenario exercises, and how its URLs are qualified.
-/

namespace ScenarioLint

structure Endpoint where
  path : Text
  method : Text
  host : Option Text
  bodyExample : Option Json.Value

def isSchemeChar (c : Char) : Bool :=
  c.isAlphanum || c == '+' || c == '-' || c == '.'

/-- The text before the first `://` is a scheme. -/
def hasScheme (t : Text) : Bool :=
  match Text.splitOnce "://".toList t with
  | some (scheme, _) => !scheme.isEmpty && scheme.all isSchemeChar
  | none => false

namespace Endpoint

/-- The method in capitals without white space around it. -/
def methodUpper (e : Endpoint) : Text :=
  methodName e.method

/-- The host without white space around it and slashes at its end. -/
def hostText (e : Endpoint) : Option Text :=
  e.host.map fun host => (host.trim.reverse.dropWhile (· == '/')).reverse

/-- The host with a scheme, unless it is unknown or empty. -/
def baseUrl (e : Endpoint) : Option Text :=
  match e.hostText with
  | none => none
  | some [] => none
  | some host => some (if hasScheme host then host else "https://".toList ++ host)

/-- Puts the host in front of a value that has no scheme, if the host is known. -/
def qualify (e : Endpoint) (v : Text) : Text :=
  if hasScheme v then v
  else
    match e.baseUrl with
    | none => v
    | some base => if v.head? = some '/' then base ++ v else base ++ '/' :: v

def fullUrl (e : Endpoint) : Text :=
  e.qualify e.path

/-- The example of a request body, unless it is empty. -/
def body? (e : Endpoint) : Option Json.Value :=
  match e.bodyExample with
  | some .null => none
  | some (.object []) => none
  | some (.array []) => none
  | some (.string []) => none
  | body => body

end Endpoint

end ScenarioLint
