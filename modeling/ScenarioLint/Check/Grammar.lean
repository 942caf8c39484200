import ScenarioLint.Gherkin.Reader
import ScenarioLint.Issue

/-!
Checking that a scenario is a document of the grammar of feature files.
-/

namespace ScenarioLint.Check

def grammarIssue (context : Context) (e : Gherkin.ParseError) : Issue :=
  ⟨.grammar, some context, some e.line,
    "Gherkin parse error for ".toList ++ context.endpointText ++ " at L".toList ++
      Text.ofNat e.line ++ ": ".toList ++ e.message⟩

def grammar (text : Text) (context : Context) : List Issue :=
  match Gherkin.parse text with
  | .ok _ => []
  | .error e => [grammarIssue context e]

end ScenarioLint.Check
