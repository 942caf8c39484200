import ScenarioLint.Json.Value
import ScenarioLint.Policy.Basic

/-!
What a policy looks like from outside: as JSON, with sorted keys, and as text.
-/

namespace ScenarioLint

open Json (Value)
open Template (Rulebook Pattern)

def Template.Pattern.value (p : Pattern) : Value :=
  .present [("pattern", some (.string p.source)), ("template", some (.string p.template))]

namespace Policy

def rulebookValue (patterns : List Pattern) : Value :=
  .present
    [("patterns", some (.array (patterns.map Pattern.value))),
     ("templates", some (.array (patterns.map fun p => .string p.template)))]

def summary (p : Policy) : Value :=
  .present
    [("allowed_keywords",
        some (.array (p.settings.keywords.map fun keyword => .string keyword.word))),
     ("assertions", some (rulebookValue p.assertions)),
     ("fingerprint", some (.string p.fingerprintText)),
     ("steps", some (rulebookValue p.steps))]

def rulebookLines (rulebook : Rulebook) (patterns : List Pattern) : List Text :=
  (rulebook.name ++ " templates (".toList ++ Text.ofNat patterns.length ++ "):".toList) ::
    patterns.flatMap fun p => ["  ".toList ++ p.template, "    ".toList ++ p.source]

/-- The text that describes a policy. -/
def text (p : Policy) : Text :=
  let keywords := Text.join ", ".toList (p.settings.keywords.map Keyword.word)
  Text.unlines
    (["Policy ".toList ++ p.fingerprintText, "Allowed keywords: ".toList ++ keywords] ++
      rulebookLines .step p.steps ++ rulebookLines .assertion p.assertions)

end Policy

end ScenarioLint
