import ScenarioLint.Text

/-!
Placeholders: the tokens of a template that stand for variable parts of a line.

Each token has a fragment, the pattern text that takes its place in a compiled template.  Tokens are
matched exactly, and where several tokens start at one place the longest one counts.
-/

namespace ScenarioLint

/-- A token and the pattern text that takes its place. -/
structure Placeholder where
  token : Text
  fragment : Text
  deriving DecidableEq, Repr

namespace Placeholder

def identifier : Text := "[A-Za-z_][A-Za-z0-9_]*".toList

/-- The fragment of text without quotes and backslashes. -/
def unquoted : Text := "[^\"\\\\]+".toList

def quotable : Text := "[^\"]+".toList

/-- The fragment of a path into a JSON value. -/
def jsonPath : Text := "[A-Za-z0-9_\\.\\[\\]\\*]+".toList

def digits : Text := "\\d+".toList

def table : List Placeholder :=
  [⟨"<url>".toList, "\\S+".toList⟩,
   ⟨"<variable_name>".toList, identifier⟩,
   ⟨"<path>".toList, unquoted⟩,
   ⟨"<query_param_name>".toList, identifier⟩,
   ⟨"<query_param_value>".toList, unquoted⟩,
   ⟨"<path_param_name>".toList, identifier⟩,
   ⟨"<value>".toList, "[^ \\t\\r\\n]+".toList⟩,
   ⟨"<header_name>".toList, "[A-Za-z0-9\\-]+".toList⟩,
   ⟨"<header_value>".toList, unquoted⟩,
   ⟨"<integer_value>".toList, "[+-]?[0-9]+".toList⟩,
   ⟨"<float_value>".toList, "[+-]?(?:[0-9]+\\.[0-9]+|[0-9]+)".toList⟩,
   ⟨"<string_message>".toList, ".+?".toList⟩,
   ⟨"<Json_path>".toList, jsonPath⟩,
   ⟨"<jsonPath>".toList, jsonPath⟩,
   ⟨"<json_path>".toList, jsonPath⟩,
   ⟨"<JSON_path>".toList, jsonPath⟩,
   ⟨"<ArrayName>".toList, identifier⟩,
   ⟨"<AttributeName>".toList, identifier⟩,
   ⟨"<Variable>".toList, identifier⟩,
   ⟨"<variable1>".toList, identifier⟩,
   ⟨"<variable2>".toList, identifier⟩,
   ⟨"<String Value>".toList, quotable⟩,
   ⟨"<csv_file_path>".toList, unquoted⟩,
   ⟨"<excel_sheet_path>".toList, unquoted⟩,
   ⟨"<Json_file_path>".toList, unquoted⟩,
   ⟨"<feature_file_path>".toList, unquoted⟩,
   ⟨"<sheet_name>".toList, quotable⟩,
   ⟨"<classPath>".toList, quotable⟩,
   ⟨"<method>".toList, "(?:GET|POST|PUT|DELETE|PATCH|HEAD|OPTIONS)".toList⟩,
   ⟨"<method_name>".toList, identifier⟩,
   ⟨"<expectedType>".toList, "[A-Za-z]+".toList⟩,
   ⟨"<expected_status_code>".toList, "\\d\x7b3\x7d".toList⟩,
   ⟨"<path_parameter>".toList, unquoted⟩,
   ⟨"<authorization_type>".toList, "(?:Bearer|Basic|Digest|OAuth)".toList⟩,
   ⟨"<username_value>".toList, quotable⟩,
   ⟨"<password_value>".toList, quotable⟩,
   ⟨"<token_variable>".toList, identifier⟩,
   ⟨"<spreadsheet-id>".toList, quotable⟩,
   ⟨"<column_name>".toList, "[A-Za-z_][A-Za-z0-9_]+".toList⟩,
   ⟨"<column_index>".toList, digits⟩,
   ⟨"<row_index>".toList, digits⟩,
   ⟨"<new_value>".toList, unquoted⟩,
   ⟨"Milliseconds".toList, digits⟩]

def starts (p : Placeholder) (t : Text) : Bool :=
  p.token.isPrefixOf t

/-- The placeholder with the longest token that starts the text. -/
def at? (t : Text) : Option Placeholder :=
  table.foldl (fun best p =>
    if p.starts t && best.all (·.token.length < p.token.length) then some p else best) none

end Placeholder

end ScenarioLint
