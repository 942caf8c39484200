import ScenarioLint.Main
import ScenarioLint.Proofs.Endpoint
import ScenarioLint.Proofs.Text.Lines
import ScenarioLint.Proofs.Text.Search
import ScenarioLint.Proofs.Text.Space
import ScenarioLint.Proofs.Text.Words
import ScenarioLint.Session
import ScenarioLint.Settings.Change
import ScenarioLint.Proofs.Json.Pretty
import ScenarioLint.Proofs.Scenario.Docstring
import ScenarioLint.Proofs.Scenario.Phrase
import ScenarioLint.Proofs.Scenario.Qualified
import ScenarioLint.Proofs.Scenario.Inserted
import ScenarioLint.Proofs.Scenario.Settled
import ScenarioLint.Proofs.Scenario.Idempotence
import ScenarioLint.Proofs.Gherkin.Lead
import ScenarioLint.Proofs.Gherkin.Place
import ScenarioLint.Proofs.Gherkin.Leaf
import ScenarioLint.Proofs.Gherkin.Completeness
import ScenarioLint.Proofs.Gherkin.Rendering
import ScenarioLint.Proofs.Policy.Bytes
import ScenarioLint.Proofs.Regex.Reader
import ScenarioLint.Proofs.Settings.Matrix
import ScenarioLint.Proofs.Policy.Fingerprint
import ScenarioLint.Proofs.Regex.Search
import ScenarioLint.Proofs.Template.Line
import ScenarioLint.Proofs.Template.Meaning
import ScenarioLint.Proofs.Template.Segment
import ScenarioLint.Proofs.Template.Segmentation
import ScenarioLint.Proofs.Template.Compilation
import ScenarioLint.Proofs.Scenario.Preservation
import ScenarioLint.Proofs.Keyword
import ScenarioLint.Proofs.Check.Block
import ScenarioLint.Proofs.Scenario.Assertion
import ScenarioLint.Proofs.Gherkin.Stage
import ScenarioLint.Proofs.Gherkin.Walk
import ScenarioLint.Proofs.Gherkin.Accepted
import ScenarioLint.Proofs.Gherkin.Coverage
import ScenarioLint.Proofs.Gherkin.Insertion
import ScenarioLint.Proofs.Gherkin.Derivation
import ScenarioLint.Proofs.Gherkin.Reading
import ScenarioLint.Proofs.Gherkin.Exact
import ScenarioLint.Proofs.Gherkin.ExactBlock
import ScenarioLint.Proofs.Gherkin.Soundness
import ScenarioLint.Proofs.Gherkin.Rejection
import ScenarioLint.Proofs.Gherkin.Mode
import ScenarioLint.Proofs.Gherkin.StepPlace
import ScenarioLint.Proofs.Gherkin.Growth
import ScenarioLint.Proofs.Scenario.Sound
import ScenarioLint.Proofs.Scenario.Insertable
import ScenarioLint.Proofs.Scenario.Grammatical
import ScenarioLint.Proofs.Scenario.Output
import ScenarioLint.Proofs.Scenario.Origin
import ScenarioLint.Proofs.Scenario.RequestBody
import ScenarioLint.Proofs.Scenario.StepArgument
import ScenarioLint.Proofs.Check.Vocabulary
import ScenarioLint.Proofs.Check.Checklist
import ScenarioLint.Proofs.Pipeline.Order
import ScenarioLint.Proofs.Pipeline.Fault
import ScenarioLint.Proofs.Scenario.StatusPhrase
import ScenarioLint.Proofs.Scenario.StatusCode
import ScenarioLint.Proofs.Check.Status
import ScenarioLint.Proofs.Pipeline.Verdict
import ScenarioLint.Proofs.LineEnding
import ScenarioLint.Proofs.Gherkin.StepLine
import ScenarioLint.Proofs.Scenario.ThenCount
import ScenarioLint.Proofs.Json.Reading
import ScenarioLint.Proofs.Json.Decoding
import ScenarioLint.Proofs.Record
import ScenarioLint.Proofs.Pipeline.Repeat
import ScenarioLint.Proofs.Gherkin.Explained
import ScenarioLint.Proofs.Scenario.Recognition
import ScenarioLint.Proofs.Scenario.Shape
import ScenarioLint.Proofs.Scenario.Sending
import ScenarioLint.Proofs.Gherkin.Relaid
import ScenarioLint.Proofs.Gherkin.Layout
import ScenarioLint.Proofs.MethodName
import ScenarioLint.Proofs.Policy.ByteOrder
import ScenarioLint.Proofs.Settings.Store
import ScenarioLint.Proofs.Settings.Changes
import ScenarioLint.Proofs.Settings.Decoding
import ScenarioLint.Proofs.Settings.Merge
import ScenarioLint.Proofs.Json.Layout
import ScenarioLint.Proofs.Settings.RoundTrip
import ScenarioLint.Proofs.Report
import ScenarioLint.Proofs.Check.Strictness
import ScenarioLint.Proofs.Template.Cleaning
import ScenarioLint.Proofs.Template.Spacing
import ScenarioLint.Proofs.Template.Enumeration
import ScenarioLint.Proofs.Template.NormalForm
import ScenarioLint.Proofs.Template.Recognition
import ScenarioLint.Proofs.Check.Message
import ScenarioLint.Proofs.Pipeline.Building
import ScenarioLint.Proofs.Pipeline.Lines
import ScenarioLint.Proofs.Directory
import ScenarioLint.Proofs.Command
import ScenarioLint.Proofs.CommandLine
import ScenarioLint.Proofs.Session
