import ScenarioLint.Policy.Digest
import ScenarioLint.Settings.Basic
import ScenarioLint.Template.Pattern

/-!
The policy that scenarios are checked against, and its fingerprint.
-/

namespace ScenarioLint

open Template (Rulebook Pattern)

/-- Two compiled rulebooks with the settings. -/
structure Policy where
  steps : List Pattern
  assertions : List Pattern
  settings : Settings
  deriving DecidableEq, Repr

namespace Policy

def rulebookPatterns (rulebook : Rulebook) (small : Text → Bool) : Option Text → List Pattern
  | some text => Template.patterns rulebook text small
  | none => []

/-- The policy of two rulebooks, each of which may be missing.  The patterns are those of which
    `small` accepts the source. -/
def compile (steps assertions : Option Text) (settings : Settings)
    (small : Text → Bool := Pattern.isSmall) : Policy :=
  ⟨rulebookPatterns .step small steps, rulebookPatterns .assertion small assertions, settings⟩

def ofRulebooks (steps assertions : Text) : Policy :=
  compile (some steps) (some assertions) .standard

def allows (p : Policy) (keyword : Keyword) : Bool :=
  p.settings.keywords.contains keyword

/-- The status codes that a method allows for a kind, of which there are none if it is
    unconstrained. -/
def allowedCodes (p : Policy) (method : Text) (kind : ScenarioKind) : List StatusCode :=
  p.settings.matrix.allowed method kind

def bytes (t : Text) : List UInt8 :=
  t.flatMap String.utf8EncodeChar

/-- Texts, each followed by a zero byte. -/
def terminated (ts : List Text) : List UInt8 :=
  ts.flatMap fun t => bytes t ++ [0]

/-- The bytes of a status code, the low one first. -/
def codeBytes (code : StatusCode) : List UInt8 :=
  [code.toUInt8, (code >>> 8).toUInt8]

def minimumBytes (n : UInt64) : List UInt8 :=
  (List.range 8).map fun i => (n >>> (8 * UInt64.ofNat i)).toUInt8

/-- The bytes that a policy's fingerprint is the digest of: everything that decides what the policy
    accepts. -/
def preimage (p : Policy) : List UInt8 :=
  terminated (p.settings.keywords.map Keyword.word) ++
    terminated ("steps".toList :: p.steps.map Pattern.source) ++
    terminated ("assertions".toList :: p.assertions.map Pattern.source) ++
    (p.settings.matrix.entries.flatMap fun (method, kind, codes) =>
      bytes method ++ bytes kind.name ++ codes.flatMap codeBytes ++ [0]) ++
    p.settings.targets.entries.flatMap fun (kind, minimum) =>
      bytes kind.name ++ minimumBytes minimum

def fingerprint (p : Policy) : List UInt8 :=
  Digest.ofBytes p.preimage

def fingerprintText (p : Policy) : Text :=
  Digest.hex p.fingerprint

/-- The first eight bytes of the fingerprint in hexadecimal digits. -/
def shortFingerprint (p : Policy) : Text :=
  Digest.hex (p.fingerprint.take 8)

end Policy

end ScenarioLint
