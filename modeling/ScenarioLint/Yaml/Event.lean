import ScenarioLint.Yaml.Token

/-!
The events of a YAML document: its values in the order of the text, with the starts and the ends of
lists and tables.

Where the tokens break off or a token stands in the wrong place, the events end.
-/

namespace ScenarioLint.Yaml

/-- What stands in front of a value: the anchor under which it can be referred to, and its tag. -/
structure Properties where
  anchor : Option Text
  tag : Option Name
  deriving DecidableEq, Repr

def Properties.none : Properties :=
  ⟨.none, .none⟩

inductive Event where
  | scalar (t : Text) (style : Style) (p : Properties)
  /-- The value at an anchor, once more. -/
  | reference (name : Text)
  | listStart (anchor : Option Text)
  | listEnd
  | tableStart (anchor : Option Text)
  | tableEnd
  deriving DecidableEq, Repr

namespace Event

/-- A value that is left out. -/
def empty : Event :=
  .scalar [] .plain .none

end Event

/-- What handles stand for.  Where one is listed twice, the first one counts. -/
abbrev Handles := List (Text × Name)

namespace Handles

def standard : Handles :=
  [("!".toList, nameOf ['!']), ("!!".toList, nameOf "tag:yaml.org,2002:".toList)]

/-- The name of a tag in full, unless its handle stands for nothing. -/
def resolve? (handles : Handles) (tag : Tag) : Option Name :=
  if tag.handle.isEmpty then some tag.suffix
  else (handles.lookup tag.handle).map (· ++ tag.suffix)

/-- Reads an anchor and a tag in either order, and gives the tokens behind them. -/
def properties? (handles : Handles) : List Token → Option (Properties × List Token)
  | .anchor name :: .tag tag :: rest => do some (⟨some name, some (← handles.resolve? tag)⟩, rest)
  | .anchor name :: rest => some (⟨some name, none⟩, rest)
  | .tag tag :: .anchor name :: rest => do some (⟨some name, some (← handles.resolve? tag)⟩, rest)
  | .tag tag :: rest => do some (⟨none, some (← handles.resolve? tag)⟩, rest)
  | rest => some (.none, rest)

end Handles

/-- The events so far, the latest first, and the tokens that are left unless the events end here. -/
abbrev Parsed := List Event × Option (List Token)

namespace Parsed

def stop (done : List Event) : Parsed :=
  (done, none)

def andThen (p : Parsed) (f : List Token → List Event → Parsed) : Parsed :=
  match p with
  | (done, some rest) => f rest done
  | (done, none) => stop done

end Parsed

/-- A value of which only an anchor or a tag is written. -/
def bare (p : Properties) (tokens : List Token) (done : List Event) : Parsed :=
  if tokens.isEmpty || p = .none then .stop done else (.scalar [] .plain p :: done, some tokens)

/-- A scalar behind its properties.  The mark of a tag alone is no tag. -/
def scalar (t : Text) (style : Style) (p : Properties) : Event :=
  .scalar t style { p with tag := p.tag.filter (· != nameOf ['!']) }

/-- The tokens of the next item or member of brackets or braces, behind the comma in front of it
    unless it is the first. -/
def separated? (closing : Token) (first : Bool) : List Token → Option (List Token)
  | [] => none
  | .comma :: rest => if first then some (.comma :: rest) else some rest
  | t :: rest => if first || t = closing then some (t :: rest) else none

section

variable (handles : Handles)

mutual

/-- Reads a value.  Inside a table a list may stand at the column of its key, without a block of its
    own. -/
def node (block indentless : Bool) : Nat → List Token → List Event → Parsed
  | 0, _, done => .stop done
  | _ + 1, .reference name :: rest, done => (.reference name :: done, some rest)
  | fuel + 1, tokens, done =>
    match handles.properties? tokens with
    | none => .stop done
    | some (p, tokens) =>
      match tokens with
      | .scalar t style :: rest => (scalar t style p :: done, some rest)
      | .flowList :: rest => flowItems fuel true rest (.listStart p.anchor :: done)
      | .flowTable :: rest => flowMembers fuel true rest (.tableStart p.anchor :: done)
      | .item :: _ =>
        if indentless then blockItems false fuel tokens (.listStart p.anchor :: done)
        else bare p tokens done
      | .blockList :: rest =>
        if block then blockItems true fuel rest (.listStart p.anchor :: done)
        else bare p tokens done
      | .blockTable :: rest =>
        if block then blockMembers fuel rest (.tableStart p.anchor :: done) else bare p tokens done
      | tokens => bare p tokens done

/-- Reads a value, or takes it as left out in front of one of the tokens `stops`. -/
def nodeBefore (stops : List Token) (block indentless : Bool) :
    Nat → List Token → List Event → Parsed
  | 0, _, done => .stop done
  | _ + 1, [], done => .stop done
  | fuel + 1, t :: rest, done =>
    if stops.contains t then (.empty :: done, some (t :: rest))
    else node block indentless fuel (t :: rest) done

/-- Reads the value of a key, which may be left out with its colon. -/
def behindColon (stops : List Token) (block : Bool) : Nat → List Token → List Event → Parsed
  | 0, _, done => .stop done
  | _ + 1, [], done => .stop done
  | fuel + 1, .colon :: rest, done => nodeBefore stops block block fuel rest done
  | _ + 1, tokens, done => (.empty :: done, some tokens)

/-- Reads the items of a list of lines.  A list with a block of its own is closed by the end of that
    block. -/
def blockItems (closing : Bool) : Nat → List Token → List Event → Parsed
  | 0, _, done => .stop done
  | fuel + 1, .item :: rest, done =>
    let stops := if closing then [.item, .blockEnd] else [.item, .key, .colon, .blockEnd]
    (nodeBefore stops true false fuel rest done).andThen (blockItems closing fuel)
  | _ + 1, .blockEnd :: rest, done =>
    (.listEnd :: done, some (if closing then rest else .blockEnd :: rest))
  | _ + 1, tokens, done =>
    if closing || tokens.isEmpty then .stop done else (.listEnd :: done, some tokens)

def blockMembers : Nat → List Token → List Event → Parsed
  | 0, _, done => .stop done
  | fuel + 1, .key :: rest, done =>
    let stops := [.key, .colon, .blockEnd]
    ((nodeBefore stops true true fuel rest done).andThen (behindColon stops true fuel)).andThen
      (blockMembers fuel)
  | _ + 1, .blockEnd :: rest, done => (.tableEnd :: done, some rest)
  | _ + 1, _, done => .stop done

/-- Reads the items in brackets.  An item may be a single member of a table without braces.  Where
    its key is left out, the token in front of which it is missing is passed over. -/
def flowItems : Nat → Bool → List Token → List Event → Parsed
  | 0, _, _, done => .stop done
  | fuel + 1, first, tokens, done =>
    match separated? .flowListEnd first tokens with
    | none => .stop done
    | some (.flowListEnd :: rest) => (.listEnd :: done, some rest)
    | some (.key :: rest) =>
      let done := .tableStart none :: done
      let key : Parsed :=
        match rest with
        | .colon :: rest | .comma :: rest | .flowListEnd :: rest => (.empty :: done, some rest)
        | rest => node false false fuel rest done
      (key.andThen (behindColon [.comma, .flowListEnd] false fuel)).andThen fun rest done =>
        flowItems fuel false rest (.tableEnd :: done)
    | some tokens => (node false false fuel tokens done).andThen (flowItems fuel false)

def flowMembers : Nat → Bool → List Token → List Event → Parsed
  | 0, _, _, done => .stop done
  | fuel + 1, first, tokens, done =>
    match separated? .flowTableEnd first tokens with
    | none => .stop done
    | some (.flowTableEnd :: rest) => (.tableEnd :: done, some rest)
    | some (.key :: rest) =>
      let key := nodeBefore [.colon, .comma, .flowTableEnd] false false fuel rest done
      (key.andThen (behindColon [.comma, .flowTableEnd] false fuel)).andThen
        (flowMembers fuel false)
    | some tokens =>
      (node false false fuel tokens done).andThen fun rest done =>
        if rest.isEmpty then .stop done else flowMembers fuel false rest (.empty :: done)

end

end

/-- Reads the directives in front of a document: one version at most, which must be 1.1 or 1.2, and
    handles, none of them twice. -/
def directives? (versioned : Bool) (handles : Handles) : List Token → Option (Handles × List Token)
  | .directive (.version major minor) :: rest =>
    if versioned || major != 1 || (minor != 1 && minor != 2) then none
    else directives? true handles rest
  | .directive (.handle handle start) :: rest =>
    if (handles.lookup handle).isSome then none
    else directives? versioned (handles ++ [(handle, start)]) rest
  | tokens => some (handles ++ .standard, tokens)

/-- A token behind the start of a document that leaves the document empty. -/
def endsContent : Token → Bool
  | .directive _ | .documentStart | .documentEnd | .streamEnd => true
  | _ => false

/-- Reads the value of a document, in front of which a mark must stand if there are directives. -/
def document (tokens : List Token) : Parsed :=
  let fuel := 4 * tokens.length + 4
  match directives? false [] tokens with
  | none => .stop []
  | some (handles, .documentStart :: t :: rest) =>
    if endsContent t then ([.empty], some (t :: rest))
    else node handles true false fuel (t :: rest) []
  | some (handles, rest) =>
    if rest.length = tokens.length then node handles true false fuel rest [] else .stop []

/-- The end of the first document, behind which no other one may follow. -/
def isEnd : List Token → Bool
  | [.streamEnd] => true
  | .documentEnd :: rest => isEnd rest
  | _ => false

/-- The events of the first document, and whether it is read to its end and nothing follows it. -/
def events (tokens : List Token) : List Event × Bool :=
  if tokens = [.streamEnd] then ([], true)
  else
    match document tokens with
    | (done, some rest) => (done.reverse, isEnd rest)
    | (done, none) => (done.reverse, false)

end ScenarioLint.Yaml
