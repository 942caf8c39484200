import ScenarioLint.Yaml.Cursor

/-!
Block scalars: the lines behind a bar or a greater-than sign that are indented further than the
block around them.

Behind a bar every line ending stands for itself.  Behind a greater-than sign a single line ending
between two lines that begin with no further blank stands for a space.
-/

namespace ScenarioLint.Yaml

/-- Which line endings at the end of a block scalar belong to it. -/
inductive Chomping where
  | strip
  /-- The one that ends its last line. -/
  | clip
  | keep
  deriving DecidableEq, Repr

/-- What the first line of a block scalar says of the lines that follow. -/
structure BlockHeader where
  chomping : Chomping
  /-- How far they are indented, counted from the block around them, or zero if the first one that
      is not empty tells. -/
  further : Nat
  deriving DecidableEq, Repr

def chomping? (c : Cursor) : Option Chomping × Cursor :=
  if c.sees '+' then (some .keep, c.skip 1)
  else if c.sees '-' then (some .strip, c.skip 1)
  else (none, c)

def further (c : Cursor) : Nat × Cursor :=
  match c.head? with
  | some d => if d.isDigit then (d.toNat - '0'.toNat, c.skip 1) else (0, c)
  | none => (0, c)

/-- Reads the header behind the mark of a block scalar, with its two parts in either order. -/
def blockHeader? (c : Cursor) : Option (BlockHeader × Cursor) := do
  let (first, c) := chomping? c
  if c.sees '0' then none
  else
    let (further, c) := further c
    let (chomping, c) : Option Chomping × Cursor :=
      match first with
      | some chomping => (some chomping, c)
      | none => chomping? c
    some (⟨chomping.getD .clip, further⟩, ← c.nextLine?)

/-- Skips the indentation and the empty lines in front of a line: the indentation that counts, the
    line endings, the latest first, and the place behind.  While the indentation is not known yet
    and so given as zero, it is that of the widest line, but `least` at the least. -/
def blockGap? (least : Nat) : Nat → (indent widest : Nat) → Text → Cursor →
    Option (Nat × Text × Cursor)
  | 0, _, _, _, _ => none
  | fuel + 1, indent, widest, endings, c =>
    let spaces := (c.rest.takeWhile (· == ' ')).length
    let c := c.skip (if indent = 0 then spaces else min spaces (indent - c.column))
    let widest := max widest c.column
    if (indent = 0 || c.column < indent) && c.sees '\t' then none
    else if c.head?.any isBreak then
      let (e, c) := c.skipBreak
      blockGap? least fuel indent widest (e :: endings) c
    else some (if indent = 0 then max widest (max least 1) else indent, endings, c)

/-- Reads the lines of a block scalar behind `passed`, which is in reverse order.  The last of them
    ends with `ending` and begins with a further blank if `inset`, and `endings` are those of the
    empty lines behind it. -/
def blockLines? (literal : Bool) (chomping : Chomping) (indent : Nat) : Nat → (passed : Text) →
    (ending : Option Char) → (inset : Bool) → (endings : Text) → Cursor → Option (Text × Cursor)
  | 0, _, _, _, _, _ => none
  | fuel + 1, passed, ending, inset, endings, c =>
    match c.head? with
    | some d =>
      if c.column = indent then do
        let folds := !literal && ending == some '\n' && !inset && !isBlank d
        let joint :=
          if !folds then ending.toList
          else if endings.isEmpty then [' ']
          else []
        let (line, c) := c.takeWhile fun e => !isBreak e
        let (ending, c) : Option Char × Cursor :=
          if c.rest.isEmpty then (none, c) else (some c.skipBreak.1, c.skipBreak.2)
        let (_, later, c) ← blockGap? indent (c.rest.length + 1) indent 0 [] c
        blockLines? literal chomping indent fuel (line.reverse ++ endings ++ joint ++ passed) ending
          (isBlank d) later c
      else some (finished passed ending endings, c)
    | none => some (finished passed ending endings, c)
where
  finished (passed : Text) (ending : Option Char) (endings : Text) : Text :=
    match chomping with
    | .strip => passed.reverse
    | .clip => (ending.toList ++ passed).reverse
    | .keep => (endings ++ ending.toList ++ passed).reverse

/-- Reads a block scalar behind its mark, in a block whose lines are indented by less than
    `least`. -/
def block? (literal : Bool) (least : Nat) (c : Cursor) : Option (Text × Cursor) := do
  let (header, c) ← blockHeader? c
  let given := if header.further = 0 then 0 else least - 1 + header.further
  let (indent, endings, c) ← blockGap? least (c.rest.length + 1) given 0 [] c
  blockLines? literal header.chomping indent (c.rest.length + 1) [] none false endings c

end ScenarioLint.Yaml
