/-
# From lexemes to a pattern tree

The lexemes are taken one by one into a stack of open groups.  Each open group
collects its finished branches and the pieces of the branch being read; a
closing parenthesis makes a piece of the whole group and hands it to the group
around it.

A piece remembers what a quantifier or a look-behind has to know about it: its
width, and whether it may be repeated.  Anchors may not, and neither may a
piece that a quantifier has already been applied to.
-/

import Highlight.Pattern.Lexeme

namespace Highlight
namespace Pattern

/-- What a quantifier finds in front of it. -/
inductive Repeatable where
  /-- It may be repeated. -/
  | yes
  /-- There is nothing in it to repeat. -/
  | nothing
  /-- It is repeated already. -/
  | already
  deriving DecidableEq, Repr

/-- A finished part of a branch. -/
structure Piece where
  tree : Tree
  width : Width
  repeatable : Repeatable := .yes

/-- What kind of group is open. -/
inductive Enclosure where
  | whole
  | plain
  | capture (index : Nat)
  | look (behind negated : Bool)
  | atomic
  | under (change : Change)
  | conditional (index : Nat)
  deriving DecidableEq, Repr

/-- An open group: where it opened, how many captures had opened before it,
its finished branches and the pieces of its last one, both latest first. -/
structure Group where
  enclosure : Enclosure
  start : Nat
  capturesBefore : Nat
  branches : List (Tree × Width) := []
  pieces : List Piece := []

namespace Group

/-- Adds a piece to the branch being read. -/
def push (g : Group) (p : Piece) : Group :=
  { g with pieces := p :: g.pieces }

/-- The branch being read, as one tree. -/
def branch (g : Group) : Tree × Width :=
  (Tree.sequence (g.pieces.reverse.map (·.tree)),
    g.pieces.foldr (fun p w => w.add p.width) {})

/-- Ends a branch and begins the next. -/
def nextBranch (g : Group) : Group :=
  { g with branches := g.branch :: g.branches, pieces := [] }

/-- All branches as one tree, the first one preferred. -/
def body (g : Group) : Tree × Width :=
  let all := (g.branch :: g.branches).reverse
  (Tree.choice (all.map (·.1)),
    match all.map (·.2) with
    | [] => {}
    | w :: ws => ws.foldl Width.join w)

/-- The two branches of a conditional group.  A second one that is missing
is empty. -/
def arms (g : Group) : (Tree × Width) × (Tree × Width) :=
  match (g.branch :: g.branches).reverse with
  | captured :: otherwise :: _ => (captured, otherwise)
  | [captured] => (captured, (.empty, {}))
  | [] => ((.empty, {}), (.empty, {}))

/-- Whether the group is a conditional one that has both its branches. -/
def isFull (g : Group) : Bool :=
  match g.enclosure with
  | .conditional _ => !g.branches.isEmpty
  | _ => false

/-- Whether the group is a look-behind. -/
def isLookbehind (g : Group) : Bool :=
  match g.enclosure with
  | .look behind _ => behind
  | _ => false

end Group

/-- A pattern being read: the innermost open group, the groups around it, the
number of captures opened, their names, the widths of those that are closed,
the captures that conditions ask about with the offsets where they do, the
flags given, and whether some look-behind turned out to vary in width. -/
structure Draft where
  current : Group
  outer : List Group := []
  captures : Nat := 0
  names : List (Text × Nat) := []
  closed : List (Nat × Width) := []
  conditions : List (Nat × Nat) := []
  flags : Flags := {}
  varying : Bool := false

namespace Draft

/-- The draft of a pattern of which nothing has been read. -/
def initial : Draft where
  current := { enclosure := .whole, start := 0, capturesBefore := 0 }

/-- Adds a piece to the innermost open group. -/
def push (d : Draft) (p : Piece) : Draft :=
  { d with current := d.current.push p }

/-- Opens a group. -/
def openGroup (d : Draft) (enclosure : Enclosure) (start : Nat) : Draft :=
  { d with
    current := { enclosure, start, capturesBefore := d.captures }
    outer := d.current :: d.outer }

/-- Opens the next capture, under a name that has not been used. -/
def openCapture (d : Draft) (name : Option Text) (start : Nat) : Except Error Draft :=
  let index := d.captures + 1
  let opened := { d.openGroup (.capture index) start with captures := index }
  match name with
  | none => .ok opened
  | some name =>
    match d.names.lookup name with
    | some earlier => .error ⟨.redefinedName name index earlier, some (start + 4)⟩
    | none => .ok { opened with names := (name, index) :: d.names }

/-- Closes the innermost group and hands it on as a piece. -/
def closeGroup (d : Draft) (start : Nat) : Except Error Draft :=
  match d.outer with
  | [] => .error ⟨.unbalancedParenthesis, some start⟩
  | around :: outer =>
    let (tree, width) := d.current.body
    let hand (p : Piece) : Draft := { d with current := around.push p, outer := outer }
    match d.current.enclosure with
    | .whole | .plain => .ok (hand ⟨tree, width, .yes⟩)
    | .capture index =>
      .ok { hand ⟨.group index tree, width, .yes⟩ with closed := (index, width) :: d.closed }
    | .atomic => .ok (hand ⟨.atomic tree, width, .yes⟩)
    | .under change => .ok (hand ⟨.under change tree, width, .yes⟩)
    | .conditional index =>
      let (captured, otherwise) := d.current.arms
      .ok (hand ⟨.conditional index captured.1 otherwise.1, captured.2.join otherwise.2, .yes⟩)
    | .look false negated => .ok (hand ⟨.look none negated tree, {}, .yes⟩)
    | .look true negated =>
      .ok { hand ⟨.look (some width.least) negated tree, {}, .yes⟩ with
        varying := d.varying || width.fixed?.isNone }

/-- Inside a look-behind, a capture that is referred to has to be closed, and
to have been opened before the outermost look-behind. -/
def checkReference (d : Draft) (index stop : Nat) : Except Error Unit :=
  match (d.current :: d.outer).reverse.find? (·.isLookbehind) with
  | none => .ok ()
  | some g =>
    if (d.closed.lookup index).isNone then .error ⟨.openReference, some stop⟩
    else if g.capturesBefore < index then .error ⟨.referenceInLookbehind, some stop⟩
    else .ok ()

/-- A reference to a capture, which has to be closed. -/
def refer (d : Draft) (index : Nat) (start stop : Nat) : Except Error Draft := do
  match d.closed.lookup index with
  | none => throw ⟨.openReference, some start⟩
  | some width =>
    d.checkReference index stop
    return d.push ⟨.reference index, width, .yes⟩

/-- Opens a conditional group.  A name has to be known; a number may belong to
a capture that opens later. -/
def openConditional (d : Draft) (condition : Condition) (start stop : Nat) :
    Except Error Draft := do
  let index ← match condition with
    | .numbered index => pure index
    | .named name =>
      match d.names.lookup name with
      | some index => pure index
      | none => throw ⟨.unknownName name, some (start + 3)⟩
  d.checkReference index stop
  return { d.openGroup (.conditional index) start with
    conditions := d.conditions ++ [(index, start + 3)] }

/-- Applies a quantifier to the last piece. -/
def quantify (d : Draft) (least : Nat) (most : Option Nat) (start : Nat) : Except Error Draft :=
  match d.current.pieces with
  | [] => .error ⟨.nothingToRepeat, some start⟩
  | p :: rest =>
    match p.repeatable with
    | .nothing => .error ⟨.nothingToRepeat, some start⟩
    | .already => .error ⟨.multipleRepeat, some start⟩
    | .yes =>
      let repeated : Piece :=
        ⟨.rep .greedy least most p.tree, p.width.times least most, .already⟩
      .ok { d with current := { d.current with pieces := repeated :: rest } }

/-- Changes the greed of the last piece, which a quantifier has just been
applied to. -/
def setGreed (d : Draft) (greed : Greed) : Draft :=
  match d.current.pieces with
  | ⟨.rep _ least most body, width, repeatable⟩ :: rest =>
    let changed : Piece := ⟨.rep greed least most body, width, repeatable⟩
    { d with current := { d.current with pieces := changed :: rest } }
  | _ => d

/-- Whether nothing but flags has been read. -/
def isUntouched (d : Draft) : Bool :=
  d.outer.isEmpty && d.current.branches.isEmpty && d.current.pieces.isEmpty

/-- Takes in one lexeme. -/
def add (d : Draft) (p : Placed) : Except Error Draft :=
  match p.lexeme with
  | .any => .ok (d.push ⟨.any, .one, .yes⟩)
  | .set s => .ok (d.push ⟨.set s, .one, .yes⟩)
  | .anchor a => .ok (d.push ⟨.anchor a, {}, .nothing⟩)
  | .reference index =>
    if index ≤ d.captures then d.refer index p.start p.stop
    else .error ⟨.invalidReference index, some (p.start + 1)⟩
  | .namedReference name =>
    match d.names.lookup name with
    | some index => d.refer index (p.start + 4) p.stop
    | none => .error ⟨.unknownName name, some (p.start + 4)⟩
  | .opening .plain => .ok (d.openGroup .plain p.start)
  | .opening (.capture name) => d.openCapture name p.start
  | .opening (.look behind negated) => .ok (d.openGroup (.look behind negated) p.start)
  | .opening .atomic => .ok (d.openGroup .atomic p.start)
  | .opening (.under change) => .ok (d.openGroup (.under change) p.start)
  | .opening (.conditional condition) => d.openConditional condition p.start p.stop
  | .flags on =>
    if d.isUntouched then .ok { d with flags := d.flags.change { on } }
    else .error ⟨.misplacedFlags, some p.start⟩
  | .skip => .ok d
  | .bar =>
    if d.current.isFull then .error ⟨.thirdBranch, some p.start⟩
    else .ok { d with current := d.current.nextBranch }
  | .close => d.closeGroup p.start
  | .quantifier least most => d.quantify least most p.start
  | .greed greed => .ok (d.setGreed greed)
  | .error e => .error e

/-- The tree of a pattern that has been read to its end. -/
def finish (d : Draft) : Except Error Tree :=
  if !d.outer.isEmpty then .error ⟨.unterminatedGroup, some d.current.start⟩
  else if let some (index, position) := d.conditions.find? (d.captures < ·.1) then
    .error ⟨.invalidReference index, some position⟩
  else if d.varying then .error ⟨.variableLookbehind, none⟩
  else .ok d.current.body.1

end Draft
end Pattern

/-- A compiled pattern: its source, the flags in force, the number of its
captures, and its tree. -/
structure Pattern where
  source : Text
  flags : Pattern.Flags := {}
  groups : Nat := 0
  tree : Pattern.Tree := .empty
  deriving DecidableEq, Repr

namespace Pattern

/-- Compiles a source.  The flags in force are those asked for and those that
the source opens with. -/
def compile (source : Text) (flags : Flags := {}) : Except Error Pattern := do
  let draft ← (lexemes source).foldlM Draft.add Draft.initial
  let tree ← draft.finish
  return { source, flags := flags.union draft.flags, groups := draft.captures, tree }

end Pattern
end Highlight
