import Inlay.Table
import Inlay.Yaml.Lexer
import Inlay.Yaml.Node

/-!
From tokens to the node of a document.

The collections under way are kept on a stack, the innermost in front. Each token either goes to
the innermost one or first completes it, where a node may be missing: between two entries, after a
key, before a value. There is at most one document in a stream.
-/

namespace Inlay.Yaml

/-- How far an entry of a mapping has come. -/
inductive Slot
  /-- Between two entries. -/
  | idle
  /-- In a flow mapping, where an entry may start. -/
  | vacant
  /-- The key was announced. -/
  | key
  /-- The key is there. -/
  | keyed (key : Node)
  /-- The value was announced. -/
  | value (key : Node)

/-- A collection under way, or the place of the root. -/
inductive Frame
  /-- The root, after a document marker or without one. -/
  | root (marked : Bool)
  /-- `awaiting` says whether an item was announced and is not there yet. -/
  | blockSequence (anchor : Option Nat) (items : List Node) (awaiting : Bool)
  /-- A block sequence that is not indented further than the mapping around it. -/
  | levelSequence (anchor : Option Nat) (items : List Node) (awaiting : Bool)
  | blockMapping (anchor : Option Nat) (entries : List (Node × Node)) (slot : Slot)
  | flowSequence (anchor : Option Nat) (items : List Node) (awaiting : Bool)
  /-- A single entry of a mapping as an item of a flow sequence. -/
  | pair (slot : Slot)
  | flowMapping (anchor : Option Nat) (entries : List (Node × Node)) (slot : Slot)
  /-- Properties of a node that is not there yet. -/
  | properties (name : Option (List Char)) (tag : Option (List Char))

/-- Which nodes may start at a place. -/
structure Place where
  block : Bool
  levelSequence : Bool

namespace Frame

/-- The place inside the collection, if a node is awaited there. -/
def place? : Frame → Option Place
  | root _ | blockSequence _ _ true | levelSequence _ _ true => some ⟨true, false⟩
  | blockMapping _ _ .key | blockMapping _ _ (.value _) => some ⟨true, true⟩
  | flowSequence _ _ true | pair .key | pair (.value _) => some ⟨false, false⟩
  | flowMapping _ _ .vacant | flowMapping _ _ .key | flowMapping _ _ (.value _) =>
    some ⟨false, false⟩
  | _ => none

end Frame

inductive Stage
  /-- Only directives so far; the flags say whether there were any, and one for a version. -/
  | before (declared versioned : Bool)
  | inside (frames : List Frame)
  /-- The root is there. -/
  | after (root : Node)
  /-- The stream has ended. -/
  | ended (root : Option Node)

/-- Gives a complete node to the innermost collection. -/
def give (n : Node) : List Frame → Option Stage
  | .root _ :: _ => some (.after n)
  | .blockSequence a items true :: fs =>
    some (.inside (.blockSequence a (items ++ [n]) false :: fs))
  | .levelSequence a items true :: fs =>
    some (.inside (.levelSequence a (items ++ [n]) false :: fs))
  | .flowSequence a items true :: fs => some (.inside (.flowSequence a (items ++ [n]) false :: fs))
  | .blockMapping a es .key :: fs => some (.inside (.blockMapping a es (.keyed n) :: fs))
  | .blockMapping a es (.value k) :: fs =>
    some (.inside (.blockMapping a (es ++ [(k, n)]) .idle :: fs))
  | .flowMapping a es .vacant :: fs =>
    some (.inside (.flowMapping a (es ++ [(n, .empty)]) .idle :: fs))
  | .flowMapping a es .key :: fs => some (.inside (.flowMapping a es (.keyed n) :: fs))
  | .flowMapping a es (.value k) :: fs =>
    some (.inside (.flowMapping a (es ++ [(k, n)]) .idle :: fs))
  | .pair .key :: fs => some (.inside (.pair (.keyed n) :: fs))
  | .pair (.value k) :: fs => give (.mapping none [(k, n)]) fs
  | _ => none

theorem length_of_give {n : Node} {fs gs : List Frame} (h : give n fs = some (.inside gs)) :
    gs.length ≤ fs.length := by
  induction fs generalizing n with
  | nil => simp [give] at h
  | cons f fs ih =>
    unfold give at h
    split at h <;> simp_all only [Option.some.injEq, Stage.inside.injEq, reduceCtorEq,
      List.cons.injEq]
    all_goals first
      | (obtain ⟨rfl, rfl⟩ := ‹_ ∧ _›; subst h; simp)
      | (obtain ⟨rfl, rfl⟩ := ‹_ ∧ _›; have := ih h; simp only [List.length_cons]; omega)

/-- What a token does to the innermost collection. -/
inductive Move
  /-- A node starts with the token. -/
  | node
  /-- The token is read. -/
  | stay (f : Frame)
  /-- The token is read and opens the second collection inside the first. -/
  | push (f inner : Frame)
  /-- The token is read and ends the collection. -/
  | close (n : Node)
  /-- The collection has ended, and the token belongs to what is around it. -/
  | pass (n : Node)
  | fail

/-- Fills in an empty node where the token shows that nothing is written. -/
def Frame.fill (t : Token) : Frame → Frame
  | blockSequence a items true =>
    match t with
    | .blockEntry | .blockEnd => blockSequence a (items ++ [.empty]) false
    | _ => blockSequence a items true
  | levelSequence a items true =>
    match t with
    | .blockEntry | .key | .value | .blockEnd => levelSequence a (items ++ [.empty]) false
    | _ => levelSequence a items true
  | blockMapping a es .key =>
    match t with
    | .value => blockMapping a es (.keyed .empty)
    | .key | .blockEnd => blockMapping a (es ++ [(.empty, .empty)]) .idle
    | _ => blockMapping a es .key
  | blockMapping a es (.keyed k) =>
    match t with
    | .value => blockMapping a es (.keyed k)
    | _ => blockMapping a (es ++ [(k, .empty)]) .idle
  | blockMapping a es (.value k) =>
    match t with
    | .key | .value | .blockEnd => blockMapping a (es ++ [(k, .empty)]) .idle
    | _ => blockMapping a es (.value k)
  | flowMapping a es .key =>
    match t with
    | .value => flowMapping a es (.keyed .empty)
    | .flowEntry | .flowMappingEnd => flowMapping a (es ++ [(.empty, .empty)]) .idle
    | _ => flowMapping a es .key
  | flowMapping a es (.keyed k) =>
    match t with
    | .value => flowMapping a es (.keyed k)
    | _ => flowMapping a (es ++ [(k, .empty)]) .idle
  | flowMapping a es (.value k) =>
    match t with
    | .flowEntry | .flowMappingEnd => flowMapping a (es ++ [(k, .empty)]) .idle
    | _ => flowMapping a es (.value k)
  | f => f

def Frame.move (t : Token) : Frame → Move
  | root marked =>
    match marked, t with
    | true, .versionDirective _ _ | true, .tagDirective _ _ | true, .documentStart
    | true, .documentEnd | true, .streamEnd => .pass .empty
    | _, _ => .node
  | blockSequence a items false =>
    match t with
    | .blockEntry => .stay (blockSequence a items true)
    | .blockEnd => .close (.sequence a items)
    | _ => .fail
  | levelSequence a items false =>
    match t with
    | .blockEntry => .stay (levelSequence a items true)
    | _ => .pass (.sequence a items)
  | blockMapping a es .idle =>
    match t with
    | .key => .stay (blockMapping a es .key)
    | .value => .fail
    | .blockEnd => .close (.mapping a es)
    | _ => .fail
  | blockMapping a es (.keyed k) => .stay (blockMapping a es (.value k))
  | flowSequence a items awaiting =>
    match awaiting, t with
    | false, .flowEntry => .stay (flowSequence a items true)
    | _, .flowSequenceEnd => .close (.sequence a items)
    | true, .key => .push (flowSequence a items true) (pair .key)
    | true, _ => .node
    | false, _ => .fail
  | pair .key =>
    match t with
    | .value | .flowEntry | .flowSequenceEnd => .stay (pair (.keyed .empty))
    | _ => .node
  | pair (.keyed k) =>
    match t with
    | .value => .stay (pair (.value k))
    | _ => .pass (.mapping none [(k, .empty)])
  | pair (.value k) =>
    match t with
    | .flowEntry | .flowSequenceEnd => .pass (.mapping none [(k, .empty)])
    | _ => .node
  | flowMapping a es .idle =>
    match t with
    | .flowEntry => .stay (flowMapping a es .vacant)
    | .flowMappingEnd => .close (.mapping a es)
    | _ => .fail
  | flowMapping a es .vacant =>
    match t with
    | .key => .stay (flowMapping a es .key)
    | .flowMappingEnd => .close (.mapping a es)
    | _ => .node
  | flowMapping a es (.keyed k) => .stay (flowMapping a es (.value k))
  | _ => .node

structure Builder where
  /-- The meanings of the tag handles that the document declares. -/
  handles : Table (List Char) (List Char)
  /-- The numbers of the anchors by their names. -/
  names : Table (List Char) Nat
  stage : Stage

namespace Builder

def new : Builder := ⟨∅, ∅, .before false false⟩

def goto (b : Builder) (s : Stage) : Builder := { b with stage := s }

/-- The number of a new anchor: how many names have been used so far. -/
def register (b : Builder) : Option (List Char) → Option Nat × Builder
  | none => (none, b)
  | some name => (some b.names.size, { b with names := b.names.insert name b.names.size })

def resolve? (b : Builder) (t : Tag) : Option (List Char) :=
  if t.handle = [] then some t.suffix
  else
    match b.handles.find? t.handle with
    | some meaning => some (meaning ++ t.suffix)
    | none =>
      if t.handle = ['!'] then some ('!' :: t.suffix)
      else if t.handle = ['!', '!'] then some ("tag:yaml.org,2002:".toList ++ t.suffix)
      else none

/-- The node or the collection that starts with a token. -/
def content? (place : Place) (anchor : Option Nat) (tag : Option (List Char)) :
    Token → Option (Node ⊕ Frame)
  | .scalar plain text =>
    some (.inl (.scalar anchor (if tag = some ['!'] then none else tag) plain text))
  | .flowSequenceStart => some (.inr (.flowSequence anchor [] true))
  | .flowMappingStart => some (.inr (.flowMapping anchor [] .vacant))
  | .blockSequenceStart =>
    if place.block then some (.inr (.blockSequence anchor [] false)) else none
  | .blockMappingStart => if place.block then some (.inr (.blockMapping anchor [] .idle)) else none
  | .blockEntry => if place.levelSequence then some (.inr (.levelSequence anchor [] true)) else none
  | _ => none

def node? (b : Builder) (fs : List Frame) (t : Token) : Option Builder :=
  match t with
  | .reference name => do
    let a ← b.names.find? name
    (give (.reference a) fs).map b.goto
  | .anchor name => some (b.goto (.inside (.properties (some name) none :: fs)))
  | .tag tag => (b.resolve? tag).map fun g => b.goto (.inside (.properties none (some g) :: fs))
  | t => do
    let place ← fs.head?.bind Frame.place?
    match ← content? place none none t with
    | .inl n => (give n fs).map b.goto
    | .inr f => pure (b.goto (.inside (f :: fs)))

def afterRoot? (b : Builder) (root : Node) : Token → Option Builder
  | .documentEnd => some (b.goto (.after root))
  | .streamEnd => some (b.goto (.ended (some root)))
  | _ => none

def inside? (b : Builder) (fs : List Frame) (t : Token) : Option Builder :=
  match fs with
  | [] => none
  | .properties name tag :: fs =>
    match name, tag, t with
    | none, some g, .anchor a => some (b.goto (.inside (.properties (some a) (some g) :: fs)))
    | some a, none, .tag g =>
      (b.resolve? g).map fun g => b.goto (.inside (.properties (some a) (some g) :: fs))
    | name, tag, t =>
      let (anchor, b) := b.register name
      match (fs.head?.bind Frame.place?).bind fun place => content? place anchor tag t with
      | some (.inl n) => (give n fs).map b.goto
      | some (.inr f) => some (b.goto (.inside (f :: fs)))
      | none =>
        match _h : give (.scalar anchor tag true []) fs with
        | some (.inside gs) => b.inside? gs t
        | some (.after root) => b.afterRoot? root t
        | _ => none
  | f :: fs =>
    let f := f.fill t
    match f.move t with
    | .node => b.node? (f :: fs) t
    | .stay g => some (b.goto (.inside (g :: fs)))
    | .push g inner => some (b.goto (.inside (inner :: g :: fs)))
    | .close n => (give n fs).map b.goto
    | .pass n =>
      match f with
      | .root _ => b.afterRoot? n t
      | _ =>
        match _h : give n fs with
        | some (.inside gs) => b.inside? gs t
        | some (.after root) => b.afterRoot? root t
        | _ => none
    | .fail => none
termination_by fs.length
decreasing_by
  all_goals
    have := length_of_give _h
    simp only [List.length_cons]
    omega

def feed? (b : Builder) (t : Token) : Option Builder :=
  match b.stage with
  | .before declared versioned =>
    match t with
    | .versionDirective major minor =>
      if versioned = false ∧ major = 1 ∧ (minor = 1 ∨ minor = 2) then
        some (b.goto (.before true true))
      else none
    | .tagDirective handle meaning =>
      if (b.handles.find? handle).isSome then none
      else
        some { b with
          handles := b.handles.insert handle meaning
          stage := .before true versioned }
    | .documentStart => some (b.goto (.inside [.root true]))
    | t =>
      if declared then none
      else if t = .streamEnd then some (b.goto (.ended none))
      else b.inside? [.root false] t
  | .inside fs => b.inside? fs t
  | .after root => b.afterRoot? root t
  | .ended _ => none

end Builder

/-- The root of the document that tokens make up; there is none in an empty stream. -/
def build? (ts : List Token) : Option (Option Node) :=
  (ts.foldlM Builder.feed? Builder.new).bind fun b =>
    match b.stage with
    | .ended root => some root
    | _ => none

/-- The root of the only document in a stream, if the stream is well formed. -/
def document? (cs : List Char) : Option (Option Node) :=
  (tokens? cs).bind build?

end Inlay.Yaml
