import Lvu.Data.Decimal
import Mathlib.Algebra.Group.Nat.Defs
import Mathlib.Data.List.Nodup

/-!
# The tree of a record

The values of a JSON record as Details and Fields draw them: rows that carry the path of their
value as a text, and the functions that read such a path again (`find`, `top_level_key`,
`json_path`).  A node is named by the positions that lead to it from the root, which say the same
as its index in the arena that the parser fills in this order; spans are left out, as no path
depends on them.
-/

namespace Lvu.App.JsonTree

open List

/-- What a scalar is. -/
inductive JsonKind
  | string
  | number
  | boolean
  | null
  deriving DecidableEq

/-- A value of the record. -/
inductive Node
  /-- Entries in document order: the decoded key and the value. -/
  | object (entries : List (List Char × Node))
  | array (items : List Node)
  | scalar (kind : JsonKind)

/-- One step of a path. -/
inductive Segment
  | key (key : List Char)
  | index (index : ℕ)
  deriving DecidableEq

/-- The positions that lead to a node. -/
abbrev NodeId := List ℕ

/-- The longest a container of a classified text is: no text has more tokens. -/
def MAX_JSON_TOKENS : ℕ := 2 * 1024

/-! ### Paths -/

/-- Whether a character is none that a path is cut at. -/
def isInner (c : Char) : Bool := c ≠ '.' && c ≠ '['

/-- The rest of a path behind a dot. -/
def stripDot : List Char → List Char
  | '.' :: rest => rest
  | rest => rest

/-- `str::parse::<usize>`. -/
def parseUsize (text : List Char) : Option ℕ :=
  (readNat (match text with | '+' :: digits => digits | digits => digits)).filter (· < 2 ^ 64)

theorem length_stripDot (rest : List Char) : (stripDot rest).length ≤ rest.length := by
  unfold stripDot
  split <;> simp

theorem length_behind_index (inner : List Char) (n : ℕ) :
    (stripDot (inner.drop (n + 1))).length < (('[' :: inner).length) := by
  have hle := length_stripDot (inner.drop (n + 1))
  simp only [length_drop, length_cons] at hle ⊢
  omega

theorem length_behind_key {c : Char} (cs : List Char) (hc : c ≠ '[') :
    (stripDot ((c :: cs).drop ((c :: cs).takeWhile isInner).length)).length < (c :: cs).length := by
  by_cases hdot : c = '.'
  · subst hdot
    simp [isInner, stripDot]
  · have hinner : isInner c = true := by simp [isInner, hdot, hc]
    have hle := length_stripDot ((c :: cs).drop ((c :: cs).takeWhile isInner).length)
    simp only [takeWhile_cons, hinner, if_true, length_cons, drop_succ_cons,
      length_drop] at hle ⊢
    omega

/-- The segments of a path. -/
def splitPath (path : List Char) : List Segment :=
  match path with
  | [] => []
  | c :: cs =>
    if c = '[' then
      ((parseUsize (cs.takeWhile (· ≠ ']'))).map Segment.index).toList ++
        splitPath (stripDot (cs.drop ((cs.takeWhile (· ≠ ']')).length + 1)))
    else
      .key ((c :: cs).takeWhile isInner) ::
        splitPath (stripDot ((c :: cs).drop ((c :: cs).takeWhile isInner).length))
termination_by path.length
decreasing_by
  · exact length_behind_index _ _
  · exact length_behind_key _ ‹_›

/-- The path of an entry. -/
def joinKey (base key : List Char) : List Char :=
  if base = [] then key else base ++ '.' :: key

/-- The top-level key a path descends from. -/
def topLevelKey (path : List Char) : List Char := path.takeWhile isInner

/-- The path below its top-level key, none for a top-level path. -/
def nestedSuffix (path : List Char) : Option (List Char) :=
  if (topLevelKey path).length < path.length then
    some ((path.drop (topLevelKey path).length).dropWhile (· = '.'))
  else none

/-- Whether a character may stand in a name at a place: a digit not at the first. -/
def isNameChar (first : Bool) (c : Char) : Bool := c = '_' || c.isAlpha || (!first && c.isDigit)

/-- Whether a key is spelled behind a dot. -/
def isPlain : List Char → Bool
  | [] => true
  | c :: cs => isNameChar true c && cs.all (isNameChar false)

/-- A segment in a JSONPath, none for a key that the syntax cannot spell. -/
def spell : Segment → Option (List Char)
  | .index index => some ('[' :: Nat.toDigits 10 index ++ [']'])
  | .key key =>
    if key = [] ∨ key.any (fun c => c = '\'' || c = '\\') = true then none
    else if isPlain key = true then some ('.' :: key)
    else some ('[' :: '\'' :: key ++ ['\'', ']'])

/-- The JSONPath that addresses a path inside its top-level member. -/
def jsonPath (path : List Char) : Option (List Char) :=
  (nestedSuffix path).bind fun suffix =>
    ((splitPath suffix).mapM spell).map fun spelled => '$' :: spelled.flatten

/-! ### Walking -/

/-- What a container holds, in order. -/
def Node.children : Node → List (Segment × Node)
  | .object entries => entries.map fun entry => (.key entry.1, entry.2)
  | .array items => items.zipIdx.map fun item => (.index item.2, item.1)
  | .scalar _ => []

/-- The child that a segment names: an object's first entry of that key, an array's item. -/
def Node.child : Node → Segment → Option (ℕ × Node)
  | .object entries, .key key =>
    (entries.zipIdx.find? fun entry => entry.1.1 = key).map fun entry => (entry.2, entry.1.2)
  | .array items, .index index => items[index]?.map fun item => (index, item)
  | _, _ => none

/-- One round of `find`. -/
def enter (at' : NodeId × Node) (segment : Segment) : Option (NodeId × Node) :=
  (at'.2.child segment).map fun child => (at'.1 ++ [child.1], child.2)

/-- The node at some segments. -/
def walk (root : Node) (segments : List Segment) : Option (NodeId × Node) :=
  segments.foldlM enter ([], root)

/-- The node at a display path. -/
def find (root : Node) (path : List Char) : Option NodeId :=
  (walk root (splitPath path)).map (·.1)

/-! ### Rows -/

/-- What a row shows. -/
inductive RowShape
  | container (expanded : Bool) (count : ℕ) (array : Bool)
  | scalar (kind : JsonKind)
  deriving DecidableEq

/-- One row of a flattened tree. -/
structure TreeRow where
  path : List Char
  depth : ℕ
  /-- The key, or the index in brackets. -/
  label : List Char
  node : NodeId
  shape : RowShape

def Segment.label : Segment → List Char
  | .key name => name
  | .index i => '[' :: Nat.toDigits 10 i ++ [']']

/-- The path of a child. -/
def childPath (base : List Char) : Segment → List Char
  | .key key => joinKey base key
  | .index index => base ++ '[' :: Nat.toDigits 10 index ++ [']']

def Node.shape (expanded : List Char → Bool) (path : List Char) : Node → RowShape
  | .object entries => .container (expanded path) entries.length false
  | .array items => .container (expanded path) items.length true
  | .scalar kind => .scalar kind

/-- Whether the children of a row are drawn. -/
def RowShape.isOpen : RowShape → Bool
  | .container expanded _ _ => expanded
  | .scalar _ => false

theorem Node.sizeOf_children {node : Node} {child : Segment × Node} (h : child ∈ node.children) :
    sizeOf child.2 < sizeOf node := by
  cases node with
  | object entries =>
    obtain ⟨entry, hentry, rfl⟩ := mem_map.1 h
    have hlt := sizeOf_lt_of_mem hentry
    rcases entry with ⟨key, child⟩
    simp only [Prod.mk.sizeOf_spec, Node.object.sizeOf_spec] at hlt ⊢
    omega
  | array items =>
    obtain ⟨item, hitem, rfl⟩ := mem_map.1 h
    have hlt := sizeOf_lt_of_mem (fst_mem_of_mem_zipIdx hitem)
    simp only [Node.array.sizeOf_spec]
    omega
  | scalar kind => cases h

/-- `push_children`: a row for each child, and behind it the rows of the child where it is open. -/
def pushChildren (expanded : List Char → Bool) (node : Node) (base : List Char) (depth : ℕ)
    (id : NodeId) : List TreeRow :=
  node.children.attach.zipIdx.flatMap fun entry =>
    let child := entry.1.1
    let path := childPath base child.1
    let shape := child.2.shape expanded path
    ⟨path, depth, child.1.label, id ++ [entry.2], shape⟩ ::
      if shape.isOpen then pushChildren expanded child.2 path (depth + 1) (id ++ [entry.2]) else []
termination_by node
decreasing_by exact Node.sizeOf_children entry.1.2

/-- The rows a viewer draws. -/
def rows (expanded : List Char → Bool) (root : Node) : List TreeRow :=
  pushChildren expanded root [] 0 []

/-! ### Selecting by a JSONPath -/

theorem length_drop_le (cs : List Char) (n : ℕ) : (cs.drop n).length < cs.length + 1 := by
  rw [length_drop]
  omega

/-- The steps of a JSONPath behind its root. -/
def readSteps (text : List Char) : Option (List Segment) :=
  match text with
  | [] => some []
  | '.' :: cs =>
    (readSteps (cs.drop (cs.takeWhile isInner).length)).map (.key (cs.takeWhile isInner) :: ·)
  | '[' :: cs =>
    if cs.head? = some '\'' then
      let name := cs.tail.takeWhile (· ≠ '\'')
      if (cs.tail.drop name.length).take 2 = ['\'', ']'] then
        (readSteps (cs.drop (name.length + 3))).map (.key name :: ·)
      else none
    else
      (readNat (cs.takeWhile (· ≠ ']'))).bind fun index =>
        (readSteps (cs.drop ((cs.takeWhile (· ≠ ']')).length + 1))).map (.index index :: ·)
  | _ => none
termination_by text.length
decreasing_by all_goals exact length_drop_le _ _

/-- The children of the nodes selected so far that a step names. -/
def visit (found : List (NodeId × Node)) (segment : Segment) : List (NodeId × Node) :=
  found.flatMap fun at' => (at'.2.children.zipIdx.filter fun child => child.1.1 = segment).map
    fun child => (at'.1 ++ [child.2], child.1.2)

/-- The nodes that some steps select. -/
def selectSteps (root : Node) (steps : List Segment) : List (NodeId × Node) :=
  steps.foldl visit [([], root)]

/-- The nodes that a JSONPath selects in a value.  The evaluator is no part of the program: this is
the documented meaning of a path of names and indices, where each step goes from every node reached
to its children of that key, or to its child at that index, and anything else selects nothing. -/
def select (value : Node) : List Char → List NodeId
  | '$' :: text => (readSteps text).elim [] fun steps => (selectSteps value steps).map (·.1)
  | _ => []

end Lvu.App.JsonTree
