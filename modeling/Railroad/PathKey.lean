import Railroad.Text.Quoted

/-!
Addresses of occurrences: the chain of node ids from the root of a diagram down to one occurrence.

Such a chain has three forms.

* `Path` is the chain while it is built: its last node, with the chain above it.
* `PathKey` is the chain by its ids, which a track carries.
* `WrittenKey` is the text of the chain, as in `2-4-5`, which is kept and handed over.

A text is checked before it is taken for a key. The check is strict: each segment is a number in its
usual decimal form, at most `maxNodeId`, so that a chain of ids has one written form only. The ids
of a text that has been checked are then read leniently, by a traversal of its own that passes over
what it cannot read (`WrittenKey.ids`). Keys are ordered by their text.
-/

namespace Railroad

/-- Identity of one node of a grammar. -/
abbrev NodeId := Nat

/-- The largest id that a written key may hold. -/
def maxNodeId : NodeId := 4294967295

namespace NodeId

/-- A number without the plus sign in front of it, if there is one. -/
def unsigned : List Char → List Char
  | '+' :: digits => digits
  | digits => digits

/-- The id that a segment of a key is read as: digits, possibly after a plus sign. Zeros in front do
not matter. -/
def read? (segment : List Char) : Option NodeId :=
  let digits := unsigned segment
  let id := Nat.ofDigitChars 10 digits 0
  if digits ≠ [] ∧ digits.all Char.isDigit ∧ id ≤ maxNodeId then some id else none

/-- The segment consists of digits and has no needless zero in front. -/
def isUsual (segment : List Char) : Bool :=
  segment.all Char.isDigit && !(1 < segment.length && segment.head? = some '0')

end NodeId

/-- Why a text is no key. Segments are counted from 0. -/
inductive PathKeyError where
  | empty
  | emptySegment (index : Nat)
  | invalidSegment (index : Nat) (segment : String)
deriving DecidableEq, Repr

def PathKeyError.message : PathKeyError → String
  | .empty => "path key must not be empty"
  | .emptySegment index => s!"path key has an empty segment at position {index}"
  | .invalidSegment index segment =>
    s!"path key segment {index} is not a node id: " ++ Text.quoted segment ++ " (expected digits)"

/-- The text of a chain of ids. -/
structure WrittenKey where
  text : String
deriving DecidableEq, Repr

namespace WrittenKey

/-- The ids in decimal, joined by dashes. -/
def ofIds (ids : List NodeId) : WrittenKey :=
  ⟨"-".intercalate (ids.map Nat.repr)⟩

/-- What is wrong with the first segment that is no id, if there is one. The first segment of the
list has the given index. -/
def fault? (index : Nat) : List (List Char) → Option PathKeyError
  | [] => none
  | segment :: rest =>
    if segment.isEmpty then some (.emptySegment index)
    else if NodeId.isUsual segment && (NodeId.read? segment).isSome then fault? (index + 1) rest
    else some (.invalidSegment index (String.ofList segment))

/-- Checks a text, which is the key if nothing is wrong with it. -/
def ofString? (s : String) : Except PathKeyError WrittenKey :=
  if s.isEmpty then .error .empty
  else
    match fault? 0 (s.toList.splitOn '-') with
    | some error => .error error
    | none => .ok ⟨s⟩

/-- What stands between the dashes. -/
def segments (key : WrittenKey) : List (List Char) :=
  key.text.toList.splitOn '-'

/-- The number of segments; an empty text has none. -/
def depth (key : WrittenKey) : Nat :=
  if key.text.isEmpty then 0 else key.segments.length

/-- The ids that are read from the segments. A segment that is no id is passed over. -/
def ids (key : WrittenKey) : List NodeId :=
  (key.segments.filter fun segment => !segment.isEmpty).filterMap NodeId.read?

end WrittenKey

/-- A chain of node ids, root first. -/
structure PathKey where
  ids : List NodeId
deriving DecidableEq, Hashable, Repr, Inhabited

namespace PathKey

/-- The key as it is written. -/
def written (key : PathKey) : WrittenKey :=
  .ofIds key.ids

/-- The written form: the ids in decimal, joined by dashes. -/
def text (key : PathKey) : String :=
  key.written.text

instance : ToString PathKey := ⟨text⟩

/-- The number of ids on the chain. -/
def depth (key : PathKey) : Nat :=
  key.ids.length

/-- The chain longer by one id. -/
def push (key : PathKey) (id : NodeId) : PathKey :=
  ⟨key.ids ++ [id]⟩

/-- Checks a written key and reads its ids. -/
def ofString? (s : String) : Except PathKeyError PathKey :=
  (WrittenKey.ofString? s).map fun key => ⟨key.ids⟩

/-- Reads a list of written keys. The first one that is malformed is reported. -/
def listOfStrings? : List String → Except PathKeyError (List PathKey)
  | [] => .ok []
  | s :: rest => do
    let key ← ofString? s
    let keys ← listOfStrings? rest
    return key :: keys

/-- Drops each key that is followed by itself. -/
def dropRepeats : List PathKey → List PathKey
  | k :: l :: rest => if k = l then dropRepeats (l :: rest) else k :: dropRepeats (l :: rest)
  | keys => keys

/-- The distinct keys of a list, ascending by their text. Each text is written once. -/
def sorted (keys : List PathKey) : List PathKey :=
  let texts := keys.map fun k => (k.text, k)
  dropRepeats ((texts.mergeSort fun a b => decide (a.1 ≤ b.1)).map (·.2))

/-- The texts that are kept along do not change the order. -/
theorem sorted_eq (keys : List PathKey) :
    sorted keys = dropRepeats (keys.mergeSort fun k l => decide (k.text ≤ l.text)) := by
  have order : (keys.map fun k => (k.text, k)).mergeSort (fun a b => decide (a.1 ≤ b.1)) =
      (keys.mergeSort fun k l => decide (k.text ≤ l.text)).map fun k => (k.text, k) :=
    (List.map_mergeSort (f := fun k : PathKey => (k.text, k)) fun _ _ _ _ => rfl).symm
  simp [sorted, order, Function.comp_def]

end PathKey

/-- A chain of node ids from its last node upwards. Each step of a descent adds one node and leaves
the chain above as it is. -/
structure Path where
  /-- The chain above, if the node is not the root. -/
  parent : Option Path
  id : NodeId
  /-- The number of nodes, counted while the chain is built. -/
  depth : Nat

namespace Path

/-- The chain of the root alone. -/
def root (id : NodeId) : Path :=
  ⟨none, id, 1⟩

/-- The chain one node further down. -/
def push (path : Path) (id : NodeId) : Path :=
  ⟨some path, id, path.depth + 1⟩

/-- The ids from the last node up to the root. -/
def upward : Path → List NodeId
  | ⟨none, id, _⟩ => [id]
  | ⟨some parent, id, _⟩ => id :: parent.upward

/-- The ids, root first. -/
def ids (path : Path) : List NodeId :=
  path.upward.reverse

/-- The key of the last node. -/
def key (path : Path) : PathKey :=
  ⟨path.ids⟩

/-- The chain to a node that stands below the ids of `above`. -/
def along : (above : List NodeId) → NodeId → Path
  | [], id => root id
  | first :: rest, id => (rest.foldl push (root first)).push id

@[simp] theorem ids_root (id : NodeId) : (root id).ids = [id] := rfl

@[simp] theorem ids_push (path : Path) (id : NodeId) : (path.push id).ids = path.ids ++ [id] := by
  simp [ids, push, upward]

@[simp] theorem key_push (path : Path) (id : NodeId) : (path.push id).key = path.key.push id := by
  rw [key, ids_push, key, PathKey.push]

theorem ids_foldl_push (path : Path) (ids : List NodeId) :
    (ids.foldl push path).ids = path.ids ++ ids := by
  induction ids generalizing path with
  | nil => simp
  | cons id rest ih => rw [List.foldl_cons, ih, ids_push, List.append_assoc, List.singleton_append]

/-- The counter counts the nodes that are pushed. -/
theorem depth_foldl_push (path : Path) (ids : List NodeId) :
    (ids.foldl push path).depth = path.depth + ids.length := by
  induction ids generalizing path with
  | nil => rfl
  | cons id rest ih =>
    rw [List.foldl_cons, ih, push, List.length_cons, Nat.add_assoc, Nat.add_comm 1]

@[simp] theorem ids_along (above : List NodeId) (id : NodeId) :
    (along above id).ids = above ++ [id] := by
  cases above with
  | nil => rfl
  | cons first rest => rw [along, ids_push, ids_foldl_push, ids_root, List.singleton_append]

@[simp] theorem key_along (above : List NodeId) (id : NodeId) :
    (along above id).key = ⟨above ++ [id]⟩ :=
  congrArg PathKey.mk (ids_along above id)

/-- A descent by one more node. -/
theorem along_append (above : List NodeId) (id below : NodeId) :
    along (above ++ [id]) below = (along above id).push below := by
  cases above with
  | nil => rfl
  | cons first rest => rw [List.cons_append, along, List.foldl_append]; rfl

end Path

end Railroad
