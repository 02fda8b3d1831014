import Tariff.Error.Config

/-!
# The document tree

Before a document is read, it is turned into a tree of nodes. Every node has exactly
one kind and carries the dotted path by which messages name it: the key after a dot,
or alone at the top, for a field, and the number in brackets for an item of a
sequence. The root has the empty path and is called "document" in messages.

`ofValue` builds the tree and refuses what no document may hold: objects that are no
data, keys that are no texts, and values nested more than `maxDocumentDepth` levels
deep. It goes through the document in order, parents before their children, so the
error is that of the first offending element; at one element the depth is looked at
before the type, and a key before the value under it. Dates become their standard
text, so that no node is a date.

The accessors read a node in one particular shape, or fail with an error that names
the node and the shape it should have had.
-/

namespace Tariff

/-- A node of the document tree, with its path. -/
inductive Node where
  | null (path : String)
  | scalar (path : String) (value : Scalar)
  | sequence (path : String) (items : List Node)
  | mapping (path : String) (fields : List (String × Node))

namespace Node

/-- The path of the field of a mapping. -/
def fieldPath (path key : String) : String :=
  if path = "" then key else path ++ "." ++ key

/-- The path of the item of a sequence. -/
def itemPath (path : String) (index : Nat) : String :=
  path ++ "[" ++ toString index ++ "]"

/-- A path as messages show it. -/
def shownPath (path : String) : String := if path = "" then "document" else path

mutual

/-- The tree of a value at a path, that many levels below the root. -/
def ofValueAt (path : String) (depth : Nat) (v : Value) : Except (Refusal ConfigError) Node :=
  if maxDocumentDepth < depth then .error (.because (.tooDeep (shownPath path)))
  else
    match v with
    | .null => .ok (.null path)
    | .scalar s => .ok (.scalar path s)
    | .date d => .ok (.scalar path (.text d.text))
    | .moment m => .ok (.scalar path (.text m.isoText))
    | .list items => (itemsOf path (depth + 1) 0 items).map (.sequence path)
    | .tuple items => (itemsOf path (depth + 1) 0 items).map (.sequence path)
    | .mapping entries => (fieldsOf path (depth + 1) entries).map (.mapping path)
    | .bytes _ => .error (.because (.unsupportedType (shownPath path) v.kindName))
    | .set _ => .error (.because (.unsupportedType (shownPath path) v.kindName))
    | .foreign _ => .error (.because (.unsupportedType (shownPath path) v.kindName))

/-- The nodes of the items of a sequence, from an index on. -/
def itemsOf (path : String) (depth index : Nat) :
    List Value → Except (Refusal ConfigError) (List Node)
  | [] => .ok []
  | v :: rest => do
    let node ← ofValueAt (itemPath path index) depth v
    return node :: (← itemsOf path depth (index + 1) rest)

/-- The nodes of the fields of a mapping. -/
def fieldsOf (path : String) (depth : Nat) :
    List (Value × Value) → Except (Refusal ConfigError) (List (String × Node))
  | [] => .ok []
  | (.text key, v) :: rest => do
    let node ← ofValueAt (fieldPath path key) depth v
    return (key, node) :: (← fieldsOf path depth rest)
  | (key, _) :: _ =>
    -- The path of the error shows the key.
    .error (.showing key.isWritable
      (.typeMismatch (fieldPath path key.display) (key.kindName ++ " key") "text key"))

end

/-- The tree of a value. -/
def ofValue (v : Value) (path : String := "") : Except (Refusal ConfigError) Node :=
  ofValueAt path 0 v

/-- The path of a node. -/
def path : Node → String
  | .null path => path
  | .scalar path _ => path
  | .sequence path _ => path
  | .mapping path _ => path

/-- The path of a node as messages show it. -/
def displayPath (node : Node) : String := shownPath node.path

/-- The kind of a node. -/
def kind : Node → Kind
  | .null _ => .null
  | .scalar _ s => s.kind
  | .sequence _ _ => .sequence
  | .mapping _ _ => .mapping

/-- Whether a node is null. -/
def isNull : Node → Bool
  | .null _ => true
  | _ => false

/-- The error of a node that has not the expected shape. -/
def mismatch (node : Node) (expected : String) : ConfigError :=
  .typeMismatch node.displayPath node.kind.name expected

/-- The fields of a mapping. -/
def asMapping : Node → Except ConfigError (Table Node)
  | .mapping _ fields => .ok fields
  | node => .error (.notMapping node.displayPath node.kind.name)

/-- The text of a text node. -/
def asText : Node → Except ConfigError String
  | .scalar _ (.text s) => .ok s
  | node => .error (node.mismatch "text")

/-- The value of a boolean node. -/
def asBool : Node → Except ConfigError Bool
  | .scalar _ (.bool b) => .ok b
  | node => .error (node.mismatch "boolean")

/-- The texts of a sequence of text nodes. -/
def textList : Node → Except ConfigError (List String)
  | .sequence _ items => items.mapM asText
  | node => .error (node.mismatch "a sequence of text")

/-- The field of a mapping; a field that is null counts as absent. -/
def get? (node : Node) (key : String) : Except ConfigError (Option Node) := do
  let fields ← node.asMapping
  match Table.get? fields key with
  | some (.null _) => return none
  | child? => return child?

/-- The field of a mapping that has to be there. -/
def require (node : Node) (key : String) : Except ConfigError Node := do
  match ← node.get? key with
  | some child => return child
  | none => .error (.missing (fieldPath node.path key))

/-- An optional field, read by a function. -/
def optional {α : Type} (node : Node) (key : String) (read : Node → Except ConfigError α) :
    Except ConfigError (Option α) := do
  match ← node.get? key with
  | some child => return some (← read child)
  | none => return none

/-- An optional field, read by a function that can also meet an integer with too many
digits. -/
def optionalLifted {α : Type} (node : Node) (key : String)
    (read : Node → Except (Refusal ConfigError) α) : Except (Refusal ConfigError) (Option α) := do
  match ← Refusal.lift (node.get? key) with
  | some child => return some (← read child)
  | none => return none

/-- An item of a sequence. -/
def item? : Node → Nat → Option Node
  | .sequence _ items, index => items[index]?
  | _, _ => none

/-- An item of a sequence, the last one having the index zero. -/
def itemFromEnd? : Node → Nat → Option Node
  | .sequence _ items, index => items.reverse[index]?
  | _, _ => none

/-- Building a tree gives the root the path asked for. -/
theorem path_of_ofValueAt {p : String} {depth : Nat} {v : Value} {node : Node}
    (h : ofValueAt p depth v = .ok node) : node.path = p := by
  unfold ofValueAt at h
  split at h
  · cases h
  · split at h <;> first
      | (cases h; rfl)
      | (unfold Except.map at h; split at h <;> cases h; rfl)
      | cases h

end Node

end Tariff
