import Mathlib.Data.List.Forall2
import Tariff.Proofs.Document.Shown

/-!
# Places in a document

A document is a whole with parts: the items of a sequence and the entries of a mapping, which
have parts of their own. A place is the list of the numbers under which the parts are found on
the way from the whole. Its length is the number of levels below the root, and places in the
order of lists of numbers are in the order of the document: a whole comes before its parts, and
a part, with all that is in it, before the parts that follow it.

`Value.part?` finds the part of a document at a place, together with its path, the name that
messages use. `Node.at?` finds the node of a tree at a place. In the tree of a document the
node at a place is the tree of the part there (`Node.at?_of_ofValue`).
-/

namespace Tariff

/-! ## Parts of a document -/

/-- A part of a document. -/
structure Part where
  /-- The key of the part, if it is an entry of a mapping. -/
  key? : Option Value
  /-- The path by which messages name the part. -/
  path : String
  value : Value

namespace Part

/-- The parts that a part has itself, in their order. -/
def children (part : Part) : List Part :=
  match part.value with
  | .list items | .tuple items =>
    items.zipIdx.map fun item => ⟨none, Node.itemPath part.path item.2, item.1⟩
  | .mapping entries =>
    entries.map fun entry => ⟨some entry.1, Node.fieldPath part.path entry.1.display, entry.2⟩
  | _ => []

/-- The part at a place within a part. -/
def at? (part : Part) : List Nat → Option Part
  | [] => some part
  | index :: rest => part.children[index]?.bind fun child => child.at? rest

variable {part : Part}

theorem children_of_scalar {s : Scalar} (h : part.value.scalar? = some s) : part.children = [] := by
  obtain ⟨key?, path, v⟩ := part
  cases v with
  | list items | tuple items | mapping entries => cases h
  | _ => rfl

theorem children_of_sequence {items : List Value}
    (h : part.value = .list items ∨ part.value = .tuple items) :
    part.children =
      items.zipIdx.map fun item => ⟨none, Node.itemPath part.path item.2, item.1⟩ := by
  rcases h with h | h <;> rw [children, h]

end Part

/-- The part of a document at a place. -/
def Value.part? (document : Value) (place : List Nat) : Option Part :=
  Part.at? ⟨none, "", document⟩ place

/-! ## Nodes of a tree -/

namespace Node

/-- The nodes directly under a node, in their order. -/
def children : Node → List Node
  | .sequence _ items => items
  | .mapping _ fields => fields.map Prod.snd
  | _ => []

/-- The node at a place under a node. -/
def at? (node : Node) : List Nat → Option Node
  | [] => some node
  | index :: rest => node.children[index]?.bind fun child => child.at? rest

/-- A place under a node that is at a place. -/
theorem at?_append (root : Node) (place rest : List Nat) :
    root.at? (place ++ rest) = (root.at? place).bind fun node => node.at? rest := by
  induction place generalizing root with
  | nil => rfl
  | cons index place ih =>
    show (root.children[index]?.bind fun child => child.at? (place ++ rest)) =
      (root.children[index]?.bind fun child => child.at? place).bind fun node => node.at? rest
    rw [Option.bind_assoc]
    exact congrArg _ (funext fun child => ih child)

/-! ## The tree of a document -/

/-- Whether a node is the tree of a part that is so many levels below the root. -/
def IsTreeOf (depth : Nat) (node : Node) (part : Part) : Prop :=
  ofValueAt part.path depth part.value = .ok node

variable {depth : Nat} {node : Node} {part : Part}

theorem IsTreeOf.path_eq (h : node.IsTreeOf depth part) : node.path = part.path :=
  path_of_ofValueAt h

theorem IsTreeOf.shows (h : node.IsTreeOf depth part) : node.Shows part.value :=
  shows_of_ofValueAt h

/-- The nodes of the items of a sequence are the trees of the items, each at its index. -/
theorem isTreeOf_of_itemsOf {path : String} {index : Nat} {items : List Value}
    {nodes : List Node} (h : itemsOf path depth index items = .ok nodes) :
    List.Forall₂ (IsTreeOf depth) nodes
      ((items.zipIdx index).map fun item => ⟨none, itemPath path item.2, item.1⟩) :=
  List.forall₂_map_right_iff.2 (forall₂_of_itemsOf h)

/-- The fields of a mapping are the trees of its entries, each under its key. -/
theorem isTreeOf_of_matches {path : String} {entries : Fields} {fields : Table Node}
    (h : fields.Matches (fun name node v => ofValueAt (fieldPath path name) depth v = .ok node)
      entries) :
    List.Forall₂ (IsTreeOf depth) (fields.map Prod.snd)
      (entries.map fun entry => ⟨some entry.1, fieldPath path entry.1.display, entry.2⟩) := by
  induction h with
  | nil => exact .nil
  | @cons made entry fields entries hentry _ ih =>
    obtain ⟨key, v⟩ := entry
    obtain ⟨rfl, hmade⟩ := hentry
    exact .cons hmade ih

/-- The nodes under a node are the trees of the parts. -/
theorem IsTreeOf.children (h : node.IsTreeOf depth part) :
    List.Forall₂ (IsTreeOf (depth + 1)) node.children part.children := by
  obtain ⟨key?, path, v⟩ := part
  cases isBuiltOf_of_ofValueAt h with
  | null => exact .nil
  | scalar hs =>
    rw [Part.children_of_scalar hs]
    exact .nil
  | sequence hv hnodes =>
    rw [Part.children_of_sequence hv]
    exact isTreeOf_of_itemsOf hnodes
  | mapping hfields => exact isTreeOf_of_matches (matches_of_fieldsOf hfields)

/-- What stands at an index of two lists that are related is related. -/
theorem optionRel_getElem? {α β : Type} {R : α → β → Prop} {xs : List α} {ys : List β}
    (h : List.Forall₂ R xs ys) (index : Nat) : Option.Rel R xs[index]? ys[index]? := by
  induction h generalizing index with
  | nil => exact .none
  | cons hfirst _ ih =>
    cases index with
    | zero => exact .some hfirst
    | succ index => exact ih index

theorem exists_getElem?_of_forall₂ {α β : Type} {R : α → β → Prop} {xs : List α} {ys : List β}
    (h : List.Forall₂ R xs ys) {index : Nat} {x : α} (hx : xs[index]? = some x) :
    ∃ y, ys[index]? = some y ∧ R x y := by
  have hrel := optionRel_getElem? h index
  rw [hx] at hrel
  generalize ys[index]? = y? at hrel
  cases hrel with
  | some hxy => exact ⟨_, rfl, hxy⟩

/-- The node at a place of a tree is the tree of the part at that place. -/
theorem IsTreeOf.at? (h : node.IsTreeOf depth part) (place : List Nat) :
    Option.Rel (IsTreeOf (depth + place.length)) (node.at? place) (part.at? place) := by
  induction place generalizing depth node part with
  | nil => exact .some h
  | cons index rest ih =>
    have hchild := optionRel_getElem? h.children index
    have hlength : depth + (index :: rest).length = depth + 1 + rest.length := by
      rw [List.length_cons]
      omega
    rw [hlength, Node.at?, Part.at?]
    generalize node.children[index]? = child? at hchild ⊢
    generalize part.children[index]? = inner? at hchild ⊢
    cases hchild with
    | none => exact .none
    | some hchild => exact ih hchild

theorem at?_of_ofValue {document : Value} {root : Node} (h : ofValue document = .ok root)
    (place : List Nat) :
    Option.Rel (IsTreeOf place.length) (root.at? place) (document.part? place) := by
  have hroot : root.IsTreeOf 0 ⟨none, "", document⟩ := h
  rw [← Nat.zero_add place.length]
  exact hroot.at? place

end Node

end Tariff
