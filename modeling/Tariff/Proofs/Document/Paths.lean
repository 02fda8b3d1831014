import Tariff.Proofs.Document.Places
import Tariff.Proofs.Table
import Tariff.Proofs.Text.Digits

/-!
# Paths as addresses

The path by which messages name a node is a text: a key after each dot or at the start, and an
index in each pair of brackets. `Path.steps?` reads it that way, and `Node.find?` goes down the
tree by what it reads.

Keys are not quoted, so a key that is empty or has a dot or a bracket in it can make two paths
alike. In a document without such keys (`Value.HasPlainKeys`) the path of a node is an address:
it leads back to the node, and no other node has it (`Node.paths_identify_nodes`).

A tree is gone down by the numbers of a place and by steps at the same time (`Node.LeadsTo`), and
account is kept of what each step adds to the path (`Node.Shows.exists_leadsTo`).
-/

namespace Tariff

namespace Path

/-! ## Reading a path -/

/-- One step down in a tree: to the field of a key, or to the item at an index. -/
inductive Step where
  | field (key : String)
  | item (index : Nat)
  deriving DecidableEq

/-- Whether a character goes on a key: it is neither a dot nor a bracket. -/
def isKeyPart (c : Char) : Bool := c != '.' && c != '[' && c != ']'

/-- The steps that characters spell, each key after a dot and each index in brackets. -/
def spelled? (cs : List Char) : Option (List Step) :=
  match cs with
  | [] => some []
  | '.' :: rest =>
    let key := rest.takeWhile isKeyPart
    (spelled? (rest.dropWhile isKeyPart)).map (.field (String.ofList key) :: ·)
  | '[' :: rest =>
    let digits := rest.takeWhile Text.isAsciiDigit
    let after := rest.dropWhile Text.isAsciiDigit
    if digits ≠ [] ∧ after.head? = some ']' then
      (spelled? after.tail).map (.item (Text.digitsValue digits) :: ·)
    else none
  | _ => none
termination_by cs.length
decreasing_by
  · exact Nat.lt_succ_of_le (List.length_dropWhile_le isKeyPart rest)
  · have hle := List.length_dropWhile_le Text.isAsciiDigit rest
    rw [List.length_tail, List.length_cons]
    omega

/-- The characters of a path, with a dot before a key at the start as before every other. -/
def dotted (cs : List Char) : List Char :=
  if cs = [] ∨ cs.head? = some '[' then cs else '.' :: cs

/-- The steps that a path spells. -/
def steps? (path : String) : Option (List Step) := spelled? (dotted path.toList)

/-! ## Spelling steps -/

/-- Whether a key can be told apart in a path: it is not empty and has no dots or brackets. -/
def IsPlainKey (key : String) : Prop := key ≠ "" ∧ key.toList.all isKeyPart = true

instance (key : String) : Decidable (IsPlainKey key) :=
  inferInstanceAs (Decidable (key ≠ "" ∧ key.toList.all isKeyPart = true))

namespace Step

/-- The characters that a step adds to a path, with the dot before a key. -/
def chars : Step → List Char
  | .field key => '.' :: key.toList
  | .item index => '[' :: (Nat.toDigits 10 index ++ [']'])

/-- Whether the key of a step, if it has one, can be told apart. -/
def IsPlain : Step → Prop
  | .field key => IsPlainKey key
  | .item _ => True

end Step

variable {key : String} {steps : List Step} {cs rest : List Char}

/-- A key ends where the next step begins. -/
theorem isKeyPart_of_head_chars (steps : List Step) :
    ∀ c ∈ (steps.flatMap Step.chars).head?, isKeyPart c = false := by
  rcases steps with _ | ⟨key | index, rest⟩
  · exact nofun
  · rintro _ ⟨⟩
    rfl
  · rintro _ ⟨⟩
    rfl

theorem spelled?_field (hkey : IsPlainKey key) (hrest : ∀ c ∈ rest.head?, isKeyPart c = false) :
    spelled? ((Step.field key).chars ++ rest) = (spelled? rest).map (.field key :: ·) := by
  obtain ⟨htake, hdrop⟩ := Text.takeWhile_append (List.all_eq_true.1 hkey.2) hrest
  show spelled? ('.' :: (key.toList ++ rest)) = _
  rw [spelled?, htake, hdrop, String.ofList_toList]

theorem spelled?_item (index : Nat) (rest : List Char) :
    spelled? ((Step.item index).chars ++ rest) = (spelled? rest).map (.item index :: ·) := by
  have hclosing : ∀ c ∈ (']' :: rest).head?, Text.isAsciiDigit c = false := by
    rintro _ ⟨⟩
    rfl
  obtain ⟨htake, hdrop⟩ :=
    Text.takeWhile_append (fun _ => Text.isAsciiDigit_of_mem_toDigits (n := index)) hclosing
  have hchars : (Step.item index).chars ++ rest =
      '[' :: (Nat.toDigits 10 index ++ ']' :: rest) := by
    simp [Step.chars]
  rw [hchars, spelled?, htake, hdrop, if_pos ⟨Nat.toDigits_ne_nil, rfl⟩,
    Text.digitsValue_toDigits, List.tail_cons]

/-- Steps are read back from what they spell, if their keys can be told apart. -/
theorem spelled?_chars (h : ∀ step ∈ steps, step.IsPlain) :
    spelled? (steps.flatMap Step.chars) = some steps := by
  induction steps with
  | nil => rw [List.flatMap_nil, spelled?]
  | cons step rest ih =>
    obtain ⟨hstep, hrest⟩ := List.forall_mem_cons.1 h
    rw [List.flatMap_cons]
    cases step with
    | field key =>
      rw [spelled?_field hstep (isKeyPart_of_head_chars rest), ih hrest]
      rfl
    | item index =>
      rw [spelled?_item, ih hrest]
      rfl

example : steps? "tags[1].0" = some [.field "tags", .item 1, .field "0"] := by cbv

/-! ## What a step adds to a path -/

/-- What is added behind the start of a path does not change how it starts. -/
theorem dotted_append (h : cs ≠ []) (rest : List Char) :
    dotted (cs ++ rest) = dotted cs ++ rest := by
  have happend : cs ++ rest ≠ [] := List.append_ne_nil_of_left_ne_nil h rest
  rw [dotted, dotted, List.head?_append_of_ne_nil cs h]
  simp only [h, happend, false_or]
  split
  · rfl
  · rfl

/-- A key at the start is read as if a dot stood before it. -/
theorem dotted_key (h : IsPlainKey key) : dotted key.toList = '.' :: key.toList := by
  obtain ⟨hne, hparts⟩ := h
  refine if_neg (not_or_intro (fun hnil => hne (String.toList_eq_nil_iff.1 hnil)) fun hhead => ?_)
  have hbracket := List.all_eq_true.1 hparts '[' (List.mem_of_mem_head? hhead)
  cases hbracket

/-- The path of a field is that of the mapping and a step more. -/
theorem dotted_fieldPath (path : String) (h : IsPlainKey key) :
    dotted (Node.fieldPath path key).toList = dotted path.toList ++ (Step.field key).chars := by
  unfold Node.fieldPath
  split
  · next hpath =>
    -- The key of a field of the root stands alone, and is read with a dot all the same.
    rw [dotted_key h, hpath]
    rfl
  · next hpath =>
    have hne : path.toList ≠ [] := fun hnil => hpath (String.toList_eq_nil_iff.1 hnil)
    have hchars : (path ++ "." ++ key).toList = path.toList ++ (Step.field key).chars := by
      simp [Step.chars]
    rw [hchars, dotted_append hne]

/-- The path of an item is that of the sequence and a step more. -/
theorem dotted_itemPath (path : String) (index : Nat) :
    dotted (Node.itemPath path index).toList = dotted path.toList ++ (Step.item index).chars := by
  have hchars : (Node.itemPath path index).toList = path.toList ++ (Step.item index).chars := by
    simp [Node.itemPath, Step.chars, Nat.repr]
  rw [hchars]
  by_cases hne : path.toList = []
  · rw [hne]
    rfl
  · exact dotted_append hne _

end Path

/-- Whether all keys of a value, down to the last mapping in it, can be told apart: each is plain,
and no mapping has a key twice, as is the rule for mappings. -/
inductive Value.HasPlainKeys : Value → Prop where
  | null : HasPlainKeys .null
  | scalar (s : Scalar) : HasPlainKeys (.scalar s)
  | date (d : Date) : HasPlainKeys (.date d)
  | moment (m : Moment) : HasPlainKeys (.moment m)
  | bytes (content : List UInt8) : HasPlainKeys (.bytes content)
  | set (members : List Value) : HasPlainKeys (.set members)
  | foreign (typeName : String) : HasPlainKeys (.foreign typeName)
  | list {items : List Value} (h : ∀ v ∈ items, HasPlainKeys v) : HasPlainKeys (.list items)
  | tuple {items : List Value} (h : ∀ v ∈ items, HasPlainKeys v) : HasPlainKeys (.tuple items)
  | mapping {entries : List (Value × Value)} (hdistinct : (entries.map Prod.fst).Nodup)
      (hkeys : ∀ entry ∈ entries, ∀ key, entry.1 = .text key → Path.IsPlainKey key)
      (h : ∀ entry ∈ entries, HasPlainKeys entry.2) : HasPlainKeys (.mapping entries)

theorem Value.HasPlainKeys.item {v item : Value} {items : List Value} (h : v.HasPlainKeys)
    (hv : v = .list items ∨ v = .tuple items) (hitem : item ∈ items) : item.HasPlainKeys := by
  rcases hv with rfl | rfl
  · cases h with
    | list hitems => exact hitems item hitem
  · cases h with
    | tuple hitems => exact hitems item hitem

/-! ## Going down a tree -/

namespace Node

open Tariff.Path (Step)

/-- The node that a step leads to. -/
def step? : Node → Step → Option Node
  | node, .item index => node.item? index
  | .mapping _ fields, .field key => Table.get? fields key
  | _, .field _ => none

/-- The node that steps lead to, one after the other. -/
def follow? (node : Node) : List Step → Option Node
  | [] => some node
  | step :: rest => (node.step? step).bind fun child => child.follow? rest

/-- The node of a tree that a path leads to. -/
def find? (root : Node) (path : String) : Option Node := (Path.steps? path).bind root.follow?

/-- Whether a step leads from a node to the child of a number. -/
inductive StepsTo : Node → Step → Nat → Node → Prop
  | field (path : String) {fields : Table Node} {key : String} {index : Nat} {child : Node}
      (hnames : fields.names.Nodup) (hchild : fields[index]? = some (key, child)) :
      StepsTo (.mapping path fields) (.field key) index child
  | item (path : String) {items : List Node} {index : Nat} {child : Node}
      (hchild : items[index]? = some child) :
      StepsTo (.sequence path items) (.item index) index child

/-- Whether steps lead from a node to the node at a place under it. -/
inductive LeadsTo : Node → List Step → List Nat → Node → Prop
  | here (node : Node) : LeadsTo node [] [] node
  | down {node child found : Node} {step : Step} {index : Nat} {steps : List Step}
      {place : List Nat} (hstep : node.StepsTo step index child)
      (hrest : LeadsTo child steps place found) :
      LeadsTo node (step :: steps) (index :: place) found

section

variable {node child child' found found' : Node} {step : Step} {steps : List Step}
  {index index' : Nat} {place place' : List Nat}

theorem StepsTo.step?_eq (h : node.StepsTo step index child) : node.step? step = some child := by
  cases h with
  | field path hnames hchild =>
    exact (Table.get?_eq_some_iff hnames).2 (List.mem_of_getElem? hchild)
  | item path hchild => exact hchild

/-- A step leads to one child. -/
theorem StepsTo.unique (h : node.StepsTo step index child)
    (h' : node.StepsTo step index' child') : index = index' ∧ child = child' := by
  have hindex : index = index' := by
    -- Two fields of one key would be at one index, since no name occurs twice.
    cases h with
    | @field path fields key _ _ hnames hchild =>
      cases h' with
      | field _ _ hchild' =>
        have hname : fields.names[index]? = some key := by
          rw [Table.names, List.getElem?_map, hchild]
          rfl
        have hname' : fields.names[index']? = some key := by
          rw [Table.names, List.getElem?_map, hchild']
          rfl
        have hlt := (List.getElem?_eq_some_iff.1 hname).1
        exact (List.getElem?_inj hlt hnames).1 (hname.trans hname'.symm)
    | item path hchild =>
      cases h'
      rfl
  exact ⟨hindex, Option.some.inj (h.step?_eq.symm.trans h'.step?_eq)⟩

theorem LeadsTo.follow?_eq (h : node.LeadsTo steps place found) :
    node.follow? steps = some found := by
  induction h with
  | here node => rfl
  | down hstep _ ih => rw [follow?, hstep.step?_eq, Option.bind_some, ih]

/-- Steps lead to one place. -/
theorem LeadsTo.unique (h : node.LeadsTo steps place found)
    (h' : node.LeadsTo steps place' found') : place = place' := by
  induction h generalizing place' with
  | here node =>
    cases h'
    rfl
  | down hstep _ ih =>
    cases h' with
    | down hstep' hrest' =>
      obtain ⟨rfl, rfl⟩ := hstep.unique hstep'
      rw [ih hrest']

end

/-! ## The path of a place -/

variable {index : Nat} {node child found : Node} {v : Value} {place : List Nat}

/-- From a node a step leads to each child, and the path of the child goes on from that of the
node with the characters of the step. -/
theorem Shows.exists_step (h : node.Shows v) (hkeys : v.HasPlainKeys)
    (hchild : node.children[index]? = some child) :
    ∃ step w, node.StepsTo step index child ∧ step.IsPlain ∧
      Path.dotted child.path.toList = Path.dotted node.path.toList ++ step.chars ∧
      child.Shows w ∧ w.HasPlainKeys := by
  obtain ⟨depth, h⟩ := h
  -- What is built is told apart by cases, so its path has to be a variable.
  generalize node.path = path at h
  cases isBuiltOf_of_ofValueAt h with
  | null | scalar => cases hchild
  | sequence hv hnodes =>
    obtain ⟨inner, hinner, hmade⟩ := exists_getElem?_of_forall₂ (forall₂_of_itemsOf hnodes) hchild
    rw [List.getElem?_zipIdx, Nat.zero_add] at hinner
    obtain ⟨item, hitem, rfl⟩ := Option.map_eq_some_iff.1 hinner
    refine ⟨.item index, item, .item path hchild, trivial, ?_, shows_of_ofValueAt hmade,
      hkeys.item hv (List.mem_of_getElem? hitem)⟩
    rw [path_of_ofValueAt hmade]
    exact Path.dotted_itemPath path index
  | @mapping entries fields hfields =>
    have hmatches := matches_of_fieldsOf hfields
    have hnode : (fields.map Prod.snd)[index]? = some child := hchild
    rw [List.getElem?_map] at hnode
    obtain ⟨⟨key, child⟩, hfield, rfl⟩ := Option.map_eq_some_iff.1 hnode
    obtain ⟨⟨_, w⟩, hentry, rfl, hmade⟩ := exists_getElem?_of_forall₂ hmatches hfield
    have hmem := List.mem_of_getElem? hentry
    cases hkeys with
    | mapping hdistinct hplain hinner =>
      have hkey := hplain _ hmem key rfl
      rw [hmatches.names] at hdistinct
      refine ⟨.field key, w, .field path (List.Nodup.of_map _ hdistinct) hfield, hkey, ?_,
        shows_of_ofValueAt hmade, hinner _ hmem⟩
      rw [path_of_ofValueAt hmade]
      exact Path.dotted_fieldPath path hkey

/-- Steps lead from a node to the node at each place under it, whose path goes on from that of
the first with the characters of the steps. -/
theorem Shows.exists_leadsTo (h : node.Shows v) (hkeys : v.HasPlainKeys)
    (hfound : node.at? place = some found) :
    ∃ steps, node.LeadsTo steps place found ∧ (∀ step ∈ steps, step.IsPlain) ∧
      Path.dotted found.path.toList =
        Path.dotted node.path.toList ++ steps.flatMap Step.chars := by
  induction place generalizing node v with
  | nil =>
    cases hfound
    exact ⟨[], .here _, nofun, (List.append_nil _).symm⟩
  | cons index rest ih =>
    obtain ⟨child, hchild, hrest⟩ := Option.bind_eq_some_iff.1 hfound
    obtain ⟨step, w, hstep, hplain, hpath, hshows, hinner⟩ := h.exists_step hkeys hchild
    obtain ⟨steps, hsteps, hall, hpaths⟩ := ih hshows hinner hrest
    refine ⟨step :: steps, .down hstep hsteps, List.forall_mem_cons.2 ⟨hplain, hall⟩, ?_⟩
    rw [hpaths, hpath, List.append_assoc, List.flatMap_cons]

section

variable {root found' : Node} {place' : List Nat}
  (h : ofValue v = .ok root) (hkeys : v.HasPlainKeys)
include h hkeys

/-- The steps to a node of a document's tree are those that its path spells. -/
theorem exists_steps_of_ofValue (hfound : root.at? place = some found) :
    ∃ steps, root.LeadsTo steps place found ∧ Path.steps? found.path = some steps := by
  obtain ⟨steps, hsteps, hplain, hpath⟩ := (shows_of_ofValue h).exists_leadsTo hkeys hfound
  refine ⟨steps, hsteps, ?_⟩
  rw [Path.steps?, hpath, path_of_ofValueAt h]
  exact Path.spelled?_chars hplain

/-- Nodes of a document's tree with the same path are at the same place. -/
theorem place_eq_of_path_eq (hfound : root.at? place = some found)
    (hfound' : root.at? place' = some found') (hpath : found.path = found'.path) :
    place = place' := by
  obtain ⟨steps, hsteps, hread⟩ := exists_steps_of_ofValue h hkeys hfound
  obtain ⟨steps', hsteps', hread'⟩ := exists_steps_of_ofValue h hkeys hfound'
  rw [hpath] at hread
  cases hread.symm.trans hread'
  exact hsteps.unique hsteps'

end

/-- In the tree of a document whose keys can be told apart, reading the path of a node leads from
the root to that node; only the root has the empty path; and nodes at different places have
different paths. -/
theorem paths_identify_nodes {v : Value} {root : Node} (h : ofValue v = .ok root)
    (hkeys : v.HasPlainKeys) :
    (∀ place node, root.at? place = some node → root.find? node.path = some node) ∧
    (∀ place node, root.at? place = some node → (node.path = "" ↔ place = [])) ∧
    ∀ place place' node node', root.at? place = some node → root.at? place' = some node' →
      place ≠ place' → node.path ≠ node'.path := by
  have hroot : root.path = "" := path_of_ofValueAt h
  refine ⟨fun place node hnode => ?_, fun place node hnode => ⟨fun hempty => ?_, ?_⟩,
    fun place place' node node' hnode hnode' => mt (place_eq_of_path_eq h hkeys hnode hnode')⟩
  · obtain ⟨steps, hsteps, hread⟩ := exists_steps_of_ofValue h hkeys hnode
    rw [find?, hread, Option.bind_some, hsteps.follow?_eq]
  · exact place_eq_of_path_eq h hkeys hnode rfl (hempty.trans hroot.symm)
  · rintro rfl
    cases hnode
    exact hroot

/-- A document with sequences and mappings inside each other, and with keys that look like other
parts of a path. -/
def nestedDocument : Value :=
  .mapping [
    (.text "tags", .list [
      .text "a", .mapping [(.text "0", .null), (.text "tags", .tuple [.int 1])]]),
    (.text "0", .mapping [(.text "tags", .list [])])]

/-- The node in the middle of that document. -/
def nestedNode : Node :=
  .sequence "tags[1].tags" [.scalar "tags[1].tags[0]" (.number (.int 1))]

/-- The path of a node two keys and an index below the root leads back to it. -/
theorem paths_identify_nodes_nested :
    ∃ root, ofValue nestedDocument = .ok root ∧ nestedDocument.HasPlainKeys ∧
      root.at? [0, 1, 1] = some nestedNode ∧ root.find? "tags[1].tags" = some nestedNode ∧
      ∀ place node, root.at? place = some node → node.path = "tags[1].tags" →
        place = [0, 1, 1] := by
  have htags : Path.IsPlainKey "tags" := by decide
  have hzero : Path.IsPlainKey "0" := by decide
  have hinner : Value.HasPlainKeys
      (.mapping [(.text "0", .null), (.text "tags", .tuple [.int 1])]) := by
    refine .mapping (by simp) (by simp [htags, hzero]) ?_
    exact List.forall_mem_cons.2 ⟨.null,
      List.forall_mem_singleton.2 (.tuple (List.forall_mem_singleton.2 (.scalar _)))⟩
  have hkeys : nestedDocument.HasPlainKeys := by
    refine .mapping (by simp) (by simp [htags, hzero])
      (List.forall_mem_cons.2 ⟨.list ?_, List.forall_mem_singleton.2 ?_⟩)
    · exact List.forall_mem_cons.2 ⟨.scalar _, List.forall_mem_singleton.2 hinner⟩
    · refine .mapping (by simp) (by simp [htags]) ?_
      exact List.forall_mem_singleton.2 (.list (List.forall_mem_nil _))
  refine ⟨_, rfl, hkeys, rfl, ?_⟩
  obtain ⟨hfind, -, hdiffer⟩ := paths_identify_nodes rfl hkeys
  refine ⟨hfind [0, 1, 1] nestedNode rfl, fun place node hnode hpath => ?_⟩
  by_contra hne
  exact hdiffer place [0, 1, 1] node nestedNode hnode rfl hne hpath

-- A key with a dot in it reads as two keys.
example : fieldPath "" "a.b" = fieldPath (fieldPath "" "a") "b" := by decide

end Node

end Tariff
