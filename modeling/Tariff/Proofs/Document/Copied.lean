import Tariff.Proofs.Document.Dates
import Tariff.Proofs.Document.Places

/-!
# The tree as a copy of the document

A document has a tree exactly if it is made of data alone, with texts for keys and nothing more
than 32 levels below its root. The tree is then a copy of it: taking kinds and paths off the
nodes gives the document back, its dates as texts, and every node has the kind of the part that
stands at its place. A document without a tree is refused for the first of its parts that has a
fault. `Node.ofValue_copies` says all this.

`Part.fault?` is what can be wrong with one part, whatever is inside it. `Part.IsSound` and
`Part.IsFirstFault` say of a part with all that is inside it that nothing is wrong, and what is
wrong first, and `Part.Settles` that the outcome of building a tree agrees with that.
-/

namespace Tariff

/-! ## Data -/

namespace Value

/-- Whether a value is made of nothing but data, with texts for keys. -/
inductive IsData : Value → Prop where
  | null : IsData .null
  | scalar (s : Scalar) : IsData (.scalar s)
  | date (d : Date) : IsData (.date d)
  | moment (m : Moment) : IsData (.moment m)
  | list {items : List Value} (h : ∀ v ∈ items, IsData v) : IsData (.list items)
  | tuple {items : List Value} (h : ∀ v ∈ items, IsData v) : IsData (.tuple items)
  | mapping {entries : List (Value × Value)} (hkeys : ∀ entry ∈ entries, ∃ name, entry.1 = .text name)
      (h : ∀ entry ∈ entries, IsData entry.2) : IsData (.mapping entries)

/-- The kind of each sort of data. -/
inductive IsOfKind : Value → Kind → Prop where
  | null : IsOfKind .null .null
  | bool (b : Bool) : IsOfKind (.bool b) .boolean
  | int (n : Int) : IsOfKind (.int n) .integer
  | float (x : Binary64) : IsOfKind (.float x) .float
  | text (s : String) : IsOfKind (.text s) .text
  | date (d : Date) : IsOfKind (.date d) .text
  | moment (m : Moment) : IsOfKind (.moment m) .text
  | list (items : List Value) : IsOfKind (.list items) .sequence
  | tuple (items : List Value) : IsOfKind (.tuple items) .sequence
  | mapping (entries : List (Value × Value)) : IsOfKind (.mapping entries) .mapping

mutual

/-- A value with its tuples as lists, for a tree does not tell the two apart. -/
def tuplesAsLists : Value → Value
  | .list items => .list (itemsWithLists items)
  | .tuple items => .list (itemsWithLists items)
  | .mapping entries => .mapping (entriesWithLists entries)
  | v => v

/-- The items of a sequence with their tuples as lists. -/
def itemsWithLists : List Value → List Value
  | [] => []
  | v :: rest => v.tuplesAsLists :: itemsWithLists rest

/-- The entries of a mapping with the tuples of their values as lists. -/
def entriesWithLists : List (Value × Value) → List (Value × Value)
  | [] => []
  | (key, v) :: rest => (key, v.tuplesAsLists) :: entriesWithLists rest

end

end Value

namespace Node

mutual

/-- What is left of a node without its kind and its path. -/
def toValue : Node → Value
  | .null _ => .null
  | .scalar _ s => .scalar s
  | .sequence _ items => .list (itemValues items)
  | .mapping _ fields => .mapping (fieldValues fields)

def itemValues : List Node → List Value
  | [] => []
  | node :: rest => node.toValue :: itemValues rest

def fieldValues : List (String × Node) → List (Value × Value)
  | [] => []
  | (key, node) :: rest => (.text key, node.toValue) :: fieldValues rest

end

mutual

/-- A tree is a copy of the value that it was built of. -/
theorem toValue_of_ofValueAt {path : String} {depth : Nat} {node : Node} (v : Value)
    (h : ofValueAt path depth v = .ok node) : node.toValue = v.datesAsText.tuplesAsLists := by
  unfold ofValueAt at h
  split at h
  · cases h
  · match v, h with
    | .list items, h =>
      obtain ⟨nodes, hnodes, rfl⟩ := Outcome.map_eq_ok_iff.1 h
      rw [toValue, itemValues_of_itemsOf items hnodes, Value.datesAsText, Value.tuplesAsLists]
    | .tuple items, h =>
      obtain ⟨nodes, hnodes, rfl⟩ := Outcome.map_eq_ok_iff.1 h
      rw [toValue, itemValues_of_itemsOf items hnodes, Value.datesAsText, Value.tuplesAsLists]
    | .mapping entries, h =>
      obtain ⟨fields, hfields, rfl⟩ := Outcome.map_eq_ok_iff.1 h
      rw [toValue, fieldValues_of_fieldsOf entries hfields, Value.datesAsText, Value.tuplesAsLists]
    | .null, h | .scalar s, h | .date d, h | .moment m, h =>
      cases h
      rw [toValue, Value.datesAsText, Value.tuplesAsLists] <;> nofun
    | .bytes content, h | .set members, h | .foreign typeName, h => cases h

theorem itemValues_of_itemsOf {path : String} {depth index : Nat} {nodes : List Node}
    (items : List Value) (h : itemsOf path depth index items = .ok nodes) :
    itemValues nodes = Value.itemsWithLists (Value.itemsAsText items) := by
  match items with
  | [] =>
    cases h
    rfl
  | v :: rest =>
    unfold itemsOf at h
    simp only [Outcome.bind_eq_ok_iff, Outcome.pure_eq_ok_iff] at h
    obtain ⟨node, hnode, others, hothers, rfl⟩ := h
    rw [itemValues, toValue_of_ofValueAt v hnode, itemValues_of_itemsOf rest hothers,
      Value.itemsAsText, Value.itemsWithLists]

theorem fieldValues_of_fieldsOf {path : String} {depth : Nat} {fields : List (String × Node)}
    (entries : List (Value × Value)) (h : fieldsOf path depth entries = .ok fields) :
    fieldValues fields = Value.entriesWithLists (Value.entriesAsText entries) := by
  match entries with
  | [] =>
    cases h
    rfl
  | (key, v) :: rest =>
    unfold fieldsOf at h
    split at h
    · next heq => cases heq
    · next name w tail heq =>
      cases heq
      simp only [Outcome.bind_eq_ok_iff, Outcome.pure_eq_ok_iff] at h
      obtain ⟨node, hnode, others, hothers, rfl⟩ := h
      rw [fieldValues, toValue_of_ofValueAt v hnode, fieldValues_of_fieldsOf rest hothers,
        Value.entriesAsText, Value.entriesWithLists]
    · cases h

end

/-- A node is of the one kind of the part that it is the tree of. -/
theorem IsTreeOf.isOfKind_iff {depth : Nat} {node : Node} {part : Part}
    (h : node.IsTreeOf depth part) {kind : Kind} : part.value.IsOfKind kind ↔ node.kind = kind := by
  obtain ⟨key?, path, v⟩ := part
  have hexists : v.IsOfKind node.kind := by
    cases isBuiltOf_of_ofValueAt h with
    | null => exact .null
    | scalar hs =>
      cases v with
      | scalar s => rcases s with b | (n | x) | s <;> cases hs <;> constructor
      | date d | moment m =>
        cases hs
        constructor
      | _ => cases hs
    | sequence hv => rcases hv with rfl | rfl <;> constructor
    | mapping => exact .mapping _
  constructor
  · intro hkind
    generalize node.kind = found at hexists
    cases hexists <;> cases hkind <;> rfl
  · rintro rfl
    exact hexists

end Node

/-! ## Faults -/

namespace Part

/-- What is wrong with the key of a part: it is no text. The path of the error shows the key, so
there is no such error for a key that cannot be written. -/
def keyFault? (part : Part) : Option (Refusal ConfigError) :=
  match part.key? with
  | none => none
  | some (.text _) => none
  | some key => some (.showing key.isWritable
      (.typeMismatch part.path (key.kindName ++ " key") "text key"))

/-- What is wrong with the value of a part that is so many levels below the root: it is nested
too deeply, or else it is no data. -/
def valueFault? (depth : Nat) (part : Part) : Option (Refusal ConfigError) :=
  if 32 < depth then some (.because (.tooDeep (Node.shownPath part.path)))
  else
    match part.value with
    | .bytes _ | .set _ | .foreign _ =>
      some (.because (.unsupportedType (Node.shownPath part.path) part.value.kindName))
    | _ => none

/-- What is wrong with a part so many levels below the root, whatever is inside it. -/
def fault? (depth : Nat) (part : Part) : Option (Refusal ConfigError) :=
  part.keyFault?.or (part.valueFault? depth)

/-- What is wrong with what stands at a place within a part. -/
def faultAt? (depth : Nat) (part : Part) (place : List Nat) : Option (Refusal ConfigError) :=
  (part.at? place).bind fun inner => inner.fault? (depth + place.length)

/-- Whether nothing is wrong with a part and all that is inside it. -/
def IsSound (depth : Nat) (part : Part) : Prop := ∀ place, part.faultAt? depth place = none

/-- Whether an error is what is wrong at a place within a part, and nothing is wrong at the
places before it. -/
def IsFirstFault (depth : Nat) (part : Part) (e : Refusal ConfigError) (place : List Nat) : Prop :=
  part.faultAt? depth place = some e ∧ ∀ earlier < place, part.faultAt? depth earlier = none

theorem keyFault?_eq_none_iff {part : Part} :
    part.keyFault? = none ↔ ∀ key, part.key? = some key → ∃ name, key = .text name := by
  unfold keyFault?
  split
  · next hkey => simp [hkey]
  · next name hkey => simp [hkey]
  · next key htext hkey =>
    refine ⟨nofun, fun h => ?_⟩
    obtain ⟨name, hname⟩ := h key hkey
    exact (htext name hname).elim

theorem fault?_of_key {depth : Nat} {key v : Value} {path : String}
    (h : ∀ name, key = .text name → False) :
    fault? depth ⟨some key, path, v⟩ =
      some (.showing key.isWritable (.typeMismatch path (key.kindName ++ " key") "text key")) := by
  have hkey : keyFault? ⟨some key, path, v⟩ =
      some (.showing key.isWritable (.typeMismatch path (key.kindName ++ " key") "text key")) := by
    unfold keyFault?
    split
    · next heq => cases heq
    · next name heq => exact (h name (Option.some.inj heq)).elim
    · next heq => rw [Option.some.inj heq]
  rw [fault?, hkey, Option.some_or]

theorem faultAt?_cons (depth : Nat) (part : Part) (index : Nat) (rest : List Nat) :
    part.faultAt? depth (index :: rest) =
      part.children[index]?.bind fun child => child.faultAt? (depth + 1) rest := by
  have hlength : depth + (index :: rest).length = depth + 1 + rest.length := by
    rw [List.length_cons]
    omega
  unfold faultAt?
  rw [at?, Option.bind_assoc, hlength]

/-- Whether an outcome agrees with the faults of a part: there is a result if it has none, and
else an error for the first. -/
def Settles {α : Type} (depth : Nat) (part : Part) : Except (Refusal ConfigError) α → Prop
  | .ok _ => part.IsSound depth
  | .error e => ∃ place, part.IsFirstFault depth e place

/-- Whether an outcome agrees with the faults of parts that follow one another. -/
def SettlesAll {α : Type} (depth : Nat) (parts : List Part) :
    Except (Refusal ConfigError) α → Prop
  | .ok _ => ∀ part ∈ parts, part.IsSound depth
  | .error e => ∃ (index : Nat) (part : Part) (place : List Nat), parts[index]? = some part ∧
      part.IsFirstFault depth e place ∧
      ∀ earlier < index, ∀ other : Part, parts[earlier]? = some other → other.IsSound depth

variable {α β γ : Type} {depth : Nat} {part : Part} {parts : List Part}

/-- A fault of the part itself comes before all that is inside it. -/
theorem settles_of_fault {e : Refusal ConfigError} (h : part.fault? depth = some e) :
    part.Settles depth (.error e : Except (Refusal ConfigError) α) :=
  ⟨[], h, fun earlier hearlier => absurd hearlier (List.not_lt_nil earlier)⟩

/-- A part without a fault of its own has those of its parts. -/
theorem settles_of_children {outcome : Except (Refusal ConfigError) α}
    (h : part.fault? depth = none) (hchildren : SettlesAll (depth + 1) part.children outcome) :
    part.Settles depth outcome := by
  have hself : part.faultAt? depth [] = none := h
  cases outcome with
  | ok a =>
    intro place
    cases place with
    | nil => exact hself
    | cons index rest =>
      rw [faultAt?_cons, Option.bind_eq_none_iff]
      intro child hchild
      exact hchildren child (List.mem_of_getElem? hchild) rest
  | error e =>
    obtain ⟨index, child, place, hchild, ⟨hfault, hbefore⟩, hearlier⟩ := hchildren
    refine ⟨index :: place, ?_, fun earlier hlt => ?_⟩
    · rw [faultAt?_cons, hchild]
      exact hfault
    · cases earlier with
      | nil => exact hself
      | cons first rest =>
        rw [faultAt?_cons, Option.bind_eq_none_iff]
        intro other hother
        rcases List.cons_lt_cons_iff.1 hlt with hfirst | ⟨rfl, hrest⟩
        · exact hearlier first hfirst other hother rest
        · cases hchild.symm.trans hother
          exact hbefore rest hrest

theorem Settles.map {outcome : Except (Refusal ConfigError) α} (h : part.Settles depth outcome)
    (f : α → β) : part.Settles depth (outcome.map f) := by
  cases outcome <;> exact h

/-- A fault of the first part comes before those of the parts that follow it. -/
theorem Settles.head {e : Refusal ConfigError}
    (h : part.Settles depth (.error e : Except (Refusal ConfigError) α)) :
    SettlesAll depth (part :: parts) (.error e : Except (Refusal ConfigError) β) := by
  obtain ⟨place, hfirst⟩ := h
  exact ⟨0, part, place, rfl, hfirst, fun earlier h => absurd h (Nat.not_lt_zero earlier)⟩

theorem settlesAll_nil (a : α) : SettlesAll depth [] (.ok a : Except (Refusal ConfigError) α) :=
  fun _ h => absurd h List.not_mem_nil

/-- The first part is looked at before those that follow it. -/
theorem SettlesAll.cons {outcome : Except (Refusal ConfigError) α}
    {rest : Except (Refusal ConfigError) γ} (hpart : part.Settles depth outcome)
    (hparts : SettlesAll depth parts rest) (f : α → γ → β) :
    SettlesAll depth (part :: parts) (outcome >>= fun a => rest >>= fun as => pure (f a as)) := by
  cases outcome with
  | error e => exact hpart.head
  | ok a =>
    cases rest with
    | error e =>
      obtain ⟨index, found, place, hfound, hfirst, hearlier⟩ := hparts
      refine ⟨index + 1, found, place, hfound, hfirst, fun earlier hlt other hother => ?_⟩
      cases earlier with
      | zero =>
        cases hother
        exact hpart
      | succ earlier => exact hearlier earlier (Nat.lt_of_succ_lt_succ hlt) other hother
    | ok as => exact List.forall_mem_cons.2 ⟨hpart, hparts⟩

/-! ## Parts without faults -/

theorem IsSound.keyFault?_eq_none (h : part.IsSound depth) : part.keyFault? = none :=
  have hself : part.fault? depth = none := h []
  (Option.or_eq_none_iff.1 hself).1

theorem IsSound.valueFault?_eq_none (h : part.IsSound depth) : part.valueFault? depth = none :=
  have hself : part.fault? depth = none := h []
  (Option.or_eq_none_iff.1 hself).2

/-- What is inside a part without faults is without faults. -/
theorem IsSound.child (h : part.IsSound depth) {child : Part} (hchild : child ∈ part.children) :
    child.IsSound (depth + 1) := by
  intro place
  obtain ⟨index, hindex⟩ := List.getElem?_of_mem hchild
  have hfault := h (index :: place)
  rwa [faultAt?_cons, hindex] at hfault

theorem exists_child_of_item {items : List Value}
    (hpart : part.value = .list items ∨ part.value = .tuple items) {item : Value}
    (hitem : item ∈ items) : ∃ child ∈ part.children, child.value = item := by
  obtain ⟨index, hindex⟩ := List.getElem?_of_mem hitem
  have hmem : (item, index) ∈ items.zipIdx := List.mem_zipIdx_iff_getElem?.2 hindex
  refine ⟨⟨none, Node.itemPath part.path index, item⟩, ?_, rfl⟩
  rw [children_of_sequence hpart]
  exact List.mem_map.2 ⟨(item, index), hmem, rfl⟩

theorem exists_child_of_entry {entries : List (Value × Value)}
    (hpart : part.value = .mapping entries) {entry : Value × Value} (hentry : entry ∈ entries) :
    ∃ child ∈ part.children, child.key? = some entry.1 ∧ child.value = entry.2 := by
  refine ⟨⟨some entry.1, Node.fieldPath part.path entry.1.display, entry.2⟩, ?_, rfl, rfl⟩
  rw [children, hpart]
  exact List.mem_map.2 ⟨entry, hentry, rfl⟩

/-- A part without faults is made of data. -/
theorem IsSound.isData {depth : Nat} {part : Part} (h : part.IsSound depth) :
    part.value.IsData := by
  have hvalue := h.valueFault?_eq_none
  match hpart : part.value with
  | .null => exact .null
  | .scalar s => exact .scalar s
  | .date d => exact .date d
  | .moment m => exact .moment m
  | .list items =>
    refine .list fun item hitem => ?_
    obtain ⟨child, hchild, rfl⟩ := exists_child_of_item (.inl hpart) hitem
    exact (h.child hchild).isData
  | .tuple items =>
    refine .tuple fun item hitem => ?_
    obtain ⟨child, hchild, rfl⟩ := exists_child_of_item (.inr hpart) hitem
    exact (h.child hchild).isData
  | .mapping entries =>
    refine .mapping (fun entry hentry => ?_) fun entry hentry => ?_
    · obtain ⟨child, hchild, hkey, -⟩ := exists_child_of_entry hpart hentry
      exact keyFault?_eq_none_iff.1 (h.child hchild).keyFault?_eq_none entry.1 hkey
    · obtain ⟨child, hchild, -, hvalue⟩ := exists_child_of_entry hpart hentry
      rw [← hvalue]
      exact (h.child hchild).isData
  | .bytes content | .set members | .foreign typeName =>
    unfold valueFault? at hvalue
    rw [hpart] at hvalue
    split at hvalue <;> cases hvalue
termination_by sizeOf part.value
decreasing_by
  · have hlt := List.sizeOf_lt_of_mem hitem
    rw [hpart, Value.list.sizeOf_spec]
    omega
  · have hlt := List.sizeOf_lt_of_mem hitem
    rw [hpart, Value.tuple.sizeOf_spec]
    omega
  · have hlt := List.sizeOf_lt_of_mem hentry
    have hsnd : sizeOf entry = 1 + sizeOf entry.1 + sizeOf entry.2 := Prod.mk.sizeOf_spec ..
    rw [hvalue, hpart, Value.mapping.sizeOf_spec]
    omega

/-- The parts of data are data, with texts for keys. -/
theorem isData_of_mem_children (h : part.value.IsData) {child : Part}
    (hchild : child ∈ part.children) : child.keyFault? = none ∧ child.value.IsData := by
  unfold children at hchild
  split at hchild
  · next items hpart =>
    obtain ⟨item, hitem, rfl⟩ := List.mem_map.1 hchild
    rw [hpart] at h
    cases h with
    | list hitems => exact ⟨rfl, hitems _ (List.fst_mem_of_mem_zipIdx hitem)⟩
  · next items hpart =>
    obtain ⟨item, hitem, rfl⟩ := List.mem_map.1 hchild
    rw [hpart] at h
    cases h with
    | tuple hitems => exact ⟨rfl, hitems _ (List.fst_mem_of_mem_zipIdx hitem)⟩
  · next entries hpart =>
    obtain ⟨entry, hentry, rfl⟩ := List.mem_map.1 hchild
    rw [hpart] at h
    cases h with
    | mapping hkeys hentries =>
      refine ⟨keyFault?_eq_none_iff.2 fun key hkey => ?_, hentries entry hentry⟩
      rw [← Option.some.inj hkey]
      exact hkeys entry hentry
  · exact absurd hchild List.not_mem_nil

/-- Data that is nowhere nested too deeply is without faults. -/
theorem isSound_of_isData (hkey : part.keyFault? = none) (hdata : part.value.IsData)
    (hdepth : ∀ place inner, part.at? place = some inner → depth + place.length ≤ 32) :
    part.IsSound depth := by
  intro place
  induction place generalizing depth part with
  | nil =>
    have hself : ¬32 < depth := Nat.not_lt.2 (hdepth [] part rfl)
    have hvalue : part.valueFault? depth = none := by
      rw [valueFault?, if_neg hself]
      generalize part.value = v at hdata
      cases hdata <;> rfl
    exact Option.or_eq_none_iff.2 ⟨hkey, hvalue⟩
  | cons index rest ih =>
    rw [faultAt?_cons, Option.bind_eq_none_iff]
    intro child hchild
    obtain ⟨hkey, hdata⟩ := isData_of_mem_children hdata (List.mem_of_getElem? hchild)
    refine ih hkey hdata fun place inner hinner => ?_
    have hbound := hdepth (index :: place) inner (by rw [at?, hchild]; exact hinner)
    rw [List.length_cons] at hbound
    omega

/-- A part without faults is data that is nowhere nested too deeply, and the other way
around. -/
theorem isSound_iff (hkey : part.keyFault? = none) :
    part.IsSound depth ↔ part.value.IsData ∧
      ∀ place inner, part.at? place = some inner → depth + place.length ≤ 32 := by
  refine ⟨fun h => ⟨h.isData, fun place inner hinner => ?_⟩,
    fun ⟨hdata, hdepth⟩ => isSound_of_isData hkey hdata hdepth⟩
  have hfault : inner.fault? (depth + place.length) = none := by
    have hplace := h place
    rwa [faultAt?, hinner] at hplace
  have hvalue := (Option.or_eq_none_iff.1 hfault).2
  by_contra hdeep
  rw [valueFault?, if_pos (Nat.not_le.1 hdeep)] at hvalue
  cases hvalue

theorem IsFirstFault.not_isSound {e : Refusal ConfigError} {place : List Nat}
    (h : part.IsFirstFault depth e place) : ¬part.IsSound depth := by
  intro hsound
  cases (hsound place).symm.trans h.1

/-- There is one first fault. -/
theorem IsFirstFault.unique {e e' : Refusal ConfigError} {place place' : List Nat}
    (h : part.IsFirstFault depth e place) (h' : part.IsFirstFault depth e' place') : e = e' := by
  have hafter : ¬place < place' := fun hlt => nomatch (h'.2 place hlt).symm.trans h.1
  have hbefore : ¬place' < place := fun hlt => nomatch (h.2 place' hlt).symm.trans h'.1
  cases List.le_antisymm (List.not_lt.1 hafter) (List.not_lt.1 hbefore)
  exact Option.some.inj (h.1.symm.trans h'.1)

/-- An outcome that agrees with the faults of a part is a result exactly if there are none, and
an error exactly if it is for the first of them. -/
theorem Settles.ok_iff {outcome : Except (Refusal ConfigError) α} (h : part.Settles depth outcome) :
    (∃ a, outcome = .ok a) ↔ part.IsSound depth := by
  cases outcome with
  | ok a => exact ⟨fun _ => h, fun _ => ⟨a, rfl⟩⟩
  | error e =>
    obtain ⟨place, hfirst⟩ := h
    exact ⟨nofun, fun hsound => (hfirst.not_isSound hsound).elim⟩

theorem Settles.error_iff {outcome : Except (Refusal ConfigError) α} (h : part.Settles depth outcome)
    {e : Refusal ConfigError} : outcome = .error e ↔ ∃ place, part.IsFirstFault depth e place := by
  cases outcome with
  | ok a => exact ⟨nofun, fun ⟨place, hfirst⟩ => (hfirst.not_isSound h).elim⟩
  | error e' =>
    constructor
    · rintro ⟨⟩
      exact h
    · rintro ⟨place, hfirst⟩
      obtain ⟨place', hfirst'⟩ := h
      rw [hfirst.unique hfirst']

/-! ## Building a tree -/

mutual

/-- Building the tree of a part agrees with the faults of the part, if there is none in its
key. -/
theorem settles_ofValueAt (depth : Nat) (key? : Option Value) (path : String) (v : Value)
    (hkey : keyFault? ⟨key?, path, v⟩ = none) :
    Settles depth ⟨key?, path, v⟩ (Node.ofValueAt path depth v) := by
  have hfault : fault? depth ⟨key?, path, v⟩ = valueFault? depth ⟨key?, path, v⟩ := by
    rw [fault?, hkey, Option.none_or]
  unfold Node.ofValueAt
  by_cases hdepth : maxDocumentDepth < depth
  · rw [if_pos hdepth]
    exact settles_of_fault (hfault.trans (if_pos hdepth))
  · have hvalue := hfault.trans (if_neg hdepth)
    rw [if_neg hdepth]
    match v, hvalue with
    | .null, hvalue | .scalar s, hvalue | .date d, hvalue | .moment m, hvalue =>
      exact settles_of_children hvalue (settlesAll_nil _)
    | .list items, hvalue | .tuple items, hvalue =>
      exact (settles_of_children hvalue (settlesAll_itemsOf (depth + 1) path 0 items)).map _
    | .mapping entries, hvalue =>
      exact (settles_of_children hvalue (settlesAll_fieldsOf (depth + 1) path entries)).map _
    | .bytes content, hvalue | .set members, hvalue | .foreign typeName, hvalue =>
      exact settles_of_fault hvalue

theorem settlesAll_itemsOf (depth : Nat) (path : String) (index : Nat) (items : List Value) :
    SettlesAll depth
      ((items.zipIdx index).map fun item => ⟨none, Node.itemPath path item.2, item.1⟩)
      (Node.itemsOf path depth index items) := by
  match items with
  | [] => exact settlesAll_nil _
  | v :: rest =>
    unfold Node.itemsOf
    rw [List.zipIdx_cons, List.map_cons]
    exact .cons (settles_ofValueAt depth none (Node.itemPath path index) v rfl)
      (settlesAll_itemsOf depth path (index + 1) rest) _

theorem settlesAll_fieldsOf (depth : Nat) (path : String) (entries : List (Value × Value)) :
    SettlesAll depth
      (entries.map fun entry => ⟨some entry.1, Node.fieldPath path entry.1.display, entry.2⟩)
      (Node.fieldsOf path depth entries) := by
  match entries with
  | [] => exact settlesAll_nil _
  | (key, v) :: rest =>
    unfold Node.fieldsOf
    rw [List.map_cons]
    split
    · next heq => cases heq
    · next name w tail heq =>
      cases heq
      exact .cons (settles_ofValueAt depth (some (.text name)) (Node.fieldPath path name) v rfl)
        (settlesAll_fieldsOf depth path rest) _
    · next key w tail htext heq =>
      cases heq
      exact (settles_of_fault (fault?_of_key htext)).head (α := Node)

end

end Part

/-! ## The tree of a document -/

namespace Node

/-- A document has a tree exactly if it is made of data alone, with texts for keys, and nowhere
nested more than 32 levels deep. Without kinds and paths the tree is the document, with its dates
as texts, and each node is of the one kind of the part at its place. A document without a tree is
refused for the part with the first fault in the order of the document: for its key, or else for
its depth, or else for its type. If that is a key that cannot be written, there is no error that
says so. -/
theorem ofValue_copies (v : Value) :
    ((∃ root, ofValue v = .ok root) ↔
      v.IsData ∧ ∀ place part, v.part? place = some part → place.length ≤ 32) ∧
    (∀ root, ofValue v = .ok root →
      root.toValue = v.datesAsText.tuplesAsLists ∧
      ∀ place, Option.Rel
        (fun node part => node.path = part.path ∧
          ∀ kind, part.value.IsOfKind kind ↔ node.kind = kind)
        (root.at? place) (v.part? place)) ∧
    ∀ e, ofValue v = .error e ↔
      ∃ place part, v.part? place = some part ∧ part.fault? place.length = some e ∧
        ∀ earlier < place, ∀ other, v.part? earlier = some other →
          other.fault? earlier.length = none := by
  have hsettles : Part.Settles 0 ⟨none, "", v⟩ (ofValue v) :=
    Part.settles_ofValueAt 0 none "" v rfl
  refine ⟨?_, fun root hroot => ⟨toValue_of_ofValueAt v hroot, fun place => ?_⟩, fun e => ?_⟩
  · rw [hsettles.ok_iff, Part.isSound_iff rfl]
    simp only [Nat.zero_add]
    rfl
  · generalize root.at? place = node?, v.part? place = part?, at?_of_ofValue hroot place = hplace
    cases hplace with
    | none => exact .none
    | some htree => exact .some ⟨htree.path_eq, fun kind => htree.isOfKind_iff⟩
  · rw [hsettles.error_iff]
    simp only [Part.IsFirstFault, Part.faultAt?, Nat.zero_add, Option.bind_eq_some_iff,
      Option.bind_eq_none_iff, Value.part?, ← exists_and_right, and_assoc]

/-- A key that is an integer with too many digits is refused, but for no cause: the path of the
error cannot show it. -/
theorem no_error_shows_unwritable_key :
    ofValue (.mapping [(.int Text.leastUnwritable, .null)]) = .error .overlong := by
  have hkey : (Value.int Text.leastUnwritable).isWritable = false := Text.isWritable_leastUnwritable
  have hfields : fieldsOf "" 1 [(.int Text.leastUnwritable, .null)] = .error .overlong := by
    rw [fieldsOf, hkey, Refusal.showing_false]
    exact nofun
  exact congrArg (Except.map (Node.mapping "")) hfields

end Node

end Tariff
