/-!
# Tables

Catalogs, variables, overrides and log records map names to things and are shown in
the order in which they were filled. A table is the list of those pairs. Looking a
name up answers the first entry of that name; `set` keeps the place of an existing
entry and puts a new one last, so that a table filled with `set` alone has one entry
for each name.
-/

namespace Tariff

/-- Things by name, in order. -/
abbrev Table (α : Type) := List (String × α)

namespace Table

variable {α β : Type}

/-- The thing of a name. -/
def get? (t : Table α) (name : String) : Option α := List.lookup name t

/-- Whether a name is in the table. -/
def has (t : Table α) (name : String) : Bool := (t.get? name).isSome

/-- The names in order. -/
def names (t : Table α) : List String := t.map Prod.fst

/-- The table with a name set to a thing, in its old place if it has one. -/
def set : Table α → String → α → Table α
  | [], name, a => [(name, a)]
  | (other, b) :: rest, name, a =>
    if other = name then (other, a) :: rest else (other, b) :: set rest name a

/-- The table with a name set only if it was not in it. -/
def setDefault (t : Table α) (name : String) (a : α) : Table α :=
  if t.has name then t else t.set name a

/-- The table of the things that a function makes, names unchanged. -/
def mapValues (f : α → β) (t : Table α) : Table β := t.map fun entry => (entry.1, f entry.2)

/-- The table of the things that a function makes, which may fail; the first failure
counts. -/
def traverse {ε : Type} (f : String → α → Except ε β) : Table α → Except ε (Table β)
  | [] => .ok []
  | (name, a) :: rest => do
    let b ← f name a
    return (name, b) :: (← traverse f rest)

@[simp] theorem get?_nil (name : String) : get? ([] : Table α) name = none := rfl

theorem get?_cons (other name : String) (a : α) (t : Table α) :
    get? ((other, a) :: t) name = if name = other then some a else get? t name := by
  unfold get?
  rw [List.lookup_cons]
  by_cases h : name = other
  · simp [h]
  · simp [h, beq_eq_false_iff_ne.2 h]

/-- The thing that was set is found. -/
@[simp] theorem get?_set_self (t : Table α) (name : String) (a : α) :
    (t.set name a).get? name = some a := by
  induction t with
  | nil => simp [set, get?_cons]
  | cons entry rest ih =>
    obtain ⟨other, b⟩ := entry
    by_cases h : other = name
    · simp [set, h, get?_cons]
    · simp [set, h, get?_cons, ih, Ne.symm h]

/-- Setting one name changes no other. -/
theorem get?_set_of_ne (t : Table α) {name other : String} (a : α) (h : other ≠ name) :
    (t.set name a).get? other = t.get? other := by
  induction t with
  | nil => simp [set, get?_cons, h]
  | cons entry rest ih =>
    obtain ⟨first, b⟩ := entry
    by_cases hfirst : first = name
    · simp [set, hfirst, get?_cons, h]
    · simp [set, hfirst, get?_cons, ih]

@[simp] theorem names_mapValues (f : α → β) (t : Table α) :
    (t.mapValues f).names = t.names := by
  simp [mapValues, names]

/-- Making a table succeeds exactly if making its first thing and the rest do. -/
theorem traverse_cons_eq_ok_iff {ε : Type} {f : String → α → Except ε β} {name : String} {a : α}
    {rest : Table α} {made : Table β} :
    traverse f ((name, a) :: rest) = .ok made ↔
      ∃ b tail, f name a = .ok b ∧ traverse f rest = .ok tail ∧ made = (name, b) :: tail := by
  rw [traverse]
  cases f name a with
  | error e => simp [bind, Except.bind]
  | ok b =>
    cases traverse f rest with
    | error e => simp [bind, Except.bind]
    | ok tail => simp [bind, Except.bind, pure, Except.pure, eq_comm]

/-- Making a table keeps the names and their order. -/
theorem names_of_traverse {ε : Type} {f : String → α → Except ε β} {t : Table α} {made : Table β}
    (h : traverse f t = .ok made) : made.names = t.names := by
  induction t generalizing made with
  | nil =>
    cases h
    rfl
  | cons entry rest ih =>
    obtain ⟨b, tail, _, htail, rfl⟩ := traverse_cons_eq_ok_iff.1 h
    have := ih htail
    simp only [names, List.map_cons] at this ⊢
    rw [this]

end Table

end Tariff
