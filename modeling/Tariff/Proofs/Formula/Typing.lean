import Tariff.Formula.Evaluation
import Tariff.Pricing.Typed
import Tariff.Proofs.Formula.Compiled

/-!
# Types of formulas

Every expression has a static type or none, which is read off the expression and the types
of its variables alone (`Expr.type?`). An operator has a type only on operands of the types
that it takes, and both operands of `and` and `or` count, also the one that could not change
the result.

Evaluating a formula agrees with that type (`evaluate_follows_types`). With a type, the
formula gives a value of it or fails by arithmetic: it divides by zero, or leaves the finite
numbers. Without a type it gives no value at all, whatever the values of the variables are.

`Yields` says both of an outcome at once, and each node of the expression keeps it
(`Yields.bind`). What the operators do is looked at only for operands that are scalars, since
no other value is ever made.

A tree that a caller has put together may hold anything. `Expr.IsRegular` are the trees of
formulas: their leaves and operators are those of the grammar, which is all that reading
makes (`isRegular_of_compile`).
-/

namespace Tariff

/-- The type of a scalar. -/
def Scalar.valueType : Scalar → ValueType
  | .bool _ => .boolean
  | .number _ => .numeric
  | .text _ => .text

/-- Scalars have the same type exactly if messages call them by the same kind. -/
theorem Scalar.operandKind_eq_iff {s t : Scalar} :
    s.operandKind = t.operandKind ↔ s.valueType = t.valueType := by
  cases s <;> cases t <;> simp [operandKind, valueType]

/-- Whether a formula failed in its arithmetic, rather than by an operand of the wrong type
or a variable that there is not. -/
def FormulaFault.IsArithmetic : FormulaFault → Prop
  | .divisionByZero => True
  | .outOfRange _ _ _ => True
  | .notFinite _ => True
  | _ => False

namespace Formula

/-! ## The trees of formulas -/

/-- Whether all leaves and operators of an expression are those of the grammar. -/
inductive Expr.IsRegular : Expr → Prop where
  | leaf {l : Lexeme} {e : Expr} (h : Leaf l e) : IsRegular e
  | unary {tier : Tier} {l : Lexeme} {operator : UnaryOperator} {operand : Expr} {depth : Nat}
      (h : tier.Precedes l operator) (hoperand : IsRegular operand) :
      IsRegular (.unary operator operand depth)
  | binary {tier : Tier} {l : Lexeme} {operator : BinaryOperator} {left right : Expr} {depth : Nat}
      (h : tier.Joins l operator) (hleft : IsRegular left) (hright : IsRegular right) :
      IsRegular (.binary operator left right depth)

mutual

/-- What is read at a tier is regular, whatever the limit is. -/
theorem isRegular_of_reads {limit : Int} {tier : Tier} {nesting : Nat} {tokens rest : List Token}
    {e : Expr} (h : Reads limit tier nesting tokens e rest) : e.IsRegular := by
  cases tokens with
  | nil => exact absurd h not_reads_nil
  | cons t tokens =>
    rcases tier.sort_cases with htier | htier | rfl | rfl
    · obtain ⟨first, after, hfirst, hlinks⟩ := (reads_chain_iff htier).1 h
      have hheight := Tier.height_tighter (.inl htier)
      have hshorter := hfirst.length_lt
      exact isRegular_of_continues (isRegular_of_reads hfirst) hlinks
    · cases hunary : tier.unary? t.lexeme with
      | some operator =>
        obtain ⟨-, operand, hread, rfl, -⟩ := (reads_unary_iff hunary).1 h
        exact .unary (Tier.unary?_eq_some_iff.1 hunary) (isRegular_of_reads hread)
      | none =>
        have hheight := Tier.height_tighter (.inr htier)
        exact isRegular_of_reads ((reads_plain_iff htier hunary).1 h)
    · obtain ⟨left, after, hleft, hafter⟩ := reads_comparison_iff.1 h
      have hregular := isRegular_of_reads hleft
      rcases hafter with ⟨-, rfl, rfl⟩ | ⟨next, beyond, operator, right, rfl, hbinary, hright, rfl, -⟩
      · exact hregular
      · have hshorter := hleft.length_lt
        exact .binary (Tier.binary?_eq_some_iff.1 hbinary) hregular (isRegular_of_reads hright)
    · cases hleaf : leaf? t.lexeme with
      | some leaf =>
        obtain ⟨-, rfl, -⟩ := (reads_leaf_iff hleaf).1 h
        exact .leaf (leaf?_eq_some_iff.1 hleaf)
      | none =>
        obtain ⟨-, -, position, hread⟩ := (reads_opening_iff hleaf).1 h
        exact isRegular_of_reads hread
termination_by (tokens.length, tier.height)
decreasing_by
  all_goals
    subst_vars
    simp only [Prod.lex_def, List.length_cons, true_and] at *
    have hcomparison : Tier.sum.height < Tier.comparison.height := by decide
    omega

theorem isRegular_of_continues {limit : Int} {tier : Tier} {nesting : Nat}
    {tokens rest : List Token} {e left : Expr} (hleft : left.IsRegular)
    (h : Continues limit tier nesting left tokens e rest) : e.IsRegular := by
  by_cases hstops : Stops tier tokens
  · obtain ⟨rfl, -⟩ := (continues_of_stops hstops).1 h
    exact hleft
  · cases tokens with
    | nil => exact absurd (stops_nil tier) hstops
    | cons t tokens =>
      have hsome : tier.binary? t.lexeme ≠ none := fun hnone =>
        hstops fun t' ht' => Option.some.inj ht' ▸ hnone
      obtain ⟨operator, hbinary⟩ := Option.ne_none_iff_exists'.1 hsome
      obtain ⟨right, after, hright, -, hlinks⟩ := (continues_cons_iff hbinary).1 h
      have hshorter := hright.length_lt
      have hnode : (Expr.binaryOf operator left right).IsRegular :=
        .binary (Tier.binary?_eq_some_iff.1 hbinary) hleft (isRegular_of_reads hright)
      exact isRegular_of_continues hnode hlinks
termination_by (tokens.length, 0)
decreasing_by
  all_goals
    subst_vars
    simp only [Prod.lex_def, List.length_cons] at *
    omega

end

/-- A formula that was compiled is regular. -/
theorem isRegular_of_compile {limits : Limits} {path source : String} {f : Formula}
    (h : compile limits path source = .ok f) : f.root.IsRegular := by
  have htree := (compile_eq_ok_iff.1 h).2
  unfold treeOf at htree
  split at htree
  · cases htree
  · obtain ⟨tokens, -, hread⟩ := Outcome.bind_eq_ok_iff.1 htree
    obtain ⟨-, rest, hreads, -⟩ := readAll_eq_ok_iff.1 hread
    exact isRegular_of_reads hreads

/-! ## Static types -/

/-- The type of what an operator makes of an operand. -/
def UnaryOperator.resultType? : UnaryOperator → ValueType → Option ValueType
  | .negate, .numeric => some .numeric
  | .not, .boolean => some .boolean
  | _, _ => none

/-- A type that there is if both operands are of the type needed. -/
def both (needed result left right : ValueType) : Option ValueType :=
  if left = needed ∧ right = needed then some result else none

/-- The type of what an operator makes of two operands. -/
def BinaryOperator.resultType? (operator : BinaryOperator) (left right : ValueType) :
    Option ValueType :=
  match operator with
  | .add | .sub | .mul | .div => both .numeric .numeric left right
  | .less | .lessEqual | .greater | .greaterEqual => both .numeric .boolean left right
  | .and | .or => both .boolean .boolean left right
  | .equal | .notEqual => if left = right then some .boolean else none
  | .other _ => none

/-- The type of an expression, given those of its variables. -/
def Expr.type? (types : String → Option ValueType) : Expr → Option ValueType
  | .literal (.scalar s) => some s.valueType
  | .literal _ => none
  | .name text => types text
  | .unary operator operand _ => (operand.type? types).bind operator.resultType?
  | .binary operator left right _ =>
    (left.type? types).bind fun s => (right.type? types).bind fun t => operator.resultType? s t
  | .foreign _ => none

/-- Whether a scope has values for just the names that have a type, each of its type. -/
def Scope.Assigns (scope : Scope) (types : String → Option ValueType) : Prop :=
  ∀ name, Option.Rel (fun v t => ∃ s, v = .scalar s ∧ s.valueType = t) (scope name) (types name)

/-- Every table of scalars assigns types. -/
theorem Scope.assigns_ofTable (t : Table Scalar) :
    (ofTable t).Assigns fun name => (t.get? name).map Scalar.valueType := by
  intro name
  show Option.Rel _ ((t.get? name).map Value.scalar) ((t.get? name).map Scalar.valueType)
  cases t.get? name with
  | none => exact .none
  | some s => exact .some ⟨s, rfl, rfl⟩

/-! ## Outcomes that agree with a type -/

/-- Whether an outcome agrees with a static type: a value is a scalar of the type, and with a
type there is no fault but one of arithmetic. -/
def Yields (type? : Option ValueType) : Except FormulaFault Value → Prop
  | .ok v => ∃ s, v = .scalar s ∧ type? = some s.valueType
  | .error fault => type? = none ∨ fault.IsArithmetic

variable {type? : Option ValueType} {outcome : Except FormulaFault Value}

/-- What agrees with a type step by step agrees with it as a whole. -/
theorem Yields.bind {nextType? : ValueType → Option ValueType}
    {next : Value → Except FormulaFault Value} (h : Yields type? outcome)
    (hnext : ∀ s, Yields (nextType? s.valueType) (next (.scalar s))) :
    Yields (type?.bind nextType?) (outcome >>= next) := by
  cases outcome with
  | ok v =>
    obtain ⟨s, rfl, rfl⟩ := h
    exact hnext s
  | error fault =>
    rcases h with rfl | harithmetic
    · exact .inl rfl
    · exact .inr harithmetic

theorem yields_lookUp {types : String → Option ValueType} {scope : Scope}
    (h : scope.Assigns types) (text : String) : Yields (types text) (lookUp scope text) := by
  have hrel := h text
  unfold lookUp
  generalize types text = t? at hrel
  generalize scope text = v? at hrel
  cases hrel with
  | none => exact .inl rfl
  | some hassigned =>
    obtain ⟨s, rfl, rfl⟩ := hassigned
    exact ⟨s, rfl, rfl⟩

theorem yields_applyUnary {tier : Tier} {l : Lexeme} {operator : UnaryOperator}
    (h : tier.Precedes l operator) (s : Scalar) :
    Yields (operator.resultType? s.valueType) (applyUnary operator (.scalar s)) := by
  cases h <;> cases s <;> first | exact ⟨_, rfl, rfl⟩ | exact .inl rfl

/-- An operator that needs two numbers. -/
theorem yields_twoNumbers {result : ValueType} {operator : BinaryOperator} {s t : Scalar}
    {next : Number × Number → Except FormulaFault Value}
    (hnext : ∀ m n, s = .number m → t = .number n → Yields (some result) (next (m, n))) :
    Yields (both .numeric result s.valueType t.valueType)
      (twoNumbers operator (.scalar s) (.scalar t) >>= next) := by
  cases s with
  | number m =>
    cases t with
    | number n => exact hnext m n rfl rfl
    | bool b => exact .inl rfl
    | text t => exact .inl rfl
  | bool b => exact .inl rfl
  | text s => exact .inl rfl

/-- An operator that needs two booleans. -/
theorem yields_twoBooleans {operator : BinaryOperator} {s t : Scalar}
    {next : Bool × Bool → Bool} :
    Yields (both .boolean .boolean s.valueType t.valueType)
      (twoBooleans operator (.scalar s) (.scalar t) >>= fun pair => pure (.bool (next pair))) := by
  cases s with
  | bool a =>
    cases t with
    | bool b => exact ⟨.bool (next (a, b)), rfl, rfl⟩
    | number n => exact .inl rfl
    | text t => exact .inl rfl
  | number m => exact .inl rfl
  | text s => exact .inl rfl

theorem yields_arithmetic (operator : BinaryOperator) (operation : Number → Number → Option Number)
    (s t : Scalar) :
    Yields (both .numeric .numeric s.valueType t.valueType)
      (arithmetic operator operation (.scalar s) (.scalar t)) := by
  refine yields_twoNumbers fun m n _ _ => ?_
  dsimp only
  cases operation m n with
  | some result => exact ⟨.number result, rfl, rfl⟩
  | none => exact .inr trivial

theorem yields_divide (s t : Scalar) :
    Yields (both .numeric .numeric s.valueType t.valueType) (divide (.scalar s) (.scalar t)) := by
  refine yields_twoNumbers fun m n hm hn => ?_
  subst hm hn
  dsimp only
  split
  · exact .inr trivial
  · exact yields_arithmetic .div Number.div? (.number m) (.number n)

theorem yields_ordered (operator : BinaryOperator) (orders : List Ordering) (s t : Scalar) :
    Yields (both .numeric .boolean s.valueType t.valueType)
      (ordered operator orders (.scalar s) (.scalar t)) :=
  yields_twoNumbers fun m n _ _ => ⟨.bool ((m.compare? n).any orders.contains), rfl, rfl⟩

/-- Operands are compared for equality if they are of one type. -/
theorem yields_equality (operator : BinaryOperator) (answer : Bool → Bool) (s t : Scalar) :
    Yields (if s.valueType = t.valueType then some .boolean else none)
      (sameKindEqual operator (.scalar s) (.scalar t) >>= fun same => pure (.bool (answer same))) := by
  have hkind : (Value.scalar s).operandKind = (Value.scalar t).operandKind ↔
      s.valueType = t.valueType := Scalar.operandKind_eq_iff
  unfold sameKindEqual
  by_cases h : s.valueType = t.valueType
  · rw [if_pos h, if_pos (hkind.2 h)]
    exact ⟨.bool (answer ((Value.scalar s).same (.scalar t))), rfl, rfl⟩
  · rw [if_neg h, if_neg fun heq => h (hkind.1 heq)]
    exact .inl rfl

theorem yields_applyBinary (operator : BinaryOperator) (s t : Scalar) :
    Yields (operator.resultType? s.valueType t.valueType)
      (applyBinary operator (.scalar s) (.scalar t)) := by
  cases operator with
  | add => exact yields_arithmetic .add Number.add? s t
  | sub => exact yields_arithmetic .sub Number.sub? s t
  | mul => exact yields_arithmetic .mul Number.mul? s t
  | div => exact yields_divide s t
  | less => exact yields_ordered .less [.lt] s t
  | lessEqual => exact yields_ordered .lessEqual [.lt, .eq] s t
  | greater => exact yields_ordered .greater [.gt] s t
  | greaterEqual => exact yields_ordered .greaterEqual [.gt, .eq] s t
  | equal => exact yields_equality .equal id s t
  | notEqual => exact yields_equality .notEqual not s t
  | and => exact yields_twoBooleans
  | or => exact yields_twoBooleans
  | other symbol => exact .inl rfl

/-- The value of a regular expression agrees with its type. -/
theorem Expr.IsRegular.yields_value {types : String → Option ValueType} {scope : Scope} {e : Expr}
    (h : e.IsRegular) (hscope : scope.Assigns types) : Yields (e.type? types) (e.value scope) := by
  induction h with
  | leaf h =>
    cases h with
    | number numeral => exact ⟨.number numeral.value, rfl, rfl⟩
    | true => exact ⟨.bool true, rfl, rfl⟩
    | false => exact ⟨.bool false, rfl, rfl⟩
    | name text => exact yields_lookUp hscope text
  | unary h _ ih => exact ih.bind (yields_applyUnary h)
  | @binary _ _ operator _ _ _ _ _ _ ihLeft ihRight =>
    exact ihLeft.bind fun s => ihRight.bind (yields_applyBinary operator s)

/-! ## Whole formulas -/

/-- A formula does not change the value of its expression, but has none that is infinite or
"not a number". -/
theorem yields_value {f : Formula} {scope : Scope} (h : Yields type? (f.root.value scope)) :
    Yields type? (f.value scope) := by
  have hchecked : Yields (type?.bind some) (f.value scope) := h.bind fun s => by
    split
    · exact .inr trivial
    · exact ⟨s, rfl, rfl⟩
  rwa [Option.bind_fun_some] at hchecked

/-- A formula of a type has a value of that type or fails by arithmetic, and a formula
without a type fails; the type depends on the types of the variables and not on their
values. -/
theorem evaluate_follows_types {limits : Limits} {path source : String} {f : Formula}
    {types : String → Option ValueType} (hcompile : compile limits path source = .ok f) :
    (∀ t, f.root.type? types = some t → ∀ scope : Scope, scope.Assigns types →
      (∃ s, f.evaluate scope = .ok (.scalar s) ∧ s.valueType = t) ∨
        ∃ fault, f.evaluate scope = .error (.fault source fault) ∧ fault.IsArithmetic) ∧
    (f.root.type? types = none → ∀ scope : Scope, scope.Assigns types →
      ∃ fault, f.evaluate scope = .error (.fault source fault)) := by
  have hyields : ∀ scope : Scope, scope.Assigns types →
      Yields (f.root.type? types) (f.value scope) := fun scope hscope =>
    yields_value ((isRegular_of_compile hcompile).yields_value hscope)
  rw [← source_of_compile hcompile]
  unfold evaluate
  constructor
  · intro t htype scope hscope
    have hvalue := hyields scope hscope
    rw [htype] at hvalue
    cases hresult : f.value scope with
    | ok v =>
      rw [hresult] at hvalue
      obtain ⟨s, rfl, hs⟩ := hvalue
      exact .inl ⟨s, rfl, (Option.some.inj hs).symm⟩
    | error fault =>
      rw [hresult] at hvalue
      rcases hvalue with hnone | harithmetic
      · cases hnone
      · exact .inr ⟨fault, rfl, harithmetic⟩
  · intro htype scope hscope
    have hvalue := hyields scope hscope
    rw [htype] at hvalue
    cases hresult : f.value scope with
    | ok v =>
      rw [hresult] at hvalue
      obtain ⟨s, -, hs⟩ := hvalue
      cases hs
    | error fault => exact ⟨fault, rfl⟩

/-- Values of three variables, of which the last is no divisor. -/
def seatTable : Table Scalar :=
  [("on", .bool true), ("n", .number (.int 7)), ("seats", .number (.int 0))]

/-- The tree of `on and n / seats >= 2`. -/
def ratioTree : Expr :=
  .binaryOf .and (.name "on") (.binaryOf .greaterEqual
    (.binaryOf .div (.name "n") (.name "seats")) (.literal (.int 2)))

/-- The tree of `false and on + 1 > 0`, where a boolean stands for a number in an operand that
could not change the result. -/
def mistypedTree : Expr :=
  .binaryOf .and (.literal (.bool false)) (.binaryOf .greater
    (.binaryOf .add (.name "on") (.literal (.int 1))) (.literal (.int 0)))

/-- The one formula gives a boolean unless its arithmetic fails, and the other always fails. -/
theorem evaluate_follows_types_seats :
    ((∃ s, Formula.evaluate ⟨"on and n / seats >= 2", ratioTree⟩ (.ofTable seatTable) =
        .ok (.scalar s) ∧ s.valueType = .boolean) ∨
      ∃ fault, Formula.evaluate ⟨"on and n / seats >= 2", ratioTree⟩ (.ofTable seatTable) =
        .error (.fault "on and n / seats >= 2" fault) ∧ fault.IsArithmetic) ∧
    ∃ fault, Formula.evaluate ⟨"false and on + 1 > 0", mistypedTree⟩ (.ofTable seatTable) =
      .error (.fault "false and on + 1 > 0" fault) := by
  have hratioTokens : Token.ofFormula "on and n / seats >= 2" =
      .ok [⟨.name "on", 0⟩, ⟨.keyword .and, 3⟩, ⟨.name "n", 7⟩, ⟨.symbol .divide, 9⟩,
        ⟨.name "seats", 11⟩, ⟨.symbol .greaterEqual, 17⟩, ⟨.number ⟨['2'], none, none⟩, 20⟩,
        ⟨.finish, 21⟩] := by decide +kernel
  have hmistypedTokens : Token.ofFormula "false and on + 1 > 0" =
      .ok [⟨.keyword .false, 0⟩, ⟨.keyword .and, 6⟩, ⟨.name "on", 10⟩, ⟨.symbol .plus, 13⟩,
        ⟨.number ⟨['1'], none, none⟩, 15⟩, ⟨.symbol .greater, 17⟩,
        ⟨.number ⟨['0'], none, none⟩, 19⟩, ⟨.finish, 20⟩] := by decide +kernel
  have hratio : compile ⟨64, 1024⟩ "formula" "on and n / seats >= 2" =
      .ok ⟨"on and n / seats >= 2", ratioTree⟩ :=
    compile_of_readAll (by decide) hratioTokens (by with_unfolding_all rfl)
  have hmistyped : compile ⟨64, 1024⟩ "formula" "false and on + 1 > 0" =
      .ok ⟨"false and on + 1 > 0", mistypedTree⟩ :=
    compile_of_readAll (by decide) hmistypedTokens (by with_unfolding_all rfl)
  exact ⟨(evaluate_follows_types hratio).1 .boolean (by decide) _ (Scope.assigns_ofTable seatTable),
    (evaluate_follows_types hmistyped).2 (by decide) _ (Scope.assigns_ofTable seatTable)⟩

end Formula

end Tariff
