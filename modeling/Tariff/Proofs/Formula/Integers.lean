import Mathlib.Data.Nat.Digits.Defs
import Tariff.Proofs.Formula.Comparison
import Tariff.Proofs.Formula.Typing
import Tariff.Proofs.Formula.Variables

/-!
# Formulas over integers

A formula without quotients and without literals that have a point or an exponent, whose names
stand for integers and booleans, is exact and total (`integers_are_exact`). If it is well typed
it has a value, and that is what integer arithmetic, comparison and logic make of its
derivation: sums, differences and products group to the left, and no result is ever rounded or
out of range, however large it is.

The meaning of a derivation, `Derivation.meaning?`, is said without its expression. `Computes`
ties the two together: an expression has no type, or the derivation has a meaning, which is the
value and of the type of the expression. Every operator but the quotient keeps that.
-/

namespace Tariff

namespace Numeral

/-- A numeral that is scanned has an exponent only after one of two letters. -/
theorem marker_of_scan? {text rest : List Char} {n : Numeral} {e : Exponent}
    (h : scan? text = some (n, rest)) (he : n.exponent = some e) : e.marker ∈ ['e', 'E'] := by
  have hexponent {m m' : Numeral} {cs cs' : List Char} (hm : m.exponent = none)
      (hwith : withExponent Text.isDigit m cs = (m', cs')) (hm' : m'.exponent = some e) :
      e.marker ∈ ['e', 'E'] := by
    unfold withExponent at hwith
    split at hwith
    · next e' tail hscan =>
      cases hwith
      cases hm'
      unfold Exponent.scan? at hscan
      split at hscan
      · cases hscan
      · next c cs =>
        split at hscan
        · next hletter =>
          dsimp only at hscan
          split at hscan
          · cases hscan
          · cases hscan
            simpa using hletter
        · cases hscan
    · cases hwith
      cases hm.symm.trans hm'
  unfold scan? at h
  dsimp only at h
  split at h
  · split at h
    · cases h
    · exact hexponent rfl (Option.some.inj h) he
  · split at h
    · cases h
    · exact hexponent rfl (Option.some.inj h) he

/-- A numeral without a point and an exponent letter consists of digits alone. -/
theorem eq_whole_of_scan? {text rest : List Char} {n : Numeral}
    (h : scan? text = some (n, rest)) (hchars : ∀ c ∈ ['.', 'e', 'E'], c ∉ n.chars) :
    n = ⟨n.whole, none, none⟩ := by
  have hfraction : n.fraction = none := by
    cases hsome : n.fraction with
    | none => rfl
    | some digits =>
      refine absurd ?_ (hchars '.' (by simp))
      simp [chars, hsome]
  have hexponent : n.exponent = none := by
    cases hsome : n.exponent with
    | none => rfl
    | some e =>
      have hletter := marker_of_scan? h hsome
      refine absurd ?_ (hchars e.marker (List.mem_cons_of_mem _ hletter))
      simp [chars, hsome, Exponent.chars]
  obtain ⟨whole, fraction, exponent⟩ := n
  cases hfraction
  cases hexponent
  rfl

end Numeral

namespace Formula

/-- A lexeme that is a numeral is scanned as one. -/
theorem Lexeme.numeralScan_of_scan? {cs rest : List Char} {numeral : Numeral}
    (h : scan? cs = some (.number numeral, rest)) : Numeral.scan? cs = some (numeral, rest) := by
  unfold scan? at h
  split at h
  · cases h
  · split at h
    · cases h
    · split at h
      · cases h
      · split at h
        · unfold ofWord at h
          split at h <;> cases h
        · split at h
          · next hscan =>
            cases h
            exact hscan
          · obtain ⟨mark, -, heq⟩ := Option.map_eq_some_iff.1 h
            cases heq

/-! ## Meanings -/

/-- An integer or a truth value. -/
inductive Datum where
  | int (n : Int)
  | truth (b : Bool)
  deriving DecidableEq

/-- The scalar that stands for a datum. -/
def Datum.scalar : Datum → Scalar
  | .int n => .number (.int n)
  | .truth b => .bool b

theorem Datum.scalar_injective : Function.Injective scalar := by
  intro m n h
  cases m <;> cases n <;> cases h <;> rfl

/-- What an operator makes of a datum. -/
def UnaryOperator.onDatum? : UnaryOperator → Datum → Option Datum
  | .negate, .int a => some (.int (-a))
  | .not, .truth a => some (.truth !a)
  | _, _ => none

/-- What an operator makes of two integers. Quotients are left out. -/
def BinaryOperator.onInts? (operator : BinaryOperator) (a b : Int) : Option Datum :=
  match operator with
  | .add => some (.int (a + b))
  | .sub => some (.int (a - b))
  | .mul => some (.int (a * b))
  | .less => some (.truth (decide (a < b)))
  | .lessEqual => some (.truth (decide (a ≤ b)))
  | .greater => some (.truth (decide (a > b)))
  | .greaterEqual => some (.truth (decide (a ≥ b)))
  | .equal => some (.truth (decide (a = b)))
  | .notEqual => some (.truth (decide (a ≠ b)))
  | _ => none

/-- What an operator makes of two truth values. -/
def BinaryOperator.onTruths? (operator : BinaryOperator) (a b : Bool) : Option Datum :=
  match operator with
  | .and => some (.truth (a && b))
  | .or => some (.truth (a || b))
  | .equal => some (.truth (a == b))
  | .notEqual => some (.truth (a != b))
  | _ => none

/-- What an operator makes of two data, which must be of one sort. -/
def BinaryOperator.onData? (operator : BinaryOperator) : Datum → Datum → Option Datum
  | .int a, .int b => operator.onInts? a b
  | .truth a, .truth b => operator.onTruths? a b
  | _, _ => none

/-- The number that has digits, of any script, as its digits to base ten, the first being the
most significant. -/
def decimalValue (digits : List Char) : Nat :=
  Nat.ofDigits 10 (digits.reverse.map fun c => (Text.digitValue? c).getD 0)

/-- What a literal or a name means. A literal with a point or an exponent is left out. -/
def Lexeme.meaning? (data : String → Datum) : Lexeme → Option Datum
  | .number ⟨digits, none, none⟩ => some (.int (decimalValue digits))
  | .keyword .true => some (.truth true)
  | .keyword .false => some (.truth false)
  | .name text => some (data text)
  | _ => none

mutual

/-- What a derivation means if its names mean `data`; nothing if an operator is applied to what
it does not take. -/
def Derivation.meaning? {tier : Tier} (data : String → Datum) : Derivation tier → Option Datum
  | .chain _ first links => links.meaning? data (first.meaning? data)
  | .prefixed _ operator _ operand => (operand.meaning? data).bind operator.onDatum?
  | .plain _ operand => operand.meaning? data
  | .single operand => operand.meaning? data
  | .compared left _ operator _ right =>
    (left.meaning? data).bind fun a => (right.meaning? data).bind (operator.onData? a)
  | .leaf mark _ _ => mark.meaning? data
  | .enclosed inner => inner.meaning? data

/-- What a chain means, `left` being the meaning of all that stands before it. -/
def Links.meaning? {tier : Tier} (data : String → Datum) (left : Option Datum) :
    Links tier → Option Datum
  | .done => left
  | .link _ operator _ operand rest =>
    rest.meaning? data (left.bind fun a => (operand.meaning? data).bind (operator.onData? a))

end

/-- Whether a lexeme belongs in a formula over integers: it is no `/`, and no literal with a
point or an exponent letter. -/
def Lexeme.IsIntegral (l : Lexeme) : Prop :=
  l ≠ .symbol .divide ∧ (l.sort = "number" → ∀ c ∈ ['.', 'e', 'E'], c ∉ l.chars)

/-! ## Steps -/

/-- Whether an outcome is the one that is meant, and of a type: without a type nothing is said,
and with a type there is a meaning, which is the outcome and of the type. -/
def Computes (type? : Option ValueType) (meaning? : Option Datum)
    (outcome : Except FormulaFault Value) : Prop :=
  type? = none ∨ ∃ m : Datum, meaning? = some m ∧ outcome = .ok (.scalar m.scalar) ∧
    type? = some m.scalar.valueType

variable {type? : Option ValueType} {meaning? : Option Datum}
  {outcome : Except FormulaFault Value}

/-- What is computed step by step is computed as a whole. -/
theorem Computes.bind {nextType? : ValueType → Option ValueType}
    {nextMeaning? : Datum → Option Datum} {next : Value → Except FormulaFault Value}
    (h : Computes type? meaning? outcome)
    (hnext : ∀ m : Datum,
      Computes (nextType? m.scalar.valueType) (nextMeaning? m) (next (.scalar m.scalar))) :
    Computes (type?.bind nextType?) (meaning?.bind nextMeaning?) (outcome >>= next) := by
  rcases h with rfl | ⟨m, rfl, rfl, rfl⟩
  · exact .inl rfl
  · exact hnext m

theorem computes_applyUnary {tier : Tier} {l : Lexeme} {operator : UnaryOperator}
    (h : tier.Precedes l operator) (m : Datum) :
    Computes (operator.resultType? m.scalar.valueType) (operator.onDatum? m)
      (applyUnary operator (.scalar m.scalar)) := by
  cases h <;> cases m <;> first | exact .inr ⟨_, rfl, rfl, rfl⟩ | exact .inl rfl

/-- The comparisons of two integers. -/
theorem computes_comparison (c : Comparison) (a b : Int) :
    Computes (c.operator.resultType? .numeric .numeric) (some (.truth (decide (c.Holds a b))))
      (applyBinary c.operator (.number (.int a)) (.number (.int b))) := by
  refine .inr ⟨_, rfl, c.applyBinary_ints a b, ?_⟩
  cases c <;> rfl

theorem computes_ints {operator : BinaryOperator} (hdiv : operator ≠ .div) (a b : Int) :
    Computes (operator.resultType? .numeric .numeric) (operator.onInts? a b)
      (applyBinary operator (.number (.int a)) (.number (.int b))) := by
  cases operator with
  | add => exact .inr ⟨.int (a + b), rfl, rfl, rfl⟩
  | sub => exact .inr ⟨.int (a - b), rfl, rfl, rfl⟩
  | mul => exact .inr ⟨.int (a * b), rfl, rfl, rfl⟩
  | div => exact absurd rfl hdiv
  | less => exact computes_comparison .less a b
  | lessEqual => exact computes_comparison .lessEqual a b
  | greater => exact computes_comparison .greater a b
  | greaterEqual => exact computes_comparison .greaterEqual a b
  | equal => exact computes_comparison .equal a b
  | notEqual => exact computes_comparison .notEqual a b
  | and => exact .inl rfl
  | or => exact .inl rfl
  | other symbol => exact .inl rfl

theorem computes_truths (operator : BinaryOperator) (a b : Bool) :
    Computes (operator.resultType? .boolean .boolean) (operator.onTruths? a b)
      (applyBinary operator (.bool a) (.bool b)) := by
  have hsame (operator : BinaryOperator) :
      sameKindEqual operator (.bool a) (.bool b) = .ok (a == b) :=
    congrArg Except.ok (Entry.same_bool a b)
  cases operator with
  | and => exact .inr ⟨.truth (a && b), rfl, rfl, rfl⟩
  | or => exact .inr ⟨.truth (a || b), rfl, rfl, rfl⟩
  | equal =>
    exact .inr ⟨.truth (a == b), rfl, Outcome.bind_eq_ok_iff.2 ⟨_, hsame .equal, rfl⟩, rfl⟩
  | notEqual =>
    exact .inr ⟨.truth (a != b), rfl, Outcome.bind_eq_ok_iff.2 ⟨_, hsame .notEqual, rfl⟩, rfl⟩
  | _ => exact .inl rfl

/-- Every operator but the quotient computes what it means. -/
theorem computes_applyBinary {operator : BinaryOperator} (hdiv : operator ≠ .div) (m n : Datum) :
    Computes (operator.resultType? m.scalar.valueType n.scalar.valueType) (operator.onData? m n)
      (applyBinary operator (.scalar m.scalar) (.scalar n.scalar)) := by
  cases m with
  | int a =>
    cases n with
    | int b => exact computes_ints hdiv a b
    | truth b => cases operator <;> exact .inl rfl
  | truth a =>
    cases n with
    | int b => cases operator <;> exact .inl rfl
    | truth b => exact computes_truths operator a b

/-! ## Derivations -/

/-- Digits are read as the number that has them to base ten. -/
theorem digitsValue_eq_decimalValue (digits : List Char) :
    Text.digitsValue digits = decimalValue digits := by
  induction digits using List.reverseRecOn with
  | nil => rfl
  | append_singleton digits c ih =>
    rw [Text.digitsValue_append_singleton, ih, decimalValue, decimalValue, List.reverse_concat,
      List.map_cons, Nat.ofDigits_cons]
    exact Nat.add_comm _ _

/-- Whether a lexeme can be computed with: a literal is an integer, a name stands in the scope
for what it means, and a quotient is not taken. -/
def Lexeme.Suits (scope : Scope) (data : String → Datum) : Lexeme → Prop
  | .number numeral => numeral.fraction = none ∧ numeral.exponent = none
  | .name text => scope text = some (.scalar (data text).scalar)
  | .symbol mark => mark ≠ .divide
  | _ => True

section Derivations

variable {scope : Scope} {data : String → Datum}

/-- The types of what names mean. -/
def typesOf (data : String → Datum) (name : String) : Option ValueType :=
  some (data name).scalar.valueType

theorem Leaf.computes {l : Lexeme} {e : Expr} (h : Leaf l e) (hsuits : l.Suits scope data) :
    Computes (e.type? (typesOf data)) (l.meaning? data) (e.value scope) := by
  cases h with
  | number numeral =>
    obtain ⟨digits, fraction, exponent⟩ := numeral
    obtain ⟨rfl, rfl⟩ := hsuits
    refine .inr ⟨.int (Text.digitsValue digits), ?_, rfl, rfl⟩
    rw [digitsValue_eq_decimalValue]
    rfl
  | true => exact .inr ⟨.truth Bool.true, rfl, rfl, rfl⟩
  | false => exact .inr ⟨.truth Bool.false, rfl, rfl, rfl⟩
  | name text => exact .inr ⟨data text, rfl, lookUp_eq_ok_iff.2 ⟨_, hsuits, rfl⟩, rfl⟩

theorem Tier.Joins.ne_div {tier : Tier} {l : Lexeme} {operator : BinaryOperator}
    (h : tier.Joins l operator) (hsuits : l.Suits scope data) : operator ≠ .div := by
  cases h <;> first | exact absurd rfl hsuits | exact nofun

/-- Two operands and an operator between them that is no quotient. -/
theorem Computes.binary {left right : Expr} {a? b? : Option Datum} {operator : BinaryOperator}
    (hdiv : operator ≠ .div)
    (hleft : Computes (left.type? (typesOf data)) a? (left.value scope))
    (hright : Computes (right.type? (typesOf data)) b? (right.value scope)) :
    Computes ((Expr.binaryOf operator left right).type? (typesOf data))
      (a?.bind fun a => b?.bind (operator.onData? a))
      ((Expr.binaryOf operator left right).value scope) :=
  hleft.bind fun m => hright.bind fun n => computes_applyBinary hdiv m n

mutual

/-- The expression of a derivation computes what the derivation means. -/
theorem Derivation.computes {tier : Tier} : (d : Derivation tier) →
    (∀ l ∈ d.lexemes, l.Suits scope data) →
      Computes (d.tree.type? (typesOf data)) (d.meaning? data) (d.tree.value scope)
  | .chain _ first links, h => by
    have hfirst := first.computes fun l hl => h l (List.mem_append_left _ hl)
    exact links.computes (fun l hl => h l (List.mem_append_right _ hl)) hfirst
  | .prefixed _ _ hmark operand, h => by
    have hoperand := operand.computes fun l hl => h l (List.mem_cons_of_mem _ hl)
    exact hoperand.bind (computes_applyUnary hmark)
  | .plain _ operand, h => operand.computes h
  | .single operand, h => operand.computes h
  | .compared left mark _ hmark right, h => by
    have hleft := left.computes fun l hl => h l (List.mem_append_left _ hl)
    have hright := right.computes fun l hl =>
      h l (List.mem_append_right _ (List.mem_cons_of_mem _ hl))
    have hdiv := hmark.ne_div (h mark (List.mem_append_right _ List.mem_cons_self))
    exact Computes.binary hdiv hleft hright
  | .leaf mark _ hleaf, h => hleaf.computes (h mark (List.mem_singleton_self mark))
  | .enclosed inner, h => inner.computes fun l hl =>
    h l (List.mem_append_left _ (List.mem_cons_of_mem _ hl))

theorem Links.computes {tier : Tier} {left : Expr} {left? : Option Datum} :
    (links : Links tier) → (∀ l ∈ links.lexemes, l.Suits scope data) →
      Computes (left.type? (typesOf data)) left? (left.value scope) →
        Computes ((links.tree left).type? (typesOf data)) (links.meaning? data left?)
          ((links.tree left).value scope)
  | .done, _, hleft => hleft
  | .link mark _ hmark operand rest, h, hleft => by
    have hoperand := operand.computes fun l hl =>
      h l (List.mem_append_left _ (List.mem_cons_of_mem _ hl))
    have hdiv := hmark.ne_div (h mark (List.mem_append_left _ List.mem_cons_self))
    exact rest.computes (fun l hl => h l (List.mem_append_right _ hl))
      (Computes.binary hdiv hleft hoperand)

end

end Derivations

/-! ## Whole formulas -/

/-- The lexemes of a text over integers can be computed with in a scope for its names. -/
theorem suits_of_ofFormula {source : String} {tokens : List Token} {scope : Scope}
    {data : String → Datum} (h : Token.ofFormula source = .ok tokens)
    (hintegral : ∀ t ∈ tokens, t.lexeme.IsIntegral)
    (hscope : ∀ t ∈ tokens, ∀ name, t.lexeme.name? = some name →
      scope name = some (.scalar (data name).scalar)) :
    ∀ l ∈ lexemesBeforeFinish tokens, l.Suits scope data := by
  intro l hl
  obtain ⟨t, ht, rfl⟩ := List.mem_map.1 ((List.takeWhile_sublist _).subset hl)
  obtain ⟨hdivide, hliteral⟩ := hintegral t ht
  have hname := hscope t ht
  have hscan := exists_scan_of_ofFormula h ht
  generalize t.lexeme = l at hdivide hliteral hname hscan ⊢
  cases l with
  | number numeral =>
    obtain ⟨cs, rest, hscan⟩ := hscan nofun
    have hwhole := Numeral.eq_whole_of_scan? (Lexeme.numeralScan_of_scan? hscan) (hliteral rfl)
    exact ⟨congrArg Numeral.fraction hwhole, congrArg Numeral.exponent hwhole⟩
  | name text => exact hname text rfl
  | symbol mark =>
    rintro rfl
    exact hdivide rfl
  | keyword word => trivial
  | opening => trivial
  | closing => trivial
  | finish => trivial

/-- Formulas over integers are exact and total. Without `/` and without literals that have a
point or an exponent, and with integers of any size and booleans for its names, a formula that
is well typed has a value, which is of its type: an integer, and never a floating-point number,
if the type is numeric. It is what the formula means as it is read by the grammar, in integer
arithmetic, comparison of integers and logic. -/
theorem integers_are_exact {limits : Limits} {path source : String} {f : Formula}
    {tokens : List Token} (hcompile : compile limits path source = .ok f)
    (htokens : Token.ofFormula source = .ok tokens)
    (hintegral : ∀ t ∈ tokens, t.lexeme.IsIntegral) {scope : Scope} {data : String → Datum}
    (hscope : ∀ name ∈ f.variableNames, scope name = some (.scalar (data name).scalar))
    {type : ValueType} (htype : f.root.type? (typesOf data) = some type) :
    ∃ m : Datum, f.evaluate scope = .ok (.scalar m.scalar) ∧ m.scalar.valueType = type ∧
      (∃ d : Derivation .disjunction, d.lexemes = lexemesBeforeFinish tokens ∧
        d.meaning? data = some m) ∧
      ∀ d : Derivation .disjunction, d.lexemes = lexemesBeforeFinish tokens →
        d.meaning? data = some m := by
  obtain ⟨tokens', htokens', d, hlexemes, htree⟩ := exists_derivation_of_compile hcompile
  cases htokens.symm.trans htokens'
  obtain ⟨tokens', htokens', hnames⟩ := mem_variableNames_iff hcompile
  cases htokens.symm.trans htokens'
  have hsuits := suits_of_ofFormula htokens hintegral fun t ht name hname =>
    hscope name ((hnames name).2 ⟨t, ht, hname⟩)
  have hcomputes (d' : Derivation .disjunction)
      (hlexemes' : d'.lexemes = lexemesBeforeFinish tokens) :
      ∃ m : Datum, d'.meaning? data = some m ∧ f.root.value scope = .ok (.scalar m.scalar) ∧
        m.scalar.valueType = type := by
    have htree' : d'.tree = f.root :=
      (Derivation.tree_eq_of_lexemes_eq (hlexemes'.trans hlexemes.symm)).trans htree
    have hsteps := d'.computes (hlexemes' ▸ hsuits)
    rw [htree', htype] at hsteps
    rcases hsteps with hnone | ⟨m, hmeaning, hvalue, hm⟩
    · cases hnone
    · exact ⟨m, hmeaning, hvalue, (Option.some.inj hm).symm⟩
  obtain ⟨m, hmeaning, hvalue, hm⟩ := hcomputes d hlexemes
  have hfinite : isNotFinite (.scalar m.scalar) = false := by cases m <;> rfl
  refine ⟨m, evaluate_eq_ok_iff.2 ⟨hvalue, hfinite⟩, hm, ⟨d, hlexemes, hmeaning⟩, ?_⟩
  intro d' hlexemes'
  obtain ⟨m', hmeaning', hvalue', -⟩ := hcomputes d' hlexemes'
  have hsame : m.scalar = m'.scalar :=
    Value.scalar.inj (Except.ok.inj (hvalue.symm.trans hvalue'))
  rw [hmeaning', Datum.scalar_injective hsame]

/-- The derivation of `n - 1 - 07`, with the seven written in another script. -/
def takenTwice : Derivation .disjunction :=
  .chain rfl (.chain rfl (.plain rfl (.single (.chain rfl
    (.chain rfl (.plain rfl (.leaf _ _ (.name "n"))) .done)
    (.link _ _ .minus (.chain rfl (.plain rfl (.leaf _ _ (.number ⟨['1'], none, none⟩))) .done)
      (.link _ _ .minus
        (.chain rfl (.plain rfl (.leaf _ _ (.number ⟨['0', '٧'], none, none⟩))) .done)
        .done))))) .done) .done

/-- `n - 1 - 07`, with the seven written in another script, takes eight from `n`, also from
`10 ^ 400`, which is beyond all floating-point numbers. -/
theorem integers_are_exact_takenTwice :
    compile ⟨64, 1024⟩ "formula" "n - 1 - 0٧" = .ok ⟨"n - 1 - 0٧", takenTwice.tree⟩ ∧
    Formula.evaluate ⟨"n - 1 - 0٧", takenTwice.tree⟩
      (.ofTable [("n", .number (.int (10 ^ 400)))]) = .ok (.int (10 ^ 400 - 8)) := by
  generalize (10 : Int) ^ 400 = large
  have htokens : Token.ofFormula "n - 1 - 0٧" =
      .ok [⟨.name "n", 0⟩, ⟨.symbol .minus, 2⟩, ⟨.number ⟨['1'], none, none⟩, 4⟩,
        ⟨.symbol .minus, 6⟩, ⟨.number ⟨['0', '٧'], none, none⟩, 8⟩, ⟨.finish, 10⟩] :=
    Outcome.toOption_eq_some_iff.1 (by decide +kernel)
  have hcompile : compile ⟨64, 1024⟩ "formula" "n - 1 - 0٧" =
      .ok ⟨"n - 1 - 0٧", takenTwice.tree⟩ :=
    compile_of_readAll (by decide) htokens ((readAll_iff_derivation (by simp) (by decide)).2
      ⟨takenTwice, rfl, rfl, by decide, by decide, by decide⟩)
  have hscope : ∀ name ∈ Formula.variableNames ⟨"n - 1 - 0٧", takenTwice.tree⟩,
      Scope.ofTable [("n", .number (.int large))] name =
        some (.scalar ((fun _ : String => Datum.int large) name).scalar) := by
    have hnames : Formula.variableNames ⟨"n - 1 - 0٧", takenTwice.tree⟩ = ["n"] := by decide
    rw [hnames]
    simp [Table.get?_cons, Datum.scalar]
  have hmeaning : takenTwice.meaning? (fun _ => .int large) = some (.int (large - 8)) := by
    have hone : decimalValue ['1'] = 1 := by decide
    have hseven : decimalValue ['0', '٧'] = 7 := by decide
    show some (Datum.int (large - decimalValue ['1'] - decimalValue ['0', '٧'])) = _
    rw [hone, hseven, Int.sub_sub]
    rfl
  obtain ⟨m, hvalue, -, -, hall⟩ := integers_are_exact hcompile htokens
    (by simp [Lexeme.IsIntegral, Lexeme.sort, Lexeme.chars, Numeral.chars]) hscope
    (show takenTwice.tree.type? _ = some .numeric from rfl)
  cases hmeaning.symm.trans (hall takenTwice rfl)
  exact ⟨hcompile, hvalue⟩

end Formula

end Tariff
