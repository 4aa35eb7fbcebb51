import MonkeyLang.Proofs.SoundRuns

/-! Arithmetic that wraps around. Sums, differences, products and negations are folded into the signed 64-bit range one by
one. Folding is compatible with all of them, so what an expression comes to is its exact value, folded once. -/

namespace MonkeyLang

namespace Signed64

variable {value folded : Int}

theorem wrap_neg_wrap (value : Int) : wrap (-wrap value) = wrap (-value) := Int.bmod_neg_bmod

theorem wrap_add_wrap (left right : Int) : wrap (wrap left + wrap right) = wrap (left + right) :=
  (Int.add_bmod left right modulus).symm

theorem wrap_sub_wrap (left right : Int) : wrap (wrap left - wrap right) = wrap (left - right) := by
  rw [wrap, wrap, wrap, Int.bmod_sub_bmod, Int.sub_bmod_bmod, wrap]

theorem wrap_mul_wrap (left right : Int) : wrap (wrap left * wrap right) = wrap (left * right) :=
  (Int.mul_bmod left right modulus).symm

/-- The folded integer is the only one in range that differs by a multiple of the number of words. -/
theorem wrap_eq_iff : wrap value = folded ↔ InRange folded ∧ folded ≡ value [ZMOD modulus] := by
  have bounds : InRange folded ↔ -(modulus / 2 : Int) ≤ folded ∧ folded < (modulus + 1 : Int) / 2 := by
    simp only [InRange, least, greatest, modulus]
    omega
  rw [wrap, Int.bmod_eq_iff (by decide), bounds, Int.modEq_comm, Int.modEq_iff_dvd, and_assoc]

theorem wrap_of_inRange (inRange : InRange value) : wrap value = value := wrap_eq_iff.mpr ⟨inRange, .refl value⟩

end Signed64

open Signed64 (wrap)

namespace Arithmetic

/-- What can be done with two integers. -/
inductive Operation
  | sum
  | difference
  | product

namespace Operation

def symbol : Operation → String
  | sum => "+"
  | difference => "-"
  | product => "*"

def kind : Operation → Kind
  | sum => .plus
  | difference => .minus
  | product => .asterisk

theorem kind_isBinary (operation : Operation) : operation.kind.isBinary = true := by
  cases operation <;> rfl

theorem spelled (operation : Operation) : Token.Spelled ⟨operation.kind, operation.symbol, .start⟩ := by
  cases operation with
  | sum => exact ⟨'+', [], rfl, rfl, by decide⟩
  | difference => exact ⟨'-', [], rfl, rfl, by decide⟩
  | product => exact ⟨'*', [], rfl, rfl, by decide⟩

/-- The result over the unbounded integers. -/
def exact (first second : Int) : Operation → Int
  | sum => first + second
  | difference => first - second
  | product => first * second

theorem applyInteger_wrap (operation : Operation) (first second : Int) :
    Operator.applyInteger operation.symbol (wrap first) (wrap second) = .integer (wrap (operation.exact first second)) := by
  cases operation with
  | sum => exact congrArg Value.integer (Signed64.wrap_add_wrap first second)
  | difference => exact congrArg Value.integer (Signed64.wrap_sub_wrap first second)
  | product => exact congrArg Value.integer (Signed64.wrap_mul_wrap first second)

end Operation

end Arithmetic

/-- Expressions of integer arithmetic. A literal is not negative and fits into a signed 64-bit integer. -/
inductive Arithmetic
  | literal (value : Fin (2 ^ 63))
  | negation (right : Arithmetic)
  | combined (operation : Arithmetic.Operation) (left right : Arithmetic)

namespace Arithmetic

/-- The value over the unbounded integers. -/
def exact : Arithmetic → Int
  | literal value => value.val
  | negation right => -right.exact
  | combined operation left right => operation.exact left.exact right.exact

/-- The tree of the expression, without tokens. -/
def tree : Arithmetic → Node
  | literal value => .integer none value.val
  | negation right => .unary none "-" right.tree
  | combined operation left right => .binary none left.tree operation.symbol right.tree

/-- The program that consists of the expression. -/
def program (expression : Arithmetic) : Node := .program (.sequence [.statement none expression.tree])

end Arithmetic

/-- The node is made of integer literals, negations, sums, differences and products. -/
inductive Node.IsArithmetic : Node → Prop
  | literal {token value} : IsArithmetic (.integer token value)
  | negation {token right} (operand : IsArithmetic right) : IsArithmetic (.unary token "-" right)
  | combined {token left right} (operation : Arithmetic.Operation) (one : IsArithmetic left) (other : IsArithmetic right) :
      IsArithmetic (.binary token left operation.symbol right)

namespace World

/-- Goes on with a plain value; a signal is passed on, and a value that is missing is a fault. -/
def onward (ended : Except Fault (Option Value) × World) (next : Value → World → Except Fault (Option Value) × World) :
    Except Fault (Option Value) × World :=
  match ended with
  | (.ok (some value), after) => if value.isSignal then (.ok (some value), after) else next value after
  | (.ok none, after) => (.error .noValue, after)
  | (.error cause, after) => (.error cause, after)

theorem run_checked (world : World) (step : Eval (Option Value)) (next : Value → Eval (Option Value)) :
    world.run (Eval.required step >>= fun value => if value.isSignal then pure (some value) else next value) =
      onward (world.run step) fun value after => after.run (next value) := by
  rw [run_bind, Eval.required, run_bind]
  rcases world.run step with ⟨cause | result, after⟩
  · rfl
  · cases result with
    | none => rfl
    | some value =>
      change after.run (ite _ _ _) = ite _ _ _
      split
      all_goals rfl

variable {world after : World} {depth scope : Nat} {token : Option Token} {operator : String} {left right : Node}

theorem eval_unary (world : World) : world.eval (depth + 1) (.unary token operator right) scope =
    onward (world.eval depth right scope) fun value after => (.ok (some (Operator.applyUnary operator value)), after) :=
  run_checked world _ _

theorem eval_binary (world : World) : world.eval (depth + 1) (.binary token left operator right) scope =
    onward (world.eval depth left scope) fun first middle => onward (middle.eval depth right scope) fun second after =>
      (.ok (some (Operator.applyBinary operator first second)), after) := by
  have inner (first : Value) (middle : World) := run_checked middle (Eval.eval depth right scope) fun second =>
    pure (some (Operator.applyBinary operator first second))
  have outer := run_checked world (Eval.eval depth left scope) fun first =>
    Eval.required (Eval.eval depth right scope) >>= fun second =>
      if second.isSignal then pure (some second) else pure (some (Operator.applyBinary operator first second))
  simp only [inner] at outer
  exact outer

theorem eval_statement {value : Value} (runs : world.eval depth right scope = (.ok (some value), after)) :
    world.eval (depth + 1) (.statement token right) scope = (.ok (some value), after) := by
  rw [eval] at runs
  rw [eval, Eval.eval, Eval.level, ← bind_pure_comp, run_bind, Eval.required, run_bind, runs]
  rfl

/-- A program of one statement has its value. -/
theorem eval_alone {value : Value} (plain : value.isSignal = false)
    (runs : world.eval depth right scope = (.ok (some value), after)) :
    world.eval (depth + 1) (.program (.sequence [right])) scope = (.ok (some value), after) := by
  rw [eval] at runs
  change world.run (Eval.programStatements _ _ _ _) = _
  rw [Eval.programStatements, run_bind, runs]
  cases value with
  | returned | returnedNothing | error => cases plain
  | null | boolean | integer | function => rfl

end World

namespace Arithmetic

/-- The node comes to the integer if there are as many levels as it is high, and is given up otherwise. Nothing changes. -/
def Computed (node : Node) (result : Int) : Prop := ∀ (world : World) (depth scope : Nat),
  world.eval depth node scope = (if node.height ≤ depth then .ok (some (.integer result)) else .error .exhausted, world)

variable {node left right : Node} {token : Option Token} {operator : String} {first second result : Int}

theorem computed_integer (token : Option Token) (value : Int) : Computed (.integer token value) value := by
  intro world depth scope
  cases depth with
  | zero => rfl
  | succ depth => exact congrArg (·, world) (if_pos (Nat.le_add_left 1 depth)).symm

theorem computed_negation (operand : Computed right first) : Computed (.unary token "-" right) (wrap (-first)) := by
  intro world depth scope
  cases depth with
  | zero => rfl
  | succ depth =>
    have height : (Node.unary token "-" right).height ≤ depth + 1 ↔ right.height ≤ depth := by
      rw [Node.height, Nat.add_le_add_iff_right]
    rw [World.eval_unary, operand world depth scope]
    by_cases room : right.height ≤ depth
    · rw [if_pos room, if_pos (height.mpr room)]
      rfl
    · rw [if_neg room, if_neg fun all => room (height.mp all)]
      rfl

theorem computed_operation (one : Computed left first) (other : Computed right second)
    (integer : Operator.applyInteger operator first second = .integer result) :
    Computed (.binary token left operator right) result := by
  intro world depth scope
  cases depth with
  | zero => rfl
  | succ depth =>
    have height : (Node.binary token left operator right).height ≤ depth + 1 ↔ left.height ≤ depth ∧ right.height ≤ depth := by
      rw [Node.height, Nat.add_le_add_iff_right, Nat.max_le]
    rw [World.eval_binary, one world depth scope]
    by_cases room : left.height ≤ depth
    · by_cases room' : right.height ≤ depth
      · rw [if_pos room, if_pos (height.mpr ⟨room, room'⟩), ← integer]
        change World.onward (world.eval depth right scope) _ = _
        rw [other world depth scope, if_pos room']
        rfl
      · rw [if_pos room, if_neg fun all => room' (height.mp all).2]
        change World.onward (world.eval depth right scope) _ = _
        rw [other world depth scope, if_neg room']
        rfl
    · rw [if_neg room, if_neg fun all => room (height.mp all).1]
      rfl

theorem computed (expression : Arithmetic) (same : node.shape = expression.tree) : Computed node (wrap expression.exact) := by
  induction expression generalizing node with
  | literal value =>
    cases node with
    | integer token given =>
      cases same
      have small := value.isLt
      have inRange : Signed64.InRange value.val := by
        simp only [Signed64.InRange, Signed64.least, Signed64.greatest]
        omega
      rw [exact, Signed64.wrap_of_inRange inRange]
      exact computed_integer token value.val
    | _ => cases same
  | negation right ih =>
    cases node with
    | unary token operator operand =>
      obtain ⟨-, rfl, operandSame⟩ := Node.unary.inj same
      rw [exact, ← Signed64.wrap_neg_wrap]
      exact computed_negation (ih operandSame)
    | _ => cases same
  | combined operation left right ih ih' =>
    cases node with
    | binary token one operator other =>
      obtain ⟨-, leftSame, rfl, rightSame⟩ := Node.binary.inj same
      exact computed_operation (ih leftSame) (ih' rightSame) (operation.applyInteger_wrap left.exact right.exact)
    | _ => cases same

theorem exists_statement (expression : Arithmetic) {program : Node} (same : program.shape = expression.program) :
    ∃ token node, program = .program (.sequence [.statement token node]) ∧ node.shape = expression.tree := by
  cases program with
  | program statements =>
    cases statements with
    | sequence nodes =>
      have alone := Node.sequence.inj (Node.program.inj same)
      rw [Node.shapes_eq_map, List.map_eq_singleton_iff] at alone
      obtain ⟨statement, rfl, only⟩ := alone
      cases statement with
      | statement token node => exact ⟨token, node, rfl, (Node.statement.inj only).2⟩
      | _ => cases only
    | _ => cases same
  | _ => cases same

/-- A program of one expression comes to what the expression comes to. -/
theorem program_computed (expression : Arithmetic) {program : Node} (same : program.shape = expression.program) (world : World)
    {depth : Nat} (scope : Nat) (room : program.height ≤ depth) :
    world.eval depth program scope = (.ok (some (.integer (wrap expression.exact))), world) := by
  obtain ⟨token, node, rfl, inside⟩ := expression.exists_statement same
  have height : (Node.program (.sequence [.statement token node])).height = node.height + 3 := by
    simp only [Node.height, Node.heightOfAll, Nat.max_zero]
  rw [height] at room
  obtain ⟨depth, rfl⟩ := Nat.exists_eq_add_of_le' room
  have value := expression.computed inside world (depth + node.height + 1) scope
  rw [if_pos (by omega)] at value
  exact World.eval_alone rfl (World.eval_statement value)

/-- A number that a text has is a literal. -/
theorem exists_literal {token : Token} {value : Int} (spelled : token.Spelled) (kind : token.kind = .integer)
    (read : Numeral.read token.literal = .ok value) (small : value ≤ Signed64.greatest) :
    ∃ number : Fin (2 ^ 63), value = number.val := by
  obtain ⟨-, rfl⟩ := spelled.numeral kind read
  refine ⟨⟨Grammar.decimal token.literal, ?_⟩, rfl⟩
  simp only [Signed64.greatest] at small
  omega

theorem exists_of_built (arithmetic : node.IsArithmetic) {role : Role} (built : Node.Built Token.Spelled role node) :
    ∃ expression : Arithmetic, node.shape = expression.tree := by
  induction arithmetic generalizing role with
  | literal =>
    cases built with
    | integer fit =>
      obtain ⟨given, -, spelled, kind, read, small⟩ := fit
      obtain ⟨number, rfl⟩ := exists_literal spelled kind read small
      exact ⟨.literal number, rfl⟩
  | negation _ ih =>
    cases built with
    | unary _ operand =>
      obtain ⟨right, same⟩ := ih operand
      exact ⟨.negation right, congrArg (Node.unary none "-") same⟩
  | combined operation _ _ ih ih' =>
    cases built with
    | binary _ one other =>
      obtain ⟨left, same⟩ := ih one
      obtain ⟨right, same'⟩ := ih' other
      exact ⟨.combined operation left right, by rw [Node.shape, same, same', tree]⟩

/-- Every expression can be written with tokens of texts. -/
theorem exists_built (expression : Arithmetic) :
    ∃ node : Node, node.shape = expression.tree ∧ Node.Built Token.Spelled .expression node := by
  induction expression with
  | literal value =>
    have small : (value.val : Int) ≤ Signed64.greatest := by
      have small := value.isLt
      simp only [Signed64.greatest]
      omega
    have plain := Numeral.plain_of_le_greatest small
    have read : Numeral.read (toString (value.val : Int)) = .ok value.val := by
      rw [Numeral.read_plain plain, Numeral.decimal_toString]
    exact ⟨_, rfl, .integer ⟨⟨.integer, _, .start⟩, rfl, .of_digits plain.ne_nil plain.digits, rfl, read, small⟩⟩
  | negation right ih =>
    obtain ⟨operand, same, built⟩ := ih
    refine ⟨.unary (some ⟨.minus, "-", .start⟩) "-" operand, congrArg (Node.unary none "-") same, .unary ?_ built⟩
    exact ⟨_, rfl, ⟨'-', [], rfl, rfl, rfl⟩, .inr rfl, rfl⟩
  | combined operation left right ih ih' =>
    obtain ⟨one, same, built⟩ := ih
    obtain ⟨other, same', built'⟩ := ih'
    refine ⟨.binary (some ⟨operation.kind, operation.symbol, .start⟩) one operation.symbol other, ?_, .binary ?_ built built'⟩
    · rw [Node.shape, same, same', tree]
    · exact ⟨_, rfl, operation.spelled, operation.kind_isBinary, rfl⟩

/-- The text of an expression is read as the program of it. -/
theorem program_parsed (expression : Arithmetic) {limit : Nat}
    (room : (Token.ofText expression.program.render).length < limit) :
    ∃ program, Parsed.ofText limit expression.program.render = ⟨.ok program, []⟩ ∧ program.shape = expression.program := by
  obtain ⟨node, same, built⟩ := expression.exists_built
  have shape : (Node.program (.sequence [.statement none node])).shape = expression.program := by
    simp only [Node.shape, Node.shapes, same, program]
  have whole : Node.Built Token.Spelled .program (.program (.sequence [.statement none node])) :=
    .program (List.forall_mem_singleton.mpr (.statement built))
  obtain ⟨again, derives, shape', numerals⟩ := Parsed.derives_of_built whole
  rw [← Node.render_shape, shape] at derives numerals
  exact ⟨again, Parsed.clean_of_derives numerals derives (Parsed.not_exhausted_of_length room), shape'.trans shape⟩

end Arithmetic

/-- Arithmetic that is folded at every step is folded once. Whatever node has the tree of an expression comes to the exact
value, folded, wherever it is evaluated, if there are as many levels as it is high, and is given up otherwise; so does a
program of it. Every node of a parsed text that is made of literals and these operators is such an expression, and every
expression has a text that is read as a program of it. Folding gives the only signed 64-bit integer that differs from the
exact value by a multiple of the number of words. -/
theorem folding_once :
    (∀ (expression : Arithmetic) (node : Node), node.shape = expression.tree → ∀ (world : World) (depth scope : Nat),
      world.eval depth node scope =
        (if node.height ≤ depth then .ok (some (.integer (wrap expression.exact))) else .error .exhausted, world)) ∧
    (∀ (expression : Arithmetic) (program : Node), program.shape = expression.program → ∀ (world : World) (depth scope : Nat),
      program.height ≤ depth → world.eval depth program scope = (.ok (some (.integer (wrap expression.exact))), world)) ∧
    (∀ {limit text} {program node : Node}, (Parsed.ofText limit text).result = .ok program → program.Within node →
      node.IsArithmetic → ∃ expression : Arithmetic, node.shape = expression.tree) ∧
    (∀ (expression : Arithmetic) (limit : Nat), (Token.ofText expression.program.render).length < limit →
      ∃ program, Parsed.ofText limit expression.program.render = ⟨.ok program, []⟩ ∧ program.shape = expression.program) ∧
    ∀ value folded : Int, wrap value = folded ↔ (-2 ^ 63 ≤ folded ∧ folded ≤ 2 ^ 63 - 1) ∧ folded ≡ value [ZMOD 2 ^ 64] := by
  refine ⟨fun expression node same => expression.computed same, ?_, ?_, ?_, ?_⟩
  · intro expression program same world depth scope room
    exact expression.program_computed same world scope room
  · intro limit text program node parsed within arithmetic
    obtain ⟨role, -, built⟩ := (Parsed.built_of_parsed parsed).within nofun within
    exact Arithmetic.exists_of_built arithmetic built
  · intro expression limit room
    exact expression.program_parsed room
  · intro value folded
    exact Signed64.wrap_eq_iff

namespace Parsed

/-- The expression `-(-9223372036854775807 - 1)`, whose exact value is the least integer that is too great. -/
def tooGreat : Arithmetic :=
  .negation (.combined .difference (.negation (.literal ⟨9223372036854775807, by decide⟩)) (.literal 1))

/-- Its tree, and the program of it. -/
def negatedLeast : Node :=
  .unary (some ⟨.minus, "-", ⟨1, 1⟩⟩) "-" (.binary (some ⟨.minus, "-", ⟨1, 24⟩⟩)
    (.unary (some ⟨.minus, "-", ⟨1, 3⟩⟩) "-"
      (.integer (some ⟨.integer, "9223372036854775807", ⟨1, 4⟩⟩) 9223372036854775807)) "-"
    (.integer (some ⟨.integer, "1", ⟨1, 26⟩⟩) 1))

def overflowing : Node := .program (.sequence [.statement (some ⟨.minus, "-", ⟨1, 1⟩⟩) negatedLeast])

theorem overflowing_folds :
    (ofText 20 "-(-9223372036854775807 - 1)").result = .ok overflowing ∧ overflowing.Within negatedLeast ∧
    negatedLeast.IsArithmetic ∧ (∃ expression : Arithmetic, negatedLeast.shape = expression.tree) ∧
    overflowing.shape = tooGreat.program ∧ overflowing.height = 7 ∧ tooGreat.exact = 2 ^ 63 ∧
    ∀ (world : World) (scope : Nat), world.eval 7 overflowing scope = (.ok (some (.integer (-2 ^ 63))), world) := by
  have parsed : (ofText 20 "-(-9223372036854775807 - 1)").result = .ok overflowing := by cbv
  have within : overflowing.Within negatedLeast := .child (.child .root List.mem_cons_self) List.mem_cons_self
  have arithmetic : negatedLeast.IsArithmetic :=
    .negation (.combined .difference (.negation .literal) .literal)
  have height : overflowing.height = 7 := by decide
  refine ⟨parsed, within, arithmetic, folding_once.2.2.1 parsed within arithmetic, rfl, height, rfl, ?_⟩
  intro world scope
  exact folding_once.2.1 tooGreat overflowing rfl world 7 scope (Nat.le_of_eq height)

end Parsed

end MonkeyLang
