import MonkeyLang.Proofs.GrammarAcceptance

/-! Scripts of parsing. A script spells a step out in single actions, down to the blocks in it, so that the statements which
the step begins can be listed. It also accounts for statements: a result holds no more of them than its parts do. -/

namespace MonkeyLang

namespace Node

/-- The length of a list of nodes. -/
def listed : Node → Nat
  | sequence nodes => nodes.length
  | _ => 0

mutual

/-- The number of statements in all lists of statements of a tree, those in blocks and that of a program. -/
def statements : Node → Nat
  | program body | block _ body => body.listed + body.statements
  | letBinding _ name value => name.statements + value.statements
  | returning _ value => value.statements
  | statement _ expression => expression.statements
  | unary _ _ right => right.statements
  | binary _ left _ right => left.statements + right.statements
  | conditional _ condition consequence alternative =>
    condition.statements + consequence.statements + alternative.statements
  | function _ parameters body => parameters.statements + body.statements
  | call _ callee arguments => callee.statements + arguments.statements
  | sequence nodes => statementsOfAll nodes
  | bare _ | identifier _ _ | integer _ _ | boolean _ _ | missing => 0
termination_by structural node => node

def statementsOfAll : List Node → Nat
  | [] => 0
  | node :: nodes => node.statements + statementsOfAll nodes
termination_by structural nodes => nodes

end

theorem statementsOfAll_append (nodes others : List Node) :
    statementsOfAll (nodes ++ others) = statementsOfAll nodes + statementsOfAll others := by
  induction nodes with
  | nil => rw [List.nil_append, statementsOfAll, Nat.zero_add]
  | cons node nodes ih => rw [List.cons_append, statementsOfAll, statementsOfAll, ih, Nat.add_assoc]

theorem statementsOfAll_reverse (nodes : List Node) : statementsOfAll nodes.reverse = statementsOfAll nodes := by
  induction nodes with
  | nil => rfl
  | cons node nodes ih =>
    rw [List.reverse_cons, statementsOfAll_append, ih, statementsOfAll, statementsOfAll, statementsOfAll]
    omega

end Node

namespace Parse

/-- How a step is put together from single actions and blocks. The numbers account for statements: how many are held from
what was read before, and how many each result yields, which are those that are held and those of the blocks. -/
inductive Script : {α : Type} → Parse α → Nat → (α → Nat) → Type 1
  | pure {α : Type} {held : Nat} {yields : α → Nat} (value : α) (kept : yields value ≤ held) :
      Script (pure value) held yields
  | get {held : Nat} : Script get held fun _ => held
  | advance {held : Nat} : Script advance held fun _ => held
  | unreadable {α : Type} {held : Nat} {yields : α → Nat} (error : SyntaxError) : Script (unreadable error) held yields
  | fault {α : Type} {held : Nat} {yields : α → Nat} (cause : Fault) : Script (fault cause) held yields
  | bind {α β : Type} {step : Parse α} {next : α → Parse β} {held : Nat} {passes : α → Nat} {yields : β → Nat}
      (first : Script step held passes) (later : ∀ value, Script (next value) (passes value) yields) :
      Script (step >>= next) held yields
  | ite {α : Type} {yes no : Parse α} {held : Nat} {yields : α → Nat} (condition : Prop) [Decidable condition]
      (first : Script yes held yields) (second : Script no held yields) :
      Script (if condition then yes else no) held yields
  | block {expression : Int → Parse Node} {held : Nat}
      (body : Script (statement expression) 0 fun node => 0 + node.statements) :
      Script (block expression) held fun node => held + node.statements

/-- What is left of the tokens where each statement of a list begins, and where those inside of it do. -/
def roundStarts (expression : Int → Parse Node) (terminator : Kind) (inner : Parser → List (List Token)) :
    Nat → Parser → List (List Token)
  | 0, _ => []
  | rounds + 1, before =>
    if before.current.kind = terminator || before.current.kind = .endOfInput then []
    else before.rest :: (inner before ++
      match (recovering terminator (do let node ← statement expression; advance; return node)).outcome before with
      | (.ok _, after) => roundStarts expression terminator inner rounds after
      | (.error _, _) => [])

/-- The same for a list from its first statement on. -/
def listStarts (expression : Int → Parse Node) (terminator : Kind) (inner : Parser → List (List Token)) (before : Parser) :
    List (List Token) :=
  roundStarts expression terminator inner (before.rest.length + 1) before

/-- The script of a step that reads a node and holds on to everything else. -/
abbrev NodeScript (step : Parse Node) (held : Nat) : Type 1 := Script step held fun node => held + node.statements

namespace Script

/-- What is left of the tokens at the beginning of each statement that is called for, one after the other. -/
def starts {α : Type} {step : Parse α} {held : Nat} {yields : α → Nat} :
    Script step held yields → Parser → List (List Token)
  | .pure _ _, _ | .get, _ | .advance, _ | .unreadable _, _ | .fault _, _ => []
  | @bind _ _ step _ _ _ _ first later, before => first.starts before ++
    match step.outcome before with
    | (.ok value, after) => (later value).starts after
    | (.error _, _) => []
  | @ite _ _ _ _ _ condition _ first second, before => if condition then first.starts before else second.starts before
  | @block expression _ body, before => listStarts expression .rightBrace body.starts before.advance

variable {held : Nat}

def current : Script current held fun _ => held := .bind .get fun _ => .pure _ (Nat.le_refl _)

def upcoming : Script upcoming held fun _ => held := .bind .get fun _ => .pure _ (Nat.le_refl _)

def expect (kind : Kind) : Script (expect kind) held fun _ => held :=
  .bind .upcoming fun _ => .ite _ .advance (.unreadable _)

def passSemicolon : Script passSemicolon held fun _ => held :=
  .bind .upcoming fun _ => .ite _ .advance (.pure _ (Nat.le_refl _))

def identifier : NodeScript identifier held := .bind .current fun _ => .pure _ (Nat.le_refl _)

def boolean : NodeScript boolean held := .bind .current fun _ => .pure _ (Nat.le_refl _)

def integer : NodeScript integer held :=
  .bind .current fun token =>
    match Numeral.read token.literal with
    | .error _ => .fault _
    | .ok _ => .ite _ (.unreadable _) (.pure _ (Nat.le_refl _))

def moreParameters {kept : Nat} : (held rounds : Nat) → (read : List Node) → kept + Node.statementsOfAll read ≤ held →
    Script (moreParameters rounds read) held fun nodes => kept + Node.statementsOfAll nodes
  | _, 0, _, _ => .fault _
  | _, rounds + 1, read, fits => .bind .upcoming fun _ => .ite _
      (.bind .advance fun _ => .bind (.expect _) fun _ => .bind .identifier fun name =>
        moreParameters _ rounds (name :: read) (by rw [Node.statementsOfAll]; omega))
      (.pure _ (by rwa [Node.statementsOfAll_reverse]))

def parameters : Script parameters held fun nodes => held + Node.statementsOfAll nodes :=
  .bind .upcoming fun _ => .ite _ (.bind .advance fun _ => .pure _ (Nat.le_refl _)) <|
    .bind (.expect _) fun _ => .bind .identifier fun first => .bind .get fun _ =>
      .bind (.moreParameters _ _ [first] (Nat.le_refl _)) fun _ => .bind (.expect _) fun _ => .pure _ (Nat.le_refl _)

section Levels

variable {expression : Int → Parse Node} (below : ∀ held floor, NodeScript (expression floor) held)
include below

def letBinding : NodeScript (letBinding expression) held :=
  .bind .current fun _ => .bind (.expect _) fun _ => .bind .identifier fun _ => .bind (.expect _) fun _ =>
    .bind .advance fun _ => .bind (below _ _) fun _ => .bind .passSemicolon fun _ =>
      .pure _ (Nat.add_assoc .. ▸ Nat.le_refl _)

def returning : NodeScript (returning expression) held :=
  .bind .current fun _ => .bind .advance fun _ => .bind (below _ _) fun _ => .bind .passSemicolon fun _ =>
    .pure _ (Nat.le_refl _)

def expressionStatement : NodeScript (expressionStatement expression) held :=
  .bind .current fun _ => .bind (below _ _) fun _ => .bind .passSemicolon fun _ => .pure _ (Nat.le_refl _)

def statement : NodeScript (statement expression) held := by
  refine .bind .current fun token => ?_
  split
  · exact letBinding below
  · exact returning below
  · exact expressionStatement below

def unary : NodeScript (unary expression) held :=
  .bind .current fun _ => .bind .advance fun _ => .bind (below _ _) fun _ => .pure _ (Nat.le_refl _)

def binary {kept : Nat} (left : Node) (fits : kept + left.statements ≤ held) :
    Script (binary expression left) held fun node => kept + node.statements :=
  .bind .current fun _ => .bind .advance fun _ => .bind (below _ _) fun _ => .pure _ (by rw [Node.statements]; omega)

def grouped : NodeScript (grouped expression) held :=
  .bind .advance fun _ => .bind (below _ _) fun _ => .bind (.expect _) fun _ => .pure _ (Nat.le_refl _)

def conditional : NodeScript (conditional expression) held :=
  .bind .current fun _ => .bind (.expect _) fun _ => .bind .advance fun _ => .bind (below _ _) fun _ =>
    .bind (.expect _) fun _ => .bind (.expect _) fun _ => .bind (.block (statement below)) fun _ => .bind .upcoming fun _ =>
      .ite _ (.bind .advance fun _ => .bind (.expect _) fun _ => .bind (.block (statement below)) fun _ =>
        .pure _ (by simp only [Node.statements]; omega)) (.pure _ (by simp only [Node.statements]; omega))

def functionLiteral : NodeScript (functionLiteral expression) held :=
  .bind .current fun _ => .bind (.expect _) fun _ => .bind .parameters fun _ => .bind (.expect _) fun _ =>
    .bind (.block (statement below)) fun _ => .pure _ (by simp only [Node.statements]; omega)

def moreExpressions {kept : Nat} : (held rounds : Nat) → (read : List Node) → kept + Node.statementsOfAll read ≤ held →
    Script (moreExpressions expression rounds read) held fun nodes => kept + Node.statementsOfAll nodes
  | _, 0, _, _ => .fault _
  | _, rounds + 1, read, fits => .bind .upcoming fun _ => .ite _
      (.bind .advance fun _ => .bind .advance fun _ => .bind (below _ _) fun node =>
        moreExpressions _ rounds (node :: read) (by rw [Node.statementsOfAll]; omega))
      (.pure _ (by rwa [Node.statementsOfAll_reverse]))

def expressions (closing : Kind) :
    Script (expressions expression closing) held fun nodes => held + Node.statementsOfAll nodes :=
  .bind .upcoming fun _ => .ite _ (.bind .advance fun _ => .pure _ (Nat.le_refl _)) <|
    .bind .advance fun _ => .bind (below _ _) fun first => .bind .get fun _ =>
      .bind (moreExpressions below _ _ [first] (Nat.le_refl _)) fun _ => .bind (.expect _) fun _ => .pure _ (Nat.le_refl _)

def call {kept : Nat} (callee : Node) (fits : kept + callee.statements ≤ held) :
    Script (call expression callee) held fun node => kept + node.statements :=
  .bind .current fun _ => .bind (expressions below _) fun _ =>
    .pure _ (by rw [Node.statements, Node.statements]; omega)

def operand : NodeScript (operand expression) held := by
  refine .bind .current fun token => ?_
  split
  · exact identifier
  · exact integer
  · exact boolean
  · exact boolean
  · exact unary below
  · exact unary below
  · exact grouped below
  · exact conditional below
  · exact functionLiteral below
  · exact .unreadable _

def operators (floor : Int) {kept : Nat} : (held rounds : Nat) → (left : Node) → kept + left.statements ≤ held →
    Script (operators expression floor rounds left) held fun node => kept + node.statements
  | _, 0, _, _ => .fault _
  | _, rounds + 1, left, fits => .bind .upcoming fun _ => .ite _
      (.ite _ (.bind .advance fun _ => .bind (call below left fits) fun node =>
          operators floor _ rounds node (Nat.le_refl _)) <|
        .ite _ (.bind .advance fun _ => .bind (binary below left fits) fun node =>
          operators floor _ rounds node (Nat.le_refl _)) (.pure _ fits))
      (.pure _ fits)

def level (floor : Int) : NodeScript (level expression floor) held :=
  .bind (operand below) fun _ => .bind .get fun _ => operators below floor _ _ _ (Nat.le_refl _)

end Levels

def expression : (limit held : Nat) → (floor : Int) → NodeScript (expression limit floor) held
  | 0, _, _ => .fault _
  | limit + 1, _, floor => level (expression limit) floor

/-- The script of a statement in a list. -/
def listed (limit : Nat) : NodeScript (Parse.statement (Parse.expression limit)) 0 := statement (expression limit)

end Script

end Parse

/-- What is left of the tokens at the beginning of each statement that reading them calls for, of those of the program and
of those in blocks. -/
def Parsed.statementStarts (limit : Nat) (tokens : List Token) : List (List Token) :=
  Parse.listStarts (Parse.expression limit) .endOfInput (Parse.Script.listed limit).starts (.ofTokens tokens)

end MonkeyLang
