import MonkeyLang.Fault

/-! Nodes of a program's tree. Parsing builds only some of them (a block is never an operand), but a tree may come
from elsewhere: any node, a list of nodes or nothing may stand where a node or a list is expected. -/

namespace MonkeyLang

inductive NodeKind
  | bare
  | program
  | letBinding
  | returning
  | statement
  | block
  | identifier
  | integer
  | boolean
  | unary
  | binary
  | conditional
  | function
  | call
deriving DecidableEq

namespace NodeKind

def name : NodeKind → String
  | bare => "node"
  | program => "program"
  | letBinding => "let"
  | returning => "return"
  | statement => "expression_statement"
  | block => "block"
  | identifier => "identifier"
  | integer => "integer"
  | boolean => "boolean"
  | unary => "prefix"
  | binary => "infix"
  | conditional => "if"
  | function => "function"
  | call => "call"

/-- The constructor that a description shows. -/
def constructorName : NodeKind → String
  | bare => "ASTNode"
  | program => "Program"
  | letBinding => "LetStatement"
  | returning => "ReturnStatement"
  | statement => "ExpressionStatement"
  | block => "BlockStatement"
  | identifier => "Identifier"
  | integer => "IntegerLiteral"
  | boolean => "Boolean"
  | unary => "PrefixExpression"
  | binary => "InfixExpression"
  | conditional => "IfExpression"
  | function => "FunctionLiteral"
  | call => "CallExpression"

end NodeKind

/-- A node with the token that introduces it: the keyword of a statement, the operator of a binary node, the
parenthesis of a call. Statements, parameters and arguments are a `sequence` in a tree that was parsed. -/
inductive Node
  /-- A node that is of no particular kind. -/
  | bare (token : Option Token)
  | program (statements : Node)
  | letBinding (token : Option Token) (name value : Node)
  | returning (token : Option Token) (value : Node)
  /-- A statement that consists of one expression. -/
  | statement (token : Option Token) (expression : Node)
  | block (token : Option Token) (statements : Node)
  | identifier (token : Option Token) (name : String)
  | integer (token : Option Token) (value : Int)
  | boolean (token : Option Token) (value : Bool)
  | unary (token : Option Token) (operator : String) (right : Node)
  | binary (token : Option Token) (left : Node) (operator : String) (right : Node)
  | conditional (token : Option Token) (condition consequence alternative : Node)
  | function (token : Option Token) (parameters body : Node)
  | call (token : Option Token) (callee arguments : Node)
  /-- Nothing in the place of a node. -/
  | missing
  | sequence (nodes : List Node)

namespace Node

def token? : Node → Option Token
  | bare token | letBinding token _ _ | returning token _ | statement token _ | block token _
  | identifier token _ | integer token _ | boolean token _ | unary token _ _ | binary token _ _ _
  | conditional token _ _ _ | function token _ _ | call token _ _ => token
  | program _ | missing | sequence _ => none

def position (node : Node) : Position :=
  match node.token? with
  | some token => token.position
  | none => .nowhere

/-- What is missing and what is a list have no kind. -/
def kind? : Node → Option NodeKind
  | bare _ => some .bare
  | program _ => some .program
  | letBinding _ _ _ => some .letBinding
  | returning _ _ => some .returning
  | statement _ _ => some .statement
  | block _ _ => some .block
  | identifier _ _ => some .identifier
  | integer _ _ => some .integer
  | boolean _ _ => some .boolean
  | unary _ _ _ => some .unary
  | binary _ _ _ _ => some .binary
  | conditional _ _ _ _ => some .conditional
  | function _ _ _ => some .function
  | call _ _ _ => some .call
  | missing | sequence _ => none

/-- The sort of thing that a fault names. -/
def sort (node : Node) : String :=
  match node with
  | sequence _ => "list"
  | _ => (node.kind?.map NodeKind.constructorName).getD Fault.nothing

/-- The nodes of a list that is put to a use. -/
def elements (use : ListUse) : Node → Except Fault (List Node)
  | sequence nodes => .ok nodes
  | node => .error (.noList node.sort use)

/-- The text of the node's token; that of its first statement for a program. -/
def literal : Node → Except Fault String
  | program (sequence []) => .ok ""
  | program (sequence (first :: _)) => first.literal
  | program node => .error (.noList node.sort .first)
  | node =>
    match node.kind? with
    | some _ => .ok (node.token?.elim "" Token.literal)
    | none => .error (.lacks node.sort .literal)

mutual

/-- The number of nodes on the longest way down. -/
def height : Node → Nat
  | bare _ | identifier _ _ | integer _ _ | boolean _ _ | missing => 1
  | program child | block _ child | returning _ child | statement _ child | unary _ _ child => child.height + 1
  | letBinding _ first second | binary _ first _ second | function _ first second | call _ first second =>
    max first.height second.height + 1
  | conditional _ condition consequence alternative =>
    max condition.height (max consequence.height alternative.height) + 1
  | sequence nodes => heightOfAll nodes + 1
termination_by structural node => node

def heightOfAll : List Node → Nat
  | [] => 0
  | node :: rest => max node.height (heightOfAll rest)
termination_by structural nodes => nodes

end

theorem height_pos (node : Node) : 0 < node.height := by
  cases node <;> simp only [height, Nat.succ_pos]

mutual

/-- The node without any token: what is left is its kind and its fields. -/
def shape : Node → Node
  | bare _ => bare none
  | program statements => program statements.shape
  | letBinding _ name value => letBinding none name.shape value.shape
  | returning _ value => returning none value.shape
  | statement _ expression => statement none expression.shape
  | block _ statements => block none statements.shape
  | identifier _ name => identifier none name
  | integer _ value => integer none value
  | boolean _ value => boolean none value
  | unary _ operator right => unary none operator right.shape
  | binary _ left operator right => binary none left.shape operator right.shape
  | conditional _ condition consequence alternative =>
    conditional none condition.shape consequence.shape alternative.shape
  | function _ parameters body => function none parameters.shape body.shape
  | call _ callee arguments => call none callee.shape arguments.shape
  | missing => missing
  | sequence nodes => sequence (shapes nodes)
termination_by structural node => node

def shapes : List Node → List Node
  | [] => []
  | node :: rest => node.shape :: shapes rest
termination_by structural nodes => nodes

end

theorem shapes_eq_map (nodes : List Node) : shapes nodes = nodes.map shape := by
  induction nodes with
  | nil => rfl
  | cons node rest ih => simp only [shapes, List.map_cons, ih]

end Node

end MonkeyLang
