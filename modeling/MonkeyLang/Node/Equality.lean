import MonkeyLang.Node.Basic

/-! Structural equality of nodes. Two nodes are the same when their kinds, the positions of their tokens and all
their fields are; what kind of token stands at a position does not count. -/

namespace MonkeyLang.Node

/-- Both tokens stand at one position; a token that is absent stands nowhere. -/
def samePlace (first second : Option Token) : Bool :=
  (first.elim Position.nowhere Token.position) == (second.elim Position.nowhere Token.position)

mutual

/-- The nodes agree in kind, position and fields at every depth. -/
def same : Node → Node → Bool
  | bare token, bare token' => samePlace token token'
  | program statements, program statements' => same statements statements'
  | letBinding token name value, letBinding token' name' value' =>
    samePlace token token' && same name name' && same value value'
  | returning token value, returning token' value' => samePlace token token' && same value value'
  | statement token expression, statement token' expression' =>
    samePlace token token' && same expression expression'
  | block token statements, block token' statements' =>
    samePlace token token' && same statements statements'
  | identifier token name, identifier token' name' => samePlace token token' && name == name'
  | integer token value, integer token' value' => samePlace token token' && value == value'
  | boolean token value, boolean token' value' => samePlace token token' && value == value'
  | unary token operator right, unary token' operator' right' =>
    samePlace token token' && operator == operator' && same right right'
  | binary token left operator right, binary token' left' operator' right' =>
    samePlace token token' && same left left' && operator == operator' && same right right'
  | conditional token condition consequence alternative,
      conditional token' condition' consequence' alternative' =>
    samePlace token token' && same condition condition' && same consequence consequence' &&
      same alternative alternative'
  | function token parameters body, function token' parameters' body' =>
    samePlace token token' && same parameters parameters' && same body body'
  | call token callee arguments, call token' callee' arguments' =>
    samePlace token token' && same callee callee' && same arguments arguments'
  | missing, missing => true
  | sequence nodes, sequence nodes' => sameAll nodes nodes'
  | _, _ => false
termination_by structural node => node

def sameAll : List Node → List Node → Bool
  | [], [] => true
  | node :: rest, node' :: rest' => same node node' && sameAll rest rest'
  | _, _ => false
termination_by structural nodes => nodes

end

/-- The nodes agree once their positions are left out. -/
def sameShape (first second : Node) : Bool := same first.shape second.shape

end MonkeyLang.Node
