import MonkeyLang.Proofs.BraceNesting
import MonkeyLang.Proofs.RenderingRoundTrip

/-! The tokens of a text without syntax errors. They derive in the grammar, whatever the text; so their braces are
balanced, and their integers are those of the tree, which were converted and so have not too many digits. -/

namespace MonkeyLang

open Grammar (Derives Ending)

namespace Nesting

/-- Behind the tokens the braces are as deep as in front of them. -/
def Level (tokens : List Token) : Prop := ∀ depth, through depth tokens = some depth

variable {token opening closing : Token} {front back tokens : List Token}

theorem Level.nil : Level [] := fun _ => rfl

theorem Level.cons {kind : Kind} (same : token.kind = kind) (flat : (kind = .leftBrace || kind = .rightBrace) = false)
    (level : Level tokens) : Level (token :: tokens) := by
  obtain ⟨opens, closes⟩ := Bool.or_eq_false_iff.mp flat
  intro depth
  rw [through_cons, step_flat depth (by simpa [same] using opens) (by simpa [same] using closes)]
  exact level depth

theorem Level.append (first : Level front) (second : Level back) : Level (front ++ back) := by
  intro depth
  rw [through_append, first depth]
  exact second depth

theorem Level.braces (leftBrace : opening.kind = .leftBrace) (level : Level tokens) (rightBrace : closing.kind = .rightBrace) :
    Level (opening :: tokens ++ [closing]) := by
  intro depth
  have enters : step depth opening = some (depth + 1) := by simp [step, leftBrace]
  have leaves : through (depth + 1) [closing] = some depth := by simp [through_cons, step, rightBrace]
  rw [List.cons_append, through_cons, enters, Option.bind_some, through_append, level, Option.bind_some, leaves]

/-- What is in front of the last token is balanced too, if that is no brace. -/
theorem Level.balanced (level : Level (tokens ++ [token])) (opens : token.kind ≠ .leftBrace)
    (closes : token.kind ≠ .rightBrace) : Balanced tokens := by
  have whole := level 0
  rw [through_append] at whole
  obtain ⟨depth, inside, last⟩ := Option.bind_eq_some_iff.mp whole
  rw [through_cons, step_flat depth opens closes] at last
  obtain rfl := Option.some.inj last
  exact balanced_iff.mpr inside

end Nesting

open Nesting (Level)

/-- All integers among the tokens can be converted. -/
def Token.Readable (tokens : List Token) : Prop :=
  ∀ token ∈ tokens, token.kind = .integer → ∃ value, Numeral.read token.literal = .ok value

namespace Token.Readable

variable {token : Token} {front back tokens : List Token}

theorem nil : Readable [] := List.forall_mem_nil _

theorem cons {kind : Kind} (same : token.kind = kind) (other : decide (kind = .integer) = false)
    (readable : Readable tokens) : Readable (token :: tokens) :=
  List.forall_mem_cons.mpr ⟨fun integer => absurd (same.symm.trans integer) (of_decide_eq_false other), readable⟩

theorem append (first : Readable front) (second : Readable back) : Readable (front ++ back) :=
  List.forall_mem_append.mpr ⟨first, second⟩

end Token.Readable

namespace Node

/-- A tree that was built, or a list of them. -/
def Grown (source : Token → Prop) : Node → Prop
  | sequence nodes => ∀ node ∈ nodes, ∃ role, Built source role node
  | node => ∃ role, Built source role node

variable {source : Token → Prop} {role : Role} {node : Node} {nodes : List Node}

theorem Formed.grown (built : Built source role node) : node.Grown source := by
  cases node with
  | sequence nodes => cases built
  | _ => exact ⟨role, built⟩

theorem grown_of_all (built : ∀ node ∈ nodes, Built source role node) : (sequence nodes).Grown source :=
  fun node member => ⟨role, built node member⟩

end Node

namespace Grammar

variable {phrase : Phrase} {tokens : List Token} {node : Node}

theorem Ending.level {closed : Bool} (ends : Ending closed tokens) : Level tokens := by
  cases ends with
  | closed semicolon => exact .cons semicolon rfl .nil
  | bare => exact .nil

theorem not_brace_of_operator {kind : Kind} {level : Nat} (ofLevel : kind ∈ operators level) :
    kind ≠ .leftBrace ∧ kind ≠ .rightBrace ∧ kind ≠ .integer := by
  unfold operators at ofLevel
  split at ofLevel
  all_goals simp only [List.mem_cons, List.not_mem_nil, or_false] at ofLevel
  all_goals
    rcases ofLevel with rfl | rfl
    all_goals decide

theorem Derives.level (derives : Derives phrase tokens node) : Level tokens := by
  induction derives with
  | program _ statements => exact statements
  | noStatements | noArguments | noParameters => exact .nil
  | statements _ _ _ first others => exact first.append others
  | letBinding word name sign _ ends value =>
    exact .append (.cons word rfl (.cons name rfl (.cons sign rfl value))) ends.level
  | returning word _ ends value => exact .append (.cons word rfl value) ends.level
  | statement _ ends value => exact .append value ends.level
  | block leftBrace _ rightBrace inside => exact .braces leftBrace inside rightBrace
  | looser _ expression => exact expression
  | binary _ ofLevel _ left right =>
    obtain ⟨opens, closes, -⟩ := not_brace_of_operator ofLevel
    exact left.append (.cons rfl (by simp [opens, closes]) right)
  | unary sign _ operand => rcases sign with sign | sign <;> exact .cons sign rfl operand
  | call _ leftParen _ rightParen callee arguments =>
    exact .append (.append callee (.cons leftParen rfl arguments)) (.cons rightParen rfl .nil)
  | identifier kind | integer kind | trueLiteral kind | falseLiteral kind => exact .cons kind rfl .nil
  | grouped leftParen _ rightParen inner => exact .append (.cons leftParen rfl inner) (.cons rightParen rfl .nil)
  | conditional word leftParen _ rightParen _ test yes =>
    exact .append (.cons word rfl (.cons leftParen rfl test)) (.cons rightParen rfl yes)
  | alternative word leftParen _ rightParen _ other _ test yes no =>
    exact .append (.append (.cons word rfl (.cons leftParen rfl test)) (.cons rightParen rfl yes)) (.cons other rfl no)
  | function word leftParen _ rightParen _ parameters body =>
    exact .append (.cons word rfl (.cons leftParen rfl parameters)) (.cons rightParen rfl body)
  | arguments _ all | parameters _ all | lastExpression _ all => exact all
  | moreExpressions _ comma _ first others => exact first.append (.cons comma rfl others)
  | lastName name => exact .cons name rfl .nil
  | moreNames name comma _ others => exact .cons name rfl (.cons comma rfl others)

theorem Ending.readable {closed : Bool} (ends : Ending closed tokens) : Token.Readable tokens := by
  cases ends with
  | closed semicolon => exact .cons semicolon rfl .nil
  | bare => exact .nil

/-- The integers of a tree that was built are those of its tokens, and each of them was converted. -/
theorem Derives.readable {source : Token → Prop} (derives : Derives phrase tokens node) (grown : node.Grown source) :
    Token.Readable tokens := by
  induction derives with
  | program _ statements =>
    obtain ⟨_, built⟩ := grown
    cases built with
    | program nodes => exact statements (Node.grown_of_all nodes)
  | noStatements | noArguments | noParameters => exact .nil
  | statements _ _ _ first others =>
    obtain ⟨⟨_, built⟩, nodes⟩ := List.forall_mem_cons.mp grown
    exact (first built.grown).append (others nodes)
  | letBinding word name sign _ ends value =>
    obtain ⟨_, built⟩ := grown
    cases built with
    | letBinding _ expression =>
      exact .append (.cons word rfl (.cons name rfl (.cons sign rfl (value expression.grown)))) ends.readable
  | returning word _ ends value =>
    obtain ⟨_, built⟩ := grown
    cases built with
    | returning expression => exact .append (.cons word rfl (value expression.grown)) ends.readable
  | statement _ ends value =>
    obtain ⟨_, built⟩ := grown
    cases built with
    | statement expression => exact .append (value expression.grown) ends.readable
  | block leftBrace _ rightBrace inside =>
    obtain ⟨_, built⟩ := grown
    cases built with
    | block nodes => exact .append (.cons leftBrace rfl (inside (Node.grown_of_all nodes))) (.cons rightBrace rfl .nil)
  | looser _ expression => exact expression grown
  | binary _ ofLevel _ left right =>
    obtain ⟨-, -, other⟩ := not_brace_of_operator ofLevel
    obtain ⟨_, built⟩ := grown
    cases built with
    | binary _ first second => exact .append (left first.grown) (.cons rfl (decide_eq_false other) (right second.grown))
  | unary sign _ operand =>
    obtain ⟨_, built⟩ := grown
    cases built with
    | unary _ right => rcases sign with sign | sign <;> exact .cons sign rfl (operand right.grown)
  | call _ leftParen _ rightParen callee arguments =>
    obtain ⟨_, built⟩ := grown
    cases built with
    | call function nodes =>
      exact .append (.append (callee function.grown) (.cons leftParen rfl (arguments (Node.grown_of_all nodes))))
        (.cons rightParen rfl .nil)
  | identifier kind | trueLiteral kind | falseLiteral kind => exact .cons kind rfl .nil
  | integer kind =>
    obtain ⟨_, built⟩ := grown
    cases built with
    | integer fit =>
      obtain ⟨_, same, -, -, converted, -⟩ := fit
      cases same
      exact List.forall_mem_singleton.mpr fun _ => ⟨_, converted⟩
  | grouped leftParen _ rightParen inner =>
    exact .append (.cons leftParen rfl (inner grown)) (.cons rightParen rfl .nil)
  | conditional word leftParen _ rightParen _ test yes =>
    obtain ⟨_, built⟩ := grown
    cases built with
    | conditional condition consequence =>
      exact .append (.cons word rfl (.cons leftParen rfl (test condition.grown)))
        (.cons rightParen rfl (yes consequence.grown))
    | alternative _ _ no => cases no
  | alternative word leftParen _ rightParen _ other block test yes no =>
    obtain ⟨_, built⟩ := grown
    cases built with
    | conditional => cases block
    | alternative condition consequence alternative =>
      exact .append (.append (.cons word rfl (.cons leftParen rfl (test condition.grown)))
        (.cons rightParen rfl (yes consequence.grown))) (.cons other rfl (no alternative.grown))
  | function word leftParen _ rightParen _ parameters body =>
    obtain ⟨_, built⟩ := grown
    cases built with
    | function names block =>
      exact .append (.cons word rfl (.cons leftParen rfl (parameters (Node.grown_of_all names))))
        (.cons rightParen rfl (body block.grown))
  | arguments _ all | parameters _ all => exact all grown
  | lastExpression _ all =>
    obtain ⟨⟨_, built⟩, -⟩ := List.forall_mem_cons.mp grown
    exact all built.grown
  | moreExpressions _ comma _ first others =>
    obtain ⟨⟨_, built⟩, nodes⟩ := List.forall_mem_cons.mp grown
    exact (first built.grown).append (.cons comma rfl (others nodes))
  | lastName name => exact .cons name rfl .nil
  | moreNames name comma _ others =>
    obtain ⟨-, nodes⟩ := List.forall_mem_cons.mp grown
    exact .cons name rfl (.cons comma rfl (others nodes))

end Grammar

namespace Parsed

variable {limit : Nat} {text : String} {program : Node}

theorem derives_of_clean_text (clean : ofText limit text = ⟨.ok program, []⟩) :
    Derives .program (Token.upToFinish (Token.ofText text)) program := by
  refine derives_of_numeric ⟨Parser.ofTokens_ready _, fun token member kind => ?_⟩ clean
  exact ((ofText_supplied text).given token member).digits kind

theorem level_of_clean (clean : ofText limit text = ⟨.ok program, []⟩) : Level (Token.upToFinish (Token.ofText text)) :=
  (derives_of_clean_text clean).level

/-- Too many digits would have been a fault. -/
theorem plain_of_clean (clean : ofText limit text = ⟨.ok program, []⟩) :
    ∀ token ∈ Token.upToFinish (Token.ofText text), token.kind = .integer → Numeral.Plain token.literal := by
  intro token member kind
  have built := built_of_parsed (congrArg result clean)
  obtain ⟨value, converted⟩ := (derives_of_clean_text clean).readable built.grown token member kind
  exact (((ofText_supplied text).given token member).numeral kind converted).1

end Parsed

end MonkeyLang
