import MonkeyLang.Node.Rendering
import MonkeyLang.Proofs.ParsingMotion

/-! The trees that parsing builds. A statement that is malformed leaves no trace in them, so they have one form
whether or not errors were recorded. -/

namespace MonkeyLang

/-- There is no room for what is higher. -/
def Fault.ofHeight? (room height : Nat) : Option Fault := if room < height then some .exhausted else none

theorem Fault.ofHeight?_succ (room height : Nat) : ofHeight? (room + 1) (height + 1) = ofHeight? room height := by
  simp only [ofHeight?, Nat.add_lt_add_iff_right]

theorem Fault.ofHeight?_or (room first second : Nat) :
    (ofHeight? room first).or (ofHeight? room second) = ofHeight? room (max first second) := by
  have either : room < max first second ↔ room < first ∨ room < second := by omega
  by_cases high : room < first
  · simp [ofHeight?, either, high]
  · simp [ofHeight?, either, high]

/-- What a node stands for in the tree around it. -/
inductive Role
  | program
  | statement
  | block
  | name
  | expression

namespace Node

/-- The tree has the right kinds of nodes in the right places, and its leaves and operators fit. -/
inductive Formed (fits : Node → Prop) : Role → Node → Prop
  | program {nodes} (statements : ∀ node ∈ nodes, Formed fits .statement node) :
      Formed fits .program (.program (.sequence nodes))
  | letBinding {token name value} (bound : Formed fits .name name) (expression : Formed fits .expression value) :
      Formed fits .statement (.letBinding token name value)
  | returning {token value} (expression : Formed fits .expression value) :
      Formed fits .statement (.returning token value)
  | statement {token value} (expression : Formed fits .expression value) :
      Formed fits .statement (.statement token value)
  | block {token nodes} (statements : ∀ node ∈ nodes, Formed fits .statement node) :
      Formed fits .block (.block token (.sequence nodes))
  | name {token text} (fit : fits (.identifier token text)) : Formed fits .name (.identifier token text)
  | identifier {token text} (fit : fits (.identifier token text)) : Formed fits .expression (.identifier token text)
  | integer {token value} (fit : fits (.integer token value)) : Formed fits .expression (.integer token value)
  | boolean {token value} : Formed fits .expression (.boolean token value)
  | unary {token operator right} (fit : fits (.unary token operator right)) (operand : Formed fits .expression right) :
      Formed fits .expression (.unary token operator right)
  | binary {token left operator right} (fit : fits (.binary token left operator right))
      (leftSide : Formed fits .expression left) (rightSide : Formed fits .expression right) :
      Formed fits .expression (.binary token left operator right)
  | conditional {token condition consequence} (test : Formed fits .expression condition)
      (yes : Formed fits .block consequence) :
      Formed fits .expression (.conditional token condition consequence .missing)
  | alternative {token condition consequence alternative} (test : Formed fits .expression condition)
      (yes : Formed fits .block consequence) (no : Formed fits .block alternative) :
      Formed fits .expression (.conditional token condition consequence alternative)
  | function {token nodes body} (parameters : ∀ node ∈ nodes, Formed fits .name node) (block : Formed fits .block body) :
      Formed fits .expression (.function token (.sequence nodes) body)
  | call {token callee nodes} (function : Formed fits .expression callee)
      (arguments : ∀ node ∈ nodes, Formed fits .expression node) :
      Formed fits .expression (.call token callee (.sequence nodes))

/-- What a leaf or an operator says is what its token says, and that token is one of the source. -/
def FromSource (source : Token → Prop) : Node → Prop
  | identifier token name => ∃ given, token = some given ∧ source given ∧ given.kind = .identifier ∧ name = given.literal
  | integer token value => ∃ given, token = some given ∧ source given ∧ given.kind = .integer ∧
      Numeral.read given.literal = .ok value ∧ value ≤ Signed64.greatest
  | unary token operator _ => ∃ given, token = some given ∧ source given ∧
      (given.kind = .bang ∨ given.kind = .minus) ∧ operator = given.literal
  | binary token _ operator _ => ∃ given, token = some given ∧ source given ∧
      given.kind.isBinary = true ∧ operator = given.literal
  | _ => True

/-- A tree as parsing builds it from tokens of a source. -/
abbrev Built (source : Token → Prop) : Role → Node → Prop := Formed (FromSource source)

/-- Without any room there is none for the node itself. -/
theorem renderFault_of_succ {node : Node}
    (later : ∀ room, node.renderFault? (room + 1) = Fault.ofHeight? (room + 1) node.height) (room : Nat) :
    node.renderFault? room = Fault.ofHeight? room node.height := by
  cases room with
  | zero =>
    rw [Fault.ofHeight?, if_pos node.height_pos]
    cases node <;> rfl
  | succ room => exact later room

/-- Only its height keeps such a tree from having a source text. -/
theorem Formed.renderFault {fits : Node → Prop} {role : Role} {node : Node} (formed : Formed fits role node)
    (writes : ∀ {token value}, fits (.integer token value) → Numeral.Writable value) (room : Nat) :
    node.renderFault? room = Fault.ofHeight? room node.height := by
  have all : ∀ {nodes : List Node}, (∀ node ∈ nodes, ∀ room, node.renderFault? room = Fault.ofHeight? room node.height) →
      ∀ room, renderFaultOfAll? nodes room = Fault.ofHeight? room (heightOfAll nodes + 1) := by
    intro nodes each room
    cases room with
    | zero => cases nodes <;> rfl
    | succ room =>
      induction nodes with
      | nil => rfl
      | cons node rest ih =>
        obtain ⟨first, others⟩ := List.forall_mem_cons.mp each
        rw [renderFaultOfAll?, first, ih others, heightOfAll, Fault.ofHeight?_succ, Fault.ofHeight?_succ, Fault.ofHeight?_or]
  induction formed generalizing room with
  | program _ ih | block _ ih =>
    refine renderFault_of_succ (fun room => ?_) room
    simp only [renderFault?, all ih, height, Fault.ofHeight?_succ]
  | function _ _ ih body =>
    refine renderFault_of_succ (fun room => ?_) room
    simp only [renderFault?, all ih, body, height, Fault.ofHeight?_or, Fault.ofHeight?_succ]
  | call _ _ callee ih =>
    refine renderFault_of_succ (fun room => ?_) room
    simp only [renderFault?, all ih, callee, height, Fault.ofHeight?_or, Fault.ofHeight?_succ, Nat.max_comm]
  | letBinding _ _ first second | binary _ _ _ first second =>
    refine renderFault_of_succ (fun room => ?_) room
    simp only [renderFault?, first, second, height, Fault.ofHeight?_or, Fault.ofHeight?_succ]
  | returning _ ih | statement _ ih | unary _ _ ih =>
    refine renderFault_of_succ (fun room => ?_) room
    simp only [renderFault?, ih, height, Fault.ofHeight?_succ]
  | conditional _ _ test yes =>
    have none : ∀ room, missing.renderFault? room = Fault.ofHeight? room missing.height := renderFault_of_succ fun _ => rfl
    refine renderFault_of_succ (fun room => ?_) room
    simp only [renderFault?, test, yes, none, height, Fault.ofHeight?_or, Fault.ofHeight?_succ]
  | alternative _ _ _ test yes no =>
    refine renderFault_of_succ (fun room => ?_) room
    simp only [renderFault?, test, yes, no, height, Fault.ofHeight?_or, Fault.ofHeight?_succ]
  | integer fit =>
    refine renderFault_of_succ (fun room => ?_) room
    simp only [renderFault?, Fault.ofInteger?_eq_none (writes fit)]
    rfl
  | name | identifier | boolean => exact renderFault_of_succ (fun _ => rfl) room

/-- Such a tree has its source text wherever there is room for it. -/
theorem Formed.text {fits : Node → Prop} {role : Role} {node : Node} (formed : Formed fits role node)
    (writes : ∀ {token value}, fits (.integer token value) → Numeral.Writable value) (room : Nat) :
    node.text? room = if room < node.height then .error .exhausted else .ok node.render := by
  rw [text?, formed.renderFault writes, Fault.ofHeight?]
  by_cases high : room < node.height
  · simp only [if_pos high]
  · simp only [if_neg high]

/-- The integers that were read can be written. -/
theorem FromSource.writable {source : Token → Prop} {token : Option Token} {value : Int}
    (given : FromSource source (.integer token value)) : Numeral.Writable value := by
  obtain ⟨_, _, _, _, converted, _⟩ := given
  exact Numeral.writable_of_read converted

/-- The nodes directly below a node. -/
def children : Node → List Node
  | program (sequence nodes) | block _ (sequence nodes) => nodes
  | letBinding _ first second | binary _ first _ second => [first, second]
  | returning _ child | statement _ child | unary _ _ child => [child]
  | conditional _ condition consequence .missing => [condition, consequence]
  | conditional _ condition consequence alternative => [condition, consequence, alternative]
  | function _ (sequence parameters) body => parameters ++ [body]
  | call _ callee (sequence arguments) => callee :: arguments
  | _ => []

/-- A node of a tree. -/
inductive Within (root : Node) : Node → Prop
  | root : Within root root
  | child {parent child} (within : Within root parent) (member : child ∈ parent.children) : Within root child

/-- What is below a node of this form has this form too; a name has that of an expression. -/
theorem Formed.child {fits : Node → Prop} {role : Role} {parent node : Node} (formed : Formed fits role parent)
    (member : node ∈ parent.children) : ∃ role, role ≠ .name ∧ Formed fits role node := by
  have expression : ∀ {node}, Formed fits .name node → ∃ role, role ≠ .name ∧ Formed fits role node := by
    intro node name
    cases name with
    | name fit => exact ⟨.expression, nofun, .identifier fit⟩
  cases formed with
  | program statements | block statements => exact ⟨.statement, nofun, statements node member⟩
  | letBinding bound value =>
    simp only [children, List.mem_cons, List.not_mem_nil, or_false] at member
    rcases member with rfl | rfl
    · exact expression bound
    · exact ⟨.expression, nofun, value⟩
  | returning value | statement value | unary _ value =>
    simp only [children, List.mem_singleton] at member
    exact ⟨.expression, nofun, member ▸ value⟩
  | name | identifier | integer | boolean => simp [children] at member
  | binary _ left right =>
    simp only [children, List.mem_cons, List.not_mem_nil, or_false] at member
    rcases member with rfl | rfl
    · exact ⟨.expression, nofun, left⟩
    · exact ⟨.expression, nofun, right⟩
  | conditional test yes =>
    simp only [children, List.mem_cons, List.not_mem_nil, or_false] at member
    rcases member with rfl | rfl
    · exact ⟨.expression, nofun, test⟩
    · exact ⟨.block, nofun, yes⟩
  | alternative test yes no =>
    cases no with
    | block statements =>
      simp only [children, List.mem_cons, List.not_mem_nil, or_false] at member
      rcases member with rfl | rfl | rfl
      · exact ⟨.expression, nofun, test⟩
      · exact ⟨.block, nofun, yes⟩
      · exact ⟨.block, nofun, .block statements⟩
  | function parameters block =>
    simp only [children, List.mem_append, List.mem_singleton] at member
    rcases member with name | rfl
    · exact expression (parameters node name)
    · exact ⟨.block, nofun, block⟩
  | call callee arguments =>
    simp only [children, List.mem_cons] at member
    rcases member with rfl | argument
    · exact ⟨.expression, nofun, callee⟩
    · exact ⟨.expression, nofun, arguments node argument⟩

theorem Formed.within {fits : Node → Prop} {role : Role} {root node : Node} (formed : Formed fits role root)
    (evaluated : role ≠ .name) (within : Within root node) : ∃ role, role ≠ .name ∧ Formed fits role node := by
  induction within with
  | root => exact ⟨role, evaluated, formed⟩
  | child _ member ih =>
    obtain ⟨_, _, parent⟩ := ih
    exact parent.child member

theorem Formed.imp {fits fits' : Node → Prop} {role : Role} {node : Node} (formed : Formed fits role node)
    (implies : ∀ node, fits node → fits' node) : Formed fits' role node := by
  induction formed with
  | program _ ih => exact .program ih
  | letBinding _ _ name value => exact .letBinding name value
  | returning _ value => exact .returning value
  | statement _ value => exact .statement value
  | block _ ih => exact .block ih
  | name fit => exact .name (implies _ fit)
  | identifier fit => exact .identifier (implies _ fit)
  | integer fit => exact .integer (implies _ fit)
  | boolean => exact .boolean
  | unary fit _ operand => exact .unary (implies _ fit) operand
  | binary fit _ _ left right => exact .binary (implies _ fit) left right
  | conditional _ _ test yes => exact .conditional test yes
  | alternative _ _ _ test yes no => exact .alternative test yes no
  | function _ _ names body => exact .function names body
  | call _ _ callee arguments => exact .call callee arguments

end Node

/-- Only tokens of the source are left to be read. -/
structure Parser.Supplied (source : Token → Prop) (parser : Parser) : Prop extends parser.Ready where
  given : ∀ token ∈ parser.rest, source token

variable {source : Token → Prop} {before : Parser}

theorem Parser.Moves.supplied {after : Parser} (moves : before.Moves after) (supplied : before.Supplied source) :
    after.Supplied source where
  toReady := moves.ready supplied.toReady
  given token member := supplied.given token (moves.rest.subset member)

namespace Parser.Supplied

theorem advance (supplied : before.Supplied source) : before.advance.Supplied source := (Moves.advance _).supplied supplied

theorem current (supplied : before.Supplied source) (more : before.current.kind ≠ .endOfInput) : source before.current := by
  obtain ⟨others, rest⟩ := supplied.rest_of_current more
  exact supplied.given _ (by simp [rest])

end Parser.Supplied

namespace Parse

open Node (Built)

variable {α : Type}

/-- The result has been built, and the tokens that are left are still of the source. -/
def Builds (source : Token → Prop) (step : Parse α) (built : α → Prop) (before : Parser) : Prop :=
  Ensures step before (fun value after => after.Supplied source ∧ built value) (fun _ after => after.Supplied source)

/-- All nodes of a list have been built in one role. -/
def AllBuilt (source : Token → Prop) (role : Role) (nodes : List Node) : Prop := ∀ node ∈ nodes, Built source role node

theorem AllBuilt.cons {role : Role} {node : Node} {nodes : List Node} (first : Built source role node)
    (others : AllBuilt source role nodes) : AllBuilt source role (node :: nodes) :=
  List.forall_mem_cons.mpr ⟨first, others⟩

theorem AllBuilt.reverse {role : Role} {nodes : List Node} (built : AllBuilt source role nodes) :
    AllBuilt source role nodes.reverse :=
  fun node member => built node (List.mem_reverse.mp member)

theorem AllBuilt.nil {role : Role} : AllBuilt source role [] := fun _ member => nomatch member

theorem name_built (supplied : before.Supplied source) (kind : before.upcoming.kind = .identifier) :
    Built source .name (.identifier before.advance.current before.advance.current.literal) :=
  .name ⟨_, rfl, supplied.advance.current (by simp [kind]), kind, rfl⟩

theorem integer_builds (supplied : before.Supplied source) (kind : before.current.kind = .integer) :
    Builds source integer (Built source .expression) before := by
  simp only [Builds, integer, ensures_bind, ensures_current]
  split
  · exact supplied
  next value numeral =>
    rw [ensures_ite]
    refine ⟨fun _ => supplied, fun small => ⟨supplied, ?_⟩⟩
    exact .integer ⟨_, rfl, supplied.current (by simp [kind]), kind, numeral, Int.not_lt.mp small⟩

theorem moreParameters_builds (rounds : Nat) {read : List Node} (supplied : before.Supplied source)
    (soFar : AllBuilt source .name read) :
    Builds source (moreParameters rounds read) (AllBuilt source .name) before := by
  induction rounds generalizing read before with
  | zero => exact supplied
  | succ rounds ih =>
    simp only [Builds, moreParameters, ensures_bind, ensures_upcoming, ensures_ite, ensures_advance, ensures_expect,
      ensures_identifier, ensures_pure]
    refine ⟨fun _ => ⟨fun kind => ?_, fun _ => supplied.advance⟩, fun _ => ⟨supplied, soFar.reverse⟩⟩
    exact ih supplied.advance.advance (soFar.cons (name_built supplied.advance kind))

theorem parameters_builds (supplied : before.Supplied source) :
    Builds source parameters (AllBuilt source .name) before := by
  simp only [Builds, parameters, ensures_bind, ensures_upcoming, ensures_ite, ensures_advance, ensures_expect,
    ensures_identifier, ensures_pure, ensures_get]
  refine ⟨fun _ => ⟨supplied.advance, .nil⟩, fun _ => ⟨fun kind => ?_, fun _ => supplied⟩⟩
  have built := moreParameters_builds (before.advance.rest.length + 1) supplied.advance
    (AllBuilt.cons (name_built supplied kind) .nil)
  refine built.imp (fun names after ended => ?_) fun _ _ => id
  exact ⟨fun _ => ⟨ended.1.advance, ended.2⟩, fun _ => ended.1⟩

section Levels

variable {expression : Int → Parse Node}
  (below : ∀ {before : Parser} floor, before.Supplied source → Builds source (expression floor) (Built source .expression) before)
include below

theorem ending_builds {statement : Node → Node} (supplied : before.Supplied source)
    (built : ∀ value, Built source .expression value → Built source .statement (statement value)) :
    Ensures (expression Kind.lowest) before (fun value middle => Ensures passSemicolon middle
      (fun _ after => after.Supplied source ∧ Built source .statement (statement value))
      (fun _ after => after.Supplied source)) (fun _ after => after.Supplied source) := by
  simp only [ensures_passSemicolon]
  refine (below _ supplied).imp (fun value after ended => ?_) fun _ _ => id
  exact ⟨fun _ => ⟨ended.1.advance, built _ ended.2⟩, fun _ => ⟨ended.1, built _ ended.2⟩⟩

theorem statement_builds (supplied : before.Supplied source) :
    Builds source (statement expression) (Built source .statement) before := by
  simp only [Builds, statement, ensures_bind, ensures_current]
  split
  · simp only [letBinding, ensures_bind, ensures_current, ensures_expect, ensures_identifier, ensures_advance, ensures_pure]
    refine ⟨fun kind => ⟨fun _ => ?_, fun _ => supplied.advance⟩, fun _ => supplied⟩
    exact ending_builds below supplied.advance.advance.advance fun _ => .letBinding (name_built supplied kind)
  · simp only [returning, ensures_bind, ensures_current, ensures_advance, ensures_pure]
    exact ending_builds below supplied.advance fun _ => .returning
  · simp only [expressionStatement, ensures_bind, ensures_current, ensures_pure]
    exact ending_builds below supplied fun _ => .statement

theorem moreStatements_builds (terminator : Kind) (rounds : Nat) {read : List Node} (supplied : before.Supplied source)
    (soFar : AllBuilt source .statement read) :
    Builds source (moreStatements expression terminator rounds read) (AllBuilt source .statement) before := by
  induction rounds generalizing read before with
  | zero => exact supplied
  | succ rounds ih =>
    simp only [Builds, moreStatements, ensures_bind, ensures_current, ensures_ite, ensures_pure, ensures_recovering,
      ensures_advance]
    refine ⟨fun _ => ⟨supplied, soFar.reverse⟩, fun _ => ?_⟩
    refine (statement_builds below supplied).imp (fun node after ended => ?_) fun failure after left => ?_
    · exact ih ended.1.advance (soFar.cons ended.2)
    · cases failure with
      | unreadable error => exact ih (((Parser.Moves.record _ error).trans (.synchronize _ terminator)).supplied left) soFar
      | fault => exact left

theorem block_builds (supplied : before.Supplied source) :
    Builds source (block expression) (Built source .block) before := by
  simp only [Builds, block, statements, ensures_bind, ensures_current, ensures_advance, ensures_get, ensures_ite,
    ensures_pure, ensures_unreadable]
  refine (moreStatements_builds below _ _ supplied.advance .nil).imp (fun nodes after ended => ?_) fun _ _ => id
  exact ⟨fun _ => ⟨ended.1, .block ended.2⟩, fun _ => ended.1⟩

theorem conditional_builds (supplied : before.Supplied source) :
    Builds source (conditional expression) (Built source .expression) before := by
  simp only [Builds, conditional, ensures_bind, ensures_current, ensures_expect, ensures_advance, ensures_upcoming,
    ensures_ite, ensures_pure]
  refine ⟨fun _ => ?_, fun _ => supplied⟩
  refine (below _ supplied.advance.advance).imp (fun condition middle ⟨left, test⟩ => ?_) fun _ _ => id
  refine ⟨fun _ => ⟨fun _ => ?_, fun _ => left.advance⟩, fun _ => left⟩
  refine (block_builds below left.advance.advance).imp (fun consequence last ⟨left, yes⟩ => ?_) fun _ _ => id
  refine ⟨fun _ => ⟨fun _ => ?_, fun _ => left.advance⟩, fun _ => ⟨left, .conditional test yes⟩⟩
  exact (block_builds below left.advance.advance).imp
    (fun _ _ ended => ⟨ended.1, .alternative test yes ended.2⟩) fun _ _ => id

theorem functionLiteral_builds (supplied : before.Supplied source) :
    Builds source (functionLiteral expression) (Built source .expression) before := by
  simp only [Builds, functionLiteral, ensures_bind, ensures_current, ensures_expect, ensures_pure]
  refine ⟨fun _ => ?_, fun _ => supplied⟩
  refine (parameters_builds supplied.advance).imp (fun names middle ⟨left, parameters⟩ => ?_) fun _ _ => id
  refine ⟨fun _ => ?_, fun _ => left⟩
  exact (block_builds below left.advance).imp (fun _ _ ended => ⟨ended.1, .function parameters ended.2⟩) fun _ _ => id

theorem moreExpressions_builds (rounds : Nat) {read : List Node} (supplied : before.Supplied source)
    (soFar : AllBuilt source .expression read) :
    Builds source (moreExpressions expression rounds read) (AllBuilt source .expression) before := by
  induction rounds generalizing read before with
  | zero => exact supplied
  | succ rounds ih =>
    simp only [Builds, moreExpressions, ensures_bind, ensures_upcoming, ensures_ite, ensures_advance, ensures_pure]
    refine ⟨fun _ => ?_, fun _ => ⟨supplied, soFar.reverse⟩⟩
    exact (below _ supplied.advance.advance).imp (fun _ _ ended => ih ended.1 (soFar.cons ended.2)) fun _ _ => id

theorem call_builds {callee : Node} (supplied : before.Supplied source) (function : Built source .expression callee) :
    Builds source (call expression callee) (Built source .expression) before := by
  simp only [Builds, call, expressions, ensures_bind, ensures_current, ensures_upcoming, ensures_advance, ensures_ite,
    ensures_get, ensures_expect, ensures_pure]
  refine ⟨fun _ => ⟨supplied.advance, .call function AllBuilt.nil⟩, fun _ => ?_⟩
  refine (below _ supplied.advance).imp (fun first middle ⟨left, built⟩ => ?_) fun _ _ => id
  refine (moreExpressions_builds below _ left (AllBuilt.cons built .nil)).imp (fun all after ⟨left, built⟩ => ?_)
    fun _ _ => id
  exact ⟨fun _ => ⟨left.advance, .call function built⟩, fun _ => left⟩

theorem operand_builds (supplied : before.Supplied source) :
    Builds source (operand expression) (Built source .expression) before := by
  have unary_builds (kind : before.current.kind = .bang ∨ before.current.kind = .minus) :
      Builds source (unary expression) (Built source .expression) before := by
    simp only [Builds, unary, ensures_bind, ensures_current, ensures_advance, ensures_pure]
    have given := supplied.current (by rcases kind with kind | kind <;> simp [kind])
    exact (below _ supplied.advance).imp (fun _ _ ended => ⟨ended.1, .unary ⟨_, rfl, given, kind, rfl⟩ ended.2⟩) fun _ _ => id
  simp only [Builds, operand, ensures_bind, ensures_current]
  split
  next kind => exact ⟨supplied, .identifier ⟨_, rfl, supplied.current (by simp [kind]), kind, rfl⟩⟩
  next kind => exact integer_builds supplied kind
  next => exact ⟨supplied, .boolean⟩
  next => exact ⟨supplied, .boolean⟩
  next kind => exact unary_builds (.inl kind)
  next kind => exact unary_builds (.inr kind)
  next =>
    simp only [grouped, ensures_bind, ensures_advance, ensures_expect, ensures_pure]
    refine (below _ supplied.advance).imp (fun inner after ended => ?_) fun _ _ => id
    exact ⟨fun _ => ⟨ended.1.advance, ended.2⟩, fun _ => ended.1⟩
  next => exact conditional_builds below supplied
  next => exact functionLiteral_builds below supplied
  next => exact supplied

theorem operators_builds (floor : Int) (rounds : Nat) {left : Node} (supplied : before.Supplied source)
    (built : Built source .expression left) :
    Builds source (operators expression floor rounds left) (Built source .expression) before := by
  induction rounds generalizing left before with
  | zero => exact supplied
  | succ rounds ih =>
    simp only [Builds, operators, ensures_bind, ensures_upcoming, ensures_ite, ensures_advance, ensures_pure]
    refine ⟨fun _ => ⟨fun _ => ?_, fun _ => ⟨fun kind => ?_, fun _ => ⟨supplied, built⟩⟩⟩, fun _ => ⟨supplied, built⟩⟩
    · exact (call_builds below supplied.advance built).imp (fun _ _ ended => ih ended.1 ended.2) fun _ _ => id
    · have given := supplied.advance.current (by
        intro finished
        simp [← Parser.current_advance, finished, Kind.isBinary] at kind)
      simp only [binary, ensures_bind, ensures_current, ensures_advance, ensures_pure]
      exact (below _ supplied.advance.advance).imp
        (fun _ _ ended => ih ended.1 (.binary ⟨_, rfl, given, kind, rfl⟩ built ended.2)) fun _ _ => id

theorem level_builds (floor : Int) (supplied : before.Supplied source) :
    Builds source (level expression floor) (Built source .expression) before := by
  simp only [Builds, level, ensures_bind, ensures_get]
  exact (operand_builds below supplied).imp (fun _ _ ended => operators_builds below floor _ ended.1 ended.2) fun _ _ => id

end Levels

theorem expression_builds (limit : Nat) (floor : Int) (supplied : before.Supplied source) :
    Builds source (expression limit floor) (Built source .expression) before := by
  induction limit generalizing floor before with
  | zero => exact supplied
  | succ limit ih => exact level_builds (fun floor => ih floor) floor supplied

theorem program_builds (limit : Nat) (supplied : before.Supplied source) :
    Builds source (program limit) (Built source .program) before := by
  simp only [Builds, program, statements, ensures_bind, ensures_get, ensures_pure]
  exact (moreStatements_builds (expression_builds limit) _ _ supplied .nil).imp
    (fun _ _ ended => ⟨ended.1, .program ended.2⟩) fun _ _ => id

end Parse

end MonkeyLang
