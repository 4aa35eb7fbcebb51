import MonkeyLang.Proofs.ExceptionRefinement

/-! Evaluation of parsed programs, one after the other, does not fail. Closures carry what earlier programs defined into
later ones, and scopes bind plain values all along; so an expression always has a value, a program never ends in a
returned value, and nothing but the limit can stop it. -/

namespace MonkeyLang

namespace Node

/-- The nodes that a node must have the value of. -/
def needed : Node → List Node
  | letBinding _ _ value | returning _ value | statement _ value | unary _ _ value => [value]
  | binary _ left _ right => [left, right]
  | conditional _ condition _ _ => [condition]
  | call _ callee (sequence arguments) => callee :: arguments
  | _ => []

theorem Regular.needed {role : Role} {node operand : Node} (regular : Node.Regular role node)
    (member : operand ∈ node.needed) : Node.Regular .expression operand := by
  cases regular with
  | program | block | name | identifier | integer | boolean | function => cases member
  | letBinding _ value | returning value | statement value | unary _ value =>
    exact List.mem_singleton.mp member ▸ value
  | binary _ left right =>
    simp only [Node.needed, List.mem_cons, List.not_mem_nil, or_false] at member
    rcases member with rfl | rfl
    · exact left
    · exact right
  | conditional condition | alternative condition => exact List.mem_singleton.mp member ▸ condition
  | call callee arguments =>
    rcases List.mem_cons.mp member with rfl | argument
    · exact callee
    · exact arguments operand argument

end Node

namespace World

/-- The worlds that parsed programs lead to, one after the other, from one with nothing bound. A program may run in any
scope there is, at any limit; what it bound stays bound when it ends in an error or is given up. -/
inductive Reached (given : List Token → Prop) : World → Prop
  | fresh : Reached given .fresh
  | later {world limit tokens program scope} (reached : Reached given world) (source : given tokens)
      (parsed : (Parsed.ofTokens limit tokens).result = .ok program) (depth : Nat) (there : scope < world.scopes.size) :
      Reached given (world.eval depth program scope).2

variable {given : List Token → Prop} {world : World}

theorem Reached.plain (reached : world.Reached given) : PlainScopes world.scopes := by
  induction reached with
  | fresh => exact .fresh
  | later _ _ parsed depth _ ih =>
    obtain ⟨-, -, plain⟩ := eval_refines depth _ (Parsed.program_regular parsed) nofun _ ih
    exact plain

end World

/-- What is returned from the statements of a program is its value. -/
theorem Raising.program_catches (limit scope : Nat) (scopes : Array Scope) {program : Node}
    (regular : Node.Regular .program program) (value : Value) :
    ((eval limit program scope).ends scopes).1 ≠ .error (.returned value) := by
  intro catches
  cases limit with
  | zero => cases catches
  | succ limit =>
    cases regular with
    | @program nodes statements =>
      rw [eval, level, ends_catching] at catches
      generalize (Raising.statements (eval limit) scope none nodes).ends scopes = ended at catches
      obtain ⟨raised | result, after⟩ := ended
      · cases raised <;> cases catches
      · cases catches

namespace Parsed

variable {limit : Nat} {tokens : List Token} {program : Node} {world : World}

/-- Whatever was parsed, with or without recorded errors, runs in whatever world such programs lead to without a fault
but that of the limit. It has no value or one that is not a returned value; and wherever a node of it must have the value
of another one, there is one. -/
theorem evaluation_never_fails (reached : world.Reached fun _ => True)
    (parsed : (ofTokens limit tokens).result = .ok program) (depth scope : Nat) :
    (∀ fault, (world.eval depth program scope).1 = .error fault → fault = .exhausted) ∧
    (∀ value, (world.eval depth program scope).1 = .ok (some value) →
      value.type = .null ∨ value.type = .boolean ∨ value.type = .integer ∨ value.type = .function ∨ value.type = .error) ∧
    ∀ node operand, program.Within node → operand ∈ node.needed → (world.eval depth operand scope).1 ≠ .ok none := by
  have regular := program_regular parsed
  obtain ⟨encodes, -, -⟩ := eval_refines depth scope regular nofun world reached.plain
  refine ⟨fun fault stopped => (encodes.fault_eq stopped).1, fun value ends => ?_, fun node operand within member nothing => ?_⟩
  · have noReturn := Raising.program_catches depth scope world.scopes regular
    rw [World.eval] at ends
    rw [ends] at encodes
    generalize ((Raising.eval depth program scope).ends world.scopes).1 = meaning at encodes noReturn
    cases encodes with
    | normal accepted =>
      have plain : value.Plain := accepted value rfl
      cases value with
      | returned | returnedNothing | error => exact plain.elim
      | null | boolean | integer | function => simp [Value.type]
    | returned => exact absurd rfl (noReturn _)
    | failed => simp [Value.type]
  · obtain ⟨role, evaluated, form⟩ := regular.within nofun within
    have valued : Role.expression ≠ .name := by
      intro same
      cases same
    obtain ⟨encodes, -, -⟩ := eval_refines depth scope (Node.Regular.needed form member) valued world reached.plain
    rw [World.eval] at nothing
    rw [nothing] at encodes
    generalize ((Raising.eval depth operand scope).ends world.scopes).1 = meaning at encodes
    cases encodes with
    | normal accepted =>
      obtain ⟨value, wrong, -⟩ := accepted
      cases wrong

/-- What is left of `let 5; let f = fn(x) { let y = x; }; g`, and the program `f(1)`. -/
def definition : Node :=
  .program (.sequence
    [.letBinding (some ⟨.letWord, "let", ⟨1, 8⟩⟩) (.identifier (some ⟨.identifier, "f", ⟨1, 12⟩⟩) "f")
      (.function (some ⟨.functionWord, "fn", ⟨1, 16⟩⟩)
        (.sequence [.identifier (some ⟨.identifier, "x", ⟨1, 19⟩⟩) "x"])
        (.block (some ⟨.leftBrace, "\x7b", ⟨1, 22⟩⟩) (.sequence
          [.letBinding (some ⟨.letWord, "let", ⟨1, 24⟩⟩) (.identifier (some ⟨.identifier, "y", ⟨1, 28⟩⟩) "y")
            (.identifier (some ⟨.identifier, "x", ⟨1, 32⟩⟩) "x")]))),
      .statement (some ⟨.identifier, "g", ⟨1, 38⟩⟩) (.identifier (some ⟨.identifier, "g", ⟨1, 38⟩⟩) "g")])

def application : Node :=
  .program (.sequence [.statement (some ⟨.identifier, "f", ⟨1, 1⟩⟩) (.call (some ⟨.leftParen, "(", ⟨1, 2⟩⟩)
    (.identifier (some ⟨.identifier, "f", ⟨1, 1⟩⟩) "f")
    (.sequence [.integer (some ⟨.integer, "1", ⟨1, 3⟩⟩) 1]))])

set_option maxRecDepth 2000 in
/-- The body of `f` has no value; the call has one all the same. -/
theorem application_never_fails :
    (ofTokens 20 (Token.ofText "let 5; let f = fn(x) \x7b let y = x; \x7d; g")).result = .ok definition ∧
    (ofTokens 20 (Token.ofText "f(1)")).result = .ok application ∧
    (World.fresh.eval 9 definition 0).2.Reached (fun _ => True) ∧
    ((World.fresh.eval 9 definition 0).2.eval 9 application 0).1 = .ok (some .null) ∧
    ∀ node operand, application.Within node → operand ∈ node.needed →
      ((World.fresh.eval 9 definition 0).2.eval 9 operand 0).1 ≠ .ok none := by
  have defined : (ofTokens 20 (Token.ofText "let 5; let f = fn(x) \x7b let y = x; \x7d; g")).result = .ok definition := by
    cbv
  have applied : (ofTokens 20 (Token.ofText "f(1)")).result = .ok application := by cbv
  have there : 0 < World.fresh.scopes.size := by decide
  have reached : (World.fresh.eval 9 definition 0).2.Reached fun _ => True :=
    World.Reached.later .fresh trivial defined 9 there
  exact ⟨defined, applied, reached, by cbv, (evaluation_never_fails reached applied 9 0).2.2⟩

end Parsed

end MonkeyLang
