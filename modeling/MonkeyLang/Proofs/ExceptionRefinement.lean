import Mathlib
import MonkeyLang.Proofs.GrammarAcceptance
import MonkeyLang.Proofs.SignalPassing

/-! The nodes of parsed programs under the exception semantics. Every node ends in evaluation as it ends with exceptions:
with a plain value, without a value, with what was returned or with an error, and the scopes are the same afterwards. -/

namespace MonkeyLang

theorem Role.Accepts.plainResult {role : Role} {result : Option Value} (accepts : role.Accepts result) :
    PlainResult result := by
  cases role with
  | expression | name => exact HasValue.plainResult accepts
  | program | statement | block => exact accepts

namespace Encodes

variable {accepts : Option Value → Prop} {meaning : Except Raised (Option Value)} {result : Except Fault (Option Value)}

theorem value_iff (encodes : Encodes accepts meaning result) {value : Value} (plain : value.isSignal = false) :
    result = .ok (some value) ↔ meaning = .ok (some value) := by
  cases encodes with
  | normal => simp
  | returned | failed =>
    refine ⟨?_, nofun⟩
    rintro ⟨⟩
    cases plain
  | exhausted => simp

theorem none_iff (encodes : Encodes accepts meaning result) : result = .ok none ↔ meaning = .ok none := by
  cases encodes <;> simp

theorem returned_iff (plainResults : ∀ result, accepts result → PlainResult result)
    (encodes : Encodes accepts meaning result) (value : Value) :
    result = .ok (some (.returned value)) ↔ meaning = .error (.returned value) := by
  cases encodes with
  | normal accepted =>
    refine ⟨?_, nofun⟩
    rintro ⟨⟩
    exact (plainResults _ accepted _ rfl).elim
  | _ => simp

theorem failed_iff (plainResults : ∀ result, accepts result → PlainResult result)
    (encodes : Encodes accepts meaning result) (reason : RuntimeError) :
    result = .ok (some (.error reason)) ↔ meaning = .error (.failed reason) := by
  cases encodes with
  | normal accepted =>
    refine ⟨?_, nofun⟩
    rintro ⟨⟩
    exact (plainResults _ accepted _ rfl).elim
  | _ => simp

theorem fault_eq (encodes : Encodes accepts meaning result) {fault : Fault} (stopped : result = .error fault) :
    fault = .exhausted ∧ meaning = .error .exhausted := by
  cases encodes with
  | exhausted => exact ⟨(Except.error.inj stopped).symm, rfl⟩
  | _ => cases stopped

end Encodes

namespace Parsed

variable {limit : Nat} {tokens : List Token} {program : Node}

theorem program_regular (parsed : (ofTokens limit tokens).result = .ok program) : Node.Regular .program program := by
  have supplied : (Parser.ofTokens tokens).Supplied fun _ => True := ⟨Parser.ofTokens_ready tokens, fun _ _ => trivial⟩
  rcases of_ensures (Parse.program_builds limit supplied) with ⟨read, after, ends, _, built⟩ | ⟨failure, after, ends, _⟩
  · rw [ends] at parsed
    cases parsed
    exact built.regular
  · rw [ends] at parsed
    cases parsed

/-- Evaluation of any node of a parsed program, in scopes that bind plain values, and the exception semantics of that node
end in the same way at every limit and leave the same scopes; there is no other way to end but for the limit. The
program has a value where its statements end with that value and where they return it. -/
theorem evaluation_raises (parsed : (ofTokens limit tokens).result = .ok program) {node : Node}
    (within : program.Within node) {world : World} (plain : PlainScopes world.scopes) (depth scope : Nat) :
    let (result, after) := world.eval depth node scope
    let (meaning, scopes) := (Raising.eval depth node scope).ends world.scopes
    after.scopes = scopes ∧
    (∀ value : Value, value.isSignal = false → (result = .ok (some value) ↔ meaning = .ok (some value))) ∧
    (result = .ok none ↔ meaning = .ok none) ∧
    (∀ value, result = .ok (some (.returned value)) ↔ meaning = .error (.returned value)) ∧
    (∀ reason, result = .ok (some (.error reason)) ↔ meaning = .error (.failed reason)) ∧
    (∀ fault, result = .error fault → fault = .exhausted ∧ meaning = .error .exhausted) ∧
    ∀ nodes, program = .program (.sequence nodes) →
      let statements := (Raising.statements (Raising.eval depth) scope none nodes).ends world.scopes
      ∀ value : Value, value.isSignal = false → ((world.eval (depth + 1) program scope).1 = .ok (some value) ↔
        statements.1 = .ok (some value) ∨ statements.1 = .error (.returned value)) := by
  obtain ⟨role, evaluated, regular⟩ := (program_regular parsed).within nofun within
  obtain ⟨encodes, same, _⟩ := eval_refines depth scope regular evaluated world plain
  have plainResults : ∀ result, role.Accepts result → PlainResult result := fun _ => Role.Accepts.plainResult
  refine ⟨same, fun value => encodes.value_iff, encodes.none_iff, encodes.returned_iff plainResults,
    encodes.failed_iff plainResults, fun fault => encodes.fault_eq, ?_⟩
  rintro nodes rfl statements value noSignal
  obtain ⟨encodes, _⟩ := eval_refines (depth + 1) scope (program_regular parsed) nofun world plain
  rw [World.eval, encodes.value_iff noSignal, Raising.eval, Raising.level, Raising.ends_catching]
  have same : (Raising.statements (Raising.eval depth) scope none nodes).ends world.scopes = statements := rfl
  rw [same]
  obtain ⟨raised | result, scopes⟩ := statements
  · cases raised <;> simp
  · simp

/-- The program `if (true) { return 5 } 6`. -/
def earlyReturn : Node :=
  .program (.sequence
    [.statement (some ⟨.ifWord, "if", ⟨1, 1⟩⟩) (.conditional (some ⟨.ifWord, "if", ⟨1, 1⟩⟩)
      (.boolean (some ⟨.trueWord, "true", ⟨1, 5⟩⟩) true)
      (.block (some ⟨.leftBrace, "\x7b", ⟨1, 11⟩⟩) (.sequence
        [.returning (some ⟨.returnWord, "return", ⟨1, 13⟩⟩) (.integer (some ⟨.integer, "5", ⟨1, 20⟩⟩) 5)])) .missing),
      .statement (some ⟨.integer, "6", ⟨1, 24⟩⟩) (.integer (some ⟨.integer, "6", ⟨1, 24⟩⟩) 6)])

theorem earlyReturn_raises :
    (ofTokens 9 (Token.ofText "if (true) \x7b return 5 \x7d 6")).result = .ok earlyReturn ∧
    earlyReturn.Within earlyReturn ∧ PlainScopes World.fresh.scopes ∧
    (World.fresh.eval 9 earlyReturn 0).1 = .ok (some (.integer 5)) := by
  have parsed : (ofTokens 9 (Token.ofText "if (true) \x7b return 5 \x7d 6")).result = .ok earlyReturn := by cbv
  have raises := evaluation_raises parsed .root .fresh 8 0
  exact ⟨parsed, .root, .fresh, (raises.2.2.2.2.2.2 _ rfl (.integer 5) rfl).mpr (.inr rfl)⟩

end Parsed

end MonkeyLang
