import Mathlib
import MonkeyLang.CommandLine
import MonkeyLang.Proofs.JoinedPrograms
import MonkeyLang.Proofs.ProperRuns
import MonkeyLang.Proofs.SequentialRuns
import MonkeyLang.Proofs.SessionEffects

/-! A session is its program line by line. Lines that are programs by themselves, each with a semicolon at its end, do in a
session what they do as one text: the names come to be bound to the same, and the last line shows what the text shows. -/

namespace MonkeyLang

/-- What is shown of a result: its text on a line of its own, if it has a value and the value has a text. -/
def shownAs (limit : Nat) : Option Value → String
  | some value =>
    match value.text? limit with
    | .ok text => text ++ "\n"
    | .error _ => ""
  | none => ""

theorem shownAs_of_shape {limit : Nat} {result result' : Option Value} (same : shapeOf? result' = shapeOf? result) :
    shownAs limit result' = shownAs limit result := by
  cases result with
  | none =>
    obtain rfl := Option.map_eq_none_iff.mp same
    rfl
  | some value =>
    obtain ⟨value', rfl, shape⟩ := Option.map_eq_some_iff.mp same
    rw [shownAs, shownAs, ← Value.text_shape, shape, Value.text_shape]

/-- A value that has a text is shown, and evaluation goes on. -/
theorem Session.evaluate_shows {limit : Nat} {session : Session} {program : Node} {result : Option Value}
    (ends : (World.eval ⟨session.world.scopes, []⟩ limit program session.scope).1 = .ok result)
    (texts : ∀ value, result = some value → ∃ text, value.text? limit = .ok text) (log : List LogEntry) :
    (session.evaluate limit log program).next = .goOn ∧ (session.evaluate limit log program).output = shownAs limit result := by
  unfold evaluate
  dsimp only
  rw [ends]
  cases result with
  | none => exact ⟨rfl, rfl⟩
  | some value =>
    obtain ⟨text, shown⟩ := texts value rfl
    simp only [shownAs, shown]
    exact ⟨rfl, rfl⟩

theorem Run.evaluate_shows {limit : Nat} {program : Node} {result : Option Value}
    (ends : (World.fresh.eval limit program 0).1 = .ok result)
    (texts : ∀ value, result = some value → ∃ text, value.text? limit = .ok text) (log : List LogEntry) :
    (evaluate limit log program).result = .ok result ∧ (evaluate limit log program).output = shownAs limit result := by
  unfold evaluate
  dsimp only
  rw [ends]
  cases result with
  | none => exact ⟨rfl, rfl⟩
  | some value =>
    obtain ⟨text, shown⟩ := texts value rfl
    simp only [shownAs, shown]
    exact ⟨rfl, rfl⟩

theorem texts_of_shape {limit : Nat} {result result' : Option Value} (same : shapeOf? result' = shapeOf? result)
    (texts : ∀ value, result = some value → ∃ text, value.text? limit = .ok text) :
    ∀ value, result' = some value → ∃ text, value.text? limit = .ok text := by
  rintro value rfl
  obtain ⟨other, rfl, shape⟩ := Option.map_eq_some_iff.mp same.symm
  rw [← Value.text_shape, ← shape, Value.text_shape]
  exact texts other rfl

/-- Everything that is bound in a scope, as it can be seen. -/
def World.seen (world : World) (scope : Nat) : List (Name × Option (ValueType × String)) :=
  (world.bindings scope).map fun (name, value) => (name, value.map Value.seen)

theorem World.seen_of_scopes {world world' : World} (same : world'.scopes = world.scopes) (scope : Nat) :
    world'.seen scope = world.seen scope := by
  rw [seen, seen, bindings, bindings, same]

theorem World.seen_of_shape {world world' : World} (same : world'.shape = world.shape) (scope : Nat) :
    world'.seen scope = world.seen scope := by
  rw [seen, ← bindings_seen, same, bindings_seen]
  rfl

theorem Run.ofSource_eval {limit : Nat} {read : String → Except FileFault (List UInt8)} {text : String} {program : Node}
    (reads : Parsed.ofText limit text = ⟨.ok program, []⟩) :
    ofSource limit read "eval" true text = evaluate limit (Parsed.ofText limit text).log program := by
  have mode : Mode.ofName? "eval" = some .eval := rfl
  simp only [ofSource, mode, Run.text, if_true, ofText, reduceCtorEq, if_false, reads, ne_eq, not_true_eq_false]

namespace Session

variable {limit : Nat} {session : Session} {line : String} {lines : List String} {statements : List Node}

/-- A line as a session takes it, and a program by itself that ends in a semicolon. -/
structure Entry (limit : Nat) (line : String) (statements : List Node) : Prop extends
    Parsed.Line limit line statements where
  stripped : stripped line = line
  some : line ≠ ""
  stays : ¬(line = "exit" || line = "quit")
  noCommand : ¬Mode.command <+: line.toList

/-- How evaluation of statements ends in a session, and the world after it. -/
def outcome (limit : Nat) (session : Session) (statements : List Node) : Except Fault (Option Value) × World :=
  World.eval ⟨session.world.scopes, []⟩ limit (.program (.sequence statements)) session.scope

/-- The limit is not reached, neither in the evaluation of the program nor in the text of its value. -/
structure Completes (limit : Nat) (session : Session) (statements : List Node) : Prop where
  evaluates : (session.outcome limit statements).1 ≠ .error .exhausted
  shows : ∀ value, (session.outcome limit statements).1 = .ok (some value) → value.text? limit ≠ .error .exhausted

/-- No statement ends in a signal. The statements of a program are evaluated one level below it. -/
def Quiet (limit : Nat) (session : Session) (statements : List Node) : Prop :=
  World.Quiet (limit - 1) session.scope ⟨session.world.scopes, []⟩ statements

/-- Lines that a session can go through, and none of them but the last one has a statement that ends in a signal. -/
structure Goes (limit : Nat) (session : Session) (lines : List String) : Prop where
  entries : ∀ line ∈ lines, ∃ statements, Entry limit line statements
  completes : ∀ earlier line later statements, lines = earlier ++ line :: later → Entry limit line statements →
    (session.after limit earlier).Completes limit statements
  quiet : ∀ earlier line later statements, lines = earlier ++ line :: later → later ≠ [] → Entry limit line statements →
    (session.after limit earlier).Quiet limit statements

/-- Lines are evaluated, in scopes as programs make them. -/
structure Evaluating (session : Session) : Prop where
  mode : session.mode = .eval
  plain : PlainScopes session.world.scopes
  proper : ProperScopes session.world.scopes

section Entries

variable (entry : Entry limit line statements)
include entry

theorem Entry.regular : Node.Regular .program (.program (.sequence statements)) :=
  Parsed.program_regular (congrArg Parsed.result entry.reads)

theorem Entry.filled : statements ≠ [] := by
  rintro rfl
  obtain ⟨front, semicolon, cut, -⟩ := entry.cut
  have derives := Parsed.derives_of_clean_text entry.reads
  rw [cut] at derives
  cases derives with
  | program none =>
    generalize same : front ++ [semicolon] = tokens at none
    cases none with
    | noStatements => simp at same

variable (evaluating : session.Evaluating)
include evaluating

theorem Entry.respondTo : session.respondTo limit line =
    session.evaluate limit (Parsed.ofText limit line).log (.program (.sequence statements)) :=
  respondTo_eq_evaluate entry.stays ⟨evaluating.mode, entry.some, entry.noCommand, entry.reads⟩

theorem Entry.after : (session.respondTo limit line).session =
    { session with world := (session.outcome limit statements).2 } := by
  rw [entry.respondTo evaluating, evaluate_session]
  rfl

theorem Entry.scope : (session.respondTo limit line).session.scope = session.scope := by
  rw [entry.after evaluating]

theorem Entry.evaluates : (session.respondTo limit line).session.Evaluating := by
  rw [entry.after evaluating]
  have refines := eval_refines limit session.scope entry.regular nofun ⟨session.world.scopes, []⟩ evaluating.plain
  have settled := eval_settles limit session.scope entry.regular nofun ⟨session.world.scopes, []⟩ evaluating.proper
  exact ⟨evaluating.mode, refines.2.2, settled.scopes⟩

/-- A line that completes shows its value, and the session goes on. -/
theorem Entry.answers (completes : session.Completes limit statements) : ∃ result,
    (session.outcome limit statements).1 = .ok result ∧
      (∀ value, result = .some value → ∃ text, value.text? limit = .ok text) ∧ (session.respondTo limit line).next = .goOn ∧
      (session.respondTo limit line).output = shownAs limit result := by
  have settled : Settled ProperResult (session.outcome limit statements) :=
    eval_settles limit session.scope entry.regular nofun ⟨session.world.scopes, []⟩ evaluating.proper
  rw [entry.respondTo evaluating]
  cases ends : (session.outcome limit statements).1 with
  | error fault =>
    obtain rfl := settled.stopped fault ends
    exact absurd ends completes.evaluates
  | ok result =>
    have texts : ∀ value, result = Option.some value → ∃ text, value.text? limit = .ok text := by
      rintro value rfl
      have shows := completes.shows value ends
      have proper : value.Proper := settled.result _ ends value rfl
      rw [proper.text limit] at shows ⊢
      split at shows
      next => exact absurd rfl shows
      next low => exact ⟨value.inspect, if_neg low⟩
    exact ⟨result, rfl, texts, evaluate_shows ends texts _⟩

/-- The statements of a quiet line have others go on in the world that they leave. -/
theorem Entry.outcome_append (completes : session.Completes limit statements) (quiet : session.Quiet limit statements)
    {others : List Node} (some : others ≠ []) : session.outcome limit (statements ++ others) =
      (session.outcome limit statements).2.eval limit (.program (.sequence others)) session.scope := by
  obtain ⟨result, ends, -⟩ := entry.answers evaluating completes
  cases limit with
  | zero => exact absurd rfl completes.evaluates
  | succ depth => exact World.eval_append quiet ends some

end Entries

/-- What was called before is nothing to how statements end, nor to the scopes after them. -/
theorem Evaluating.outcome_of_scopes (evaluating : session.Evaluating)
    (regular : ∀ node ∈ statements, Node.Regular .statement node) {world : World}
    (same : world.scopes = session.world.scopes) :
    (world.eval limit (.program (.sequence statements)) session.scope).1 = (session.outcome limit statements).1 ∧
      (world.eval limit (.program (.sequence statements)) session.scope).2.scopes =
        (session.outcome limit statements).2.scopes := by
  have refines := eval_refines limit session.scope (.program regular) nofun
  exact @Refines.same _ _ _ refines ⟨session.world.scopes, []⟩ world evaluating.plain same

theorem Goes.tail (goes : session.Goes limit (line :: lines)) : (session.respondTo limit line).session.Goes limit lines where
  entries other member := goes.entries other (List.mem_cons_of_mem _ member)
  completes earlier other later statements split := goes.completes (line :: earlier) other later statements (by rw [split]; rfl)
  quiet earlier other later statements split := goes.quiet (line :: earlier) other later statements (by rw [split]; rfl)

theorem Goes.single (entry : Entry limit line statements) (completes : session.Completes limit statements) :
    session.Goes limit [line] := by
  have same {earlier later : List String} {other : String} {block : List Node} (split : [line] = earlier ++ other :: later)
      (again : Entry limit other block) : earlier = [] ∧ later = [] ∧ block = statements := by
    cases earlier with
    | nil =>
      cases split
      cases entry.reads.symm.trans again.reads
      exact ⟨rfl, rfl, rfl⟩
    | cons first earlier => simp at split
  refine ⟨List.forall_mem_singleton.mpr ⟨statements, entry⟩, ?_, ?_⟩
  · intro earlier other later block split again
    obtain ⟨rfl, -, rfl⟩ := same split again
    exact completes
  · intro earlier other later block split more again
    exact absurd (same split again).2.1 more

theorem Goes.cons (entry : Entry limit line statements) (completes : session.Completes limit statements)
    (quiet : session.Quiet limit statements) (goes : (session.respondTo limit line).session.Goes limit lines) :
    session.Goes limit (line :: lines) := by
  refine ⟨List.forall_mem_cons.mpr ⟨⟨statements, entry⟩, goes.entries⟩, ?_, ?_⟩
  · intro earlier other later block split again
    cases earlier with
    | nil =>
      cases split
      cases entry.reads.symm.trans again.reads
      exact completes
    | cons first earlier =>
      obtain ⟨rfl, rest⟩ := List.cons.inj split
      exact goes.completes earlier other later block rest again
  · intro earlier other later block split more again
    cases earlier with
    | nil =>
      cases split
      cases entry.reads.symm.trans again.reads
      exact quiet
    | cons first earlier =>
      obtain ⟨rfl, rest⟩ := List.cons.inj split
      exact goes.quiet earlier other later block rest more again

theorem Goes.goOn (goes : session.Goes limit lines) (evaluating : session.Evaluating) :
    ∀ reply ∈ replies limit session lines, reply.next = .goOn := by
  induction lines generalizing session with
  | nil => exact List.forall_mem_nil _
  | cons line lines ih =>
    obtain ⟨statements, entry⟩ := goes.entries line List.mem_cons_self
    obtain ⟨-, -, -, next, -⟩ := entry.answers evaluating (goes.completes [] line lines statements rfl entry)
    exact List.forall_mem_cons.mpr ⟨next, ih goes.tail (entry.evaluates evaluating)⟩

theorem regular_of_entries {blocks : List (List Node)} (each : List.Forall₂ (Entry limit) lines blocks) :
    ∀ node ∈ blocks.flatten, Node.Regular .statement node := by
  induction each with
  | nil => exact List.forall_mem_nil _
  | cons entry _ ih =>
    cases entry.regular with
    | program nodes => exact List.forall_mem_append.mpr ⟨nodes, ih⟩

/-- All statements together end as the last line does, and leave the scopes that the session has then. -/
theorem Goes.evaluates (goes : session.Goes limit lines) (some : lines ≠ []) (evaluating : session.Evaluating)
    {blocks : List (List Node)} (each : List.Forall₂ (Entry limit) lines blocks) {world : World}
    (same : world.scopes = session.world.scopes) :
    (world.eval limit (.program (.sequence blocks.flatten)) session.scope).2.scopes =
        (session.after limit lines).world.scopes ∧
      ∃ earlier line statements, lines = earlier ++ [line] ∧ Entry limit line statements ∧
        (world.eval limit (.program (.sequence blocks.flatten)) session.scope).1 =
          ((session.after limit earlier).outcome limit statements).1 := by
  induction each generalizing session world with
  | nil => exact absurd rfl some
  | @cons line statements lines blocks entry each ih =>
    obtain ⟨ends, leaves⟩ := @Evaluating.outcome_of_scopes limit _ _ evaluating (regular_of_entries (.cons entry each)) world same
    have after := congrArg (fun session => session.world.scopes) (entry.after evaluating)
    rw [ends, leaves, List.flatten_cons]
    cases lines with
    | nil =>
      cases each
      rw [List.flatten_nil, List.append_nil]
      exact ⟨after.symm, [], line, statements, rfl, entry, rfl⟩
    | cons next rest =>
      have completes := goes.completes [] line (next :: rest) statements rfl entry
      have quiet := goes.quiet [] line (next :: rest) statements rfl (List.cons_ne_nil _ _) entry
      have others : blocks.flatten ≠ [] := by
        cases each with
        | cons entry _ => simp [entry.filled]
      have whole := entry.outcome_append evaluating completes quiet others
      obtain ⟨scopes, earlier, last, block, split, final, value⟩ :=
        @ih _ goes.tail (List.cons_ne_nil _ _) (entry.evaluates evaluating) (session.outcome limit statements).2 after.symm
      rw [entry.scope evaluating] at scopes value
      rw [whole]
      exact ⟨scopes, line :: earlier, last, block, by rw [split, List.cons_append], final, value⟩

theorem Goes.evaluating {earlier later : List String} (goes : session.Goes limit lines) (split : lines = earlier ++ later)
    (evaluating : session.Evaluating) :
    (session.after limit earlier).Evaluating ∧ (session.after limit earlier).scope = session.scope := by
  subst split
  induction earlier generalizing session with
  | nil => exact ⟨evaluating, rfl⟩
  | cons line earlier ih =>
    obtain ⟨statements, entry⟩ := goes.entries line List.mem_cons_self
    obtain ⟨still, scope⟩ := ih (entry.evaluates evaluating) goes.tail
    exact ⟨still, scope.trans (entry.scope evaluating)⟩

theorem exists_blocks (entries : ∀ line ∈ lines, ∃ statements, Entry limit line statements) :
    ∃ blocks, List.Forall₂ (Entry limit) lines blocks := by
  induction lines with
  | nil => exact ⟨[], .nil⟩
  | cons line lines ih =>
    obtain ⟨⟨statements, entry⟩, others⟩ := List.forall_mem_cons.mp entries
    obtain ⟨blocks, each⟩ := ih others
    exact ⟨statements :: blocks, .cons entry each⟩

theorem heard_lines (entries : ∀ line ∈ lines, ∃ statements, Entry limit line statements) :
    heard (lines.map .line) = lines := by
  induction lines with
  | nil => rfl
  | cons line lines ih =>
    obtain ⟨⟨statements, entry⟩, others⟩ := List.forall_mem_cons.mp entries
    rw [List.map_cons, heard, entry.stripped, if_neg entry.stays, ih others]

theorem Goes.run_eq (goes : session.Goes limit lines) (evaluating : session.Evaluating) (shown : String) :
    session.run limit shown (lines.map .line) =
      transcript shown (lines.map .line) (replies limit session lines) (session.after limit lines) := by
  have heard := heard_lines goes.entries
  have answers := goes.goOn evaluating
  rw [← heard] at answers
  have whole := @Session.run_eq limit session shown (lines.map .line) answers
  rwa [heard] at whole

/-- A session does line by line what its lines do as one text. When the limit is not reached, and no line but the last one
has a statement that ends in a signal, that text has no syntax errors. A run of it ends with a result in the scopes of a
world of its own; what the names are bound to there looks as it does in the session, and what that run shows is what the
session shows after the last line. -/
theorem session_computes_program (some : lines ≠ []) (goes : (fresh .eval).Goes limit lines) (shown : String)
    (read : String → Except FileFault (List UInt8)) :
    let transcript := (fresh .eval).run limit shown (lines.map .line)
    let run := Run.ofSource limit read "eval" true ("\n".intercalate lines)
    transcript.failure = none ∧
    ∃ program result, Parsed.ofText limit ("\n".intercalate lines) = ⟨.ok program, []⟩ ∧
      (World.fresh.eval limit program 0).1 = .ok result ∧ run.result = .ok result ∧
      transcript.session.world.seen transcript.session.scope = (World.fresh.eval limit program 0).2.seen 0 ∧
      transcript.shown[lines.length]? = .some (run.output ++ prompt) := by
  intro transcript run
  have evaluating : (fresh .eval).Evaluating := ⟨rfl, .fresh, .fresh⟩
  have whole : transcript = _ := goes.run_eq evaluating shown
  obtain ⟨blocks, each⟩ := exists_blocks goes.entries
  obtain ⟨program, reads, shape⟩ := Parsed.ofText_lines (each.imp fun _ _ entry => entry.toLine)
  obtain ⟨scopes, earlier, line, statements, split, entry, value⟩ := @Goes.evaluates _ _ _ goes some evaluating _ each .fresh rfl
  obtain ⟨still, -⟩ := goes.evaluating split evaluating
  obtain ⟨result, ends, texts, -, output⟩ := entry.answers still (goes.completes earlier line [] statements split entry)
  obtain ⟨⟨result', ends', same⟩, after⟩ := World.eval_of_shape shape.symm (value.trans ends)
  have evaluated : run = Run.evaluate limit _ program := Run.ofSource_eval reads
  obtain ⟨ran, printed⟩ := Run.evaluate_shows ends' (texts_of_shape same texts) (Parsed.ofText limit _).log
  rw [← evaluated] at ran printed
  rw [whole]
  refine ⟨rfl, program, result', reads, ends', ran, ?_, ?_⟩
  · obtain ⟨-, scope⟩ := goes.evaluating (List.append_nil lines).symm evaluating
    have seen := (World.seen_of_scopes scopes.symm 0).trans (World.seen_of_shape after 0).symm
    exact (congrArg _ scope).trans seen
  · rw [printed, shownAs_of_shape same, ← output, split, List.length_append, List.length_singleton]
    exact transcript_shown _ _ earlier line []

/-- The statements of `let f = fn() { x };`, and those of `let x = 1; f();`. -/
def openFunction : List Node :=
  [.letBinding (some ⟨.letWord, "let", ⟨1, 1⟩⟩) (.identifier (some ⟨.identifier, "f", ⟨1, 5⟩⟩) "f")
    (.function (some ⟨.functionWord, "fn", ⟨1, 9⟩⟩) (.sequence [])
      (.block (some ⟨.leftBrace, "\x7b", ⟨1, 14⟩⟩) (.sequence
        [.statement (some ⟨.identifier, "x", ⟨1, 16⟩⟩) (.identifier (some ⟨.identifier, "x", ⟨1, 16⟩⟩) "x")])))]

def laterBinding : List Node :=
  [.letBinding (some ⟨.letWord, "let", ⟨1, 1⟩⟩) (.identifier (some ⟨.identifier, "x", ⟨1, 5⟩⟩) "x")
      (.integer (some ⟨.integer, "1", ⟨1, 9⟩⟩) 1),
    .statement (some ⟨.identifier, "f", ⟨1, 12⟩⟩) (.call (some ⟨.leftParen, "(", ⟨1, 13⟩⟩)
      (.identifier (some ⟨.identifier, "f", ⟨1, 12⟩⟩) "f") (.sequence []))]

/-- What the function means is bound after it, on another line. -/
theorem later_binding_computed :
    let lines := ["let f = fn() \x7b x \x7d;", "let x = 1; f();"]
    let transcript := (fresh .eval).run 12 "" (lines.map .line)
    lines ≠ [] ∧ (fresh .eval).Goes 12 lines ∧ transcript.failure = none ∧
    ∀ read, ∃ program result, Parsed.ofText 12 ("\n".intercalate lines) = ⟨.ok program, []⟩ ∧
      (World.fresh.eval 12 program 0).1 = .ok result ∧
      (Run.ofSource 12 read "eval" true ("\n".intercalate lines)).result = .ok result ∧
      transcript.session.world.seen transcript.session.scope = (World.fresh.eval 12 program 0).2.seen 0 ∧
      transcript.shown[2]? =
        .some ((Run.ofSource 12 read "eval" true ("\n".intercalate lines)).output ++ prompt) := by
  intro lines transcript
  have first : Entry 12 "let f = fn() \x7b x \x7d;" openFunction := by
    refine ⟨⟨by cbv, (Token.ofText "let f = fn() \x7b x \x7d;").take 9, ⟨.semicolon, ";", ⟨1, 19⟩⟩, ⟨1, 20⟩, by cbv, rfl⟩, rfl, ?_, ?_, ?_⟩
    all_goals decide
  have second : Entry 12 "let x = 1; f();" laterBinding := by
    refine ⟨⟨by cbv, (Token.ofText "let x = 1; f();").take 8, ⟨.semicolon, ";", ⟨1, 15⟩⟩, ⟨1, 16⟩, by cbv, rfl⟩, rfl, ?_, ?_, ?_⟩
    all_goals decide
  have defined : ((fresh .eval).outcome 12 openFunction).1 = .ok none := rfl
  have called : (((fresh .eval).respondTo 12 "let f = fn() \x7b x \x7d;").session.outcome 12 laterBinding).1 =
      .ok (some (.integer 1)) := by
    rw [first.after ⟨rfl, .fresh, .fresh⟩]
    cbv
  have goes : (fresh .eval).Goes 12 lines := by
    refine .cons first ⟨?_, ?_⟩ ⟨?_, trivial⟩ (.single second ⟨?_, ?_⟩)
    · intro exhausted
      cases defined.symm.trans exhausted
    · intro value ends
      cases defined.symm.trans ends
    · intro value ends
      change (Except.ok none : Except Fault (Option Value)) = .ok (some value) at ends
      cases ends
    · intro exhausted
      cases called.symm.trans exhausted
    · intro value ends
      cases called.symm.trans ends
      intro exhausted
      cases exhausted
  have computes := session_computes_program (List.cons_ne_nil _ _) goes ""
  exact ⟨List.cons_ne_nil _ _, goes, (computes fun path => .error (.missing path)).1, fun read => (computes read).2⟩

end Session

end MonkeyLang
