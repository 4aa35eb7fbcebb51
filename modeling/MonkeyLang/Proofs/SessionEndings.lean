import MonkeyLang.Proofs.ErrorContainment
import MonkeyLang.Proofs.ExceptionRefinement
import MonkeyLang.Proofs.ProperRuns
import MonkeyLang.Proofs.SessionEffects

/-! What ends a session besides the words for it, the end of the input and an interrupt. A line can have more digits in a
row, be nested more deeply or show a higher tree than can be dealt with; that is a fault, and a session gets over none but
the one that evaluation itself stops at. -/

namespace MonkeyLang

variable {limit : Nat}

/-- Only its height keeps the tree of a program from being shown. -/
theorem Parsed.text_of_parsed {line : String} {program : Node} (parsed : ofText limit line = ⟨.ok program, []⟩) :
    program.text? limit = if limit < program.height then .error .exhausted else .ok program.render :=
  (program_regular (congrArg Parsed.result parsed)).text limit

namespace Parse

variable {before : Parser} {reason : Numeral.Fault}

/-- A number that cannot be read stops the expression that begins with it. -/
theorem expression_stops (kind : before.current.kind = .integer)
    (refused : Numeral.read before.current.literal = .error reason) (floor : Int) :
    Ensures (expression (limit + 1) floor) before (fun _ _ => False)
      (fun failure _ => failure = .fault (.numeral reason)) := by
  have first : Ensures (operand (expression limit)) before (fun _ _ => False)
      (fun failure _ => failure = .fault (.numeral reason)) := by
    simp only [operand, integer, ensures_bind, ensures_current, kind, refused]
    rfl
  rw [expression, level, ensures_bind]
  exact first.imp (fun _ _ => False.elim) fun _ _ => id

theorem program_stops (kind : before.current.kind = .integer)
    (refused : Numeral.read before.current.literal = .error reason) :
    Ensures (program (limit + 1)) before (fun _ _ => False) (fun failure _ => failure = .fault (.numeral reason)) := by
  simp only [program, statements, moreStatements, ensures_bind, ensures_get, ensures_current, kind, reduceCtorEq,
    decide_false, Bool.or_self, Bool.false_eq_true, if_false, ensures_recovering, statement, expressionStatement]
  apply (expression_stops kind refused _).imp
  · intro _ _
    exact False.elim
  · rintro _ _ rfl
    rfl

end Parse

/-- Nothing is taken from a text without blanks. -/
theorem Text.trim_of_solid {text : List Char} (solid : ∀ c ∈ text, isBlank c = false) : trim text = text := by
  have keeps {text : List Char} (solid : ∀ c ∈ text, isBlank c = false) : text.dropWhile isBlank = text := by
    cases text with
    | nil => rfl
    | cons c rest => exact List.dropWhile_cons_of_neg (by simp [solid c List.mem_cons_self])
  rw [trim, keeps solid, keeps fun c member => solid c (List.mem_reverse.mp member), List.reverse_reverse]

theorem Numeral.IsDigit.not_blank {c : Char} (digit : Numeral.IsDigit c) : Text.isBlank c = false := by
  obtain ⟨low, high⟩ := digit.bounds
  simp only [Text.isBlank, Bool.or_eq_false_iff, Bool.and_eq_false_iff, decide_eq_false_iff_not, beq_eq_false_iff_ne, ne_eq]
  omega

theorem Token.ofText_digits {digits : List Char} (some : digits ≠ []) (run : ∀ c ∈ digits, Numeral.IsDigit c) :
    ∃ others, Token.ofText (String.ofList digits) = ⟨.integer, String.ofList digits, .start⟩ :: others := by
  have spells : Lexeme.Spells .integer digits := .number some fun c member => by
    obtain ⟨low, high⟩ := run c member
    simp [Lexeme.isDigit, low, high]
  have ended : Lexeme.Ended .integer digits [] := by
    constructor
    all_goals simp
  obtain ⟨c, more, rfl, solid, longest⟩ := Lexeme.longest_of_spells spells ended
  rw [List.append_nil] at longest
  rw [Token.ofText, String.toList_ofList, Cursor.ofText, Cursor.tokens_cons solid, longest]
  exact ⟨_, rfl⟩

namespace Session

variable {session : Session} {line : String} {failure : Failure}

/-- The line is read as a program. -/
structure Reads (session : Session) (line : String) : Prop where
  some : line ≠ ""
  noCommand : ¬Mode.command <+: line.toList
  mode : session.mode ≠ .tokens

/-- How a program ends that is evaluated in the session. -/
def ending (limit : Nat) (session : Session) (program : Node) : Except Fault (Option Value) :=
  (World.eval ⟨session.world.scopes, []⟩ limit program session.scope).1

/-- The line has too much of something: of digits in a row, of levels that it is nested, or of levels of the tree that is
shown for it, which is that of the program or that of the function it comes to. -/
inductive Overwhelms (limit : Nat) (session : Session) (line : String) : Failure → Prop
  | number {front digits behind} (reads : session.Reads line) (whole : line.toList = front ++ (digits ++ behind))
      (run : ∀ c ∈ digits, Numeral.IsDigit c) (many : Numeral.digitLimit < digits.length)
      (stopped : (Parsed.ofText limit line).result = .error (.fault (.numeral (.tooManyDigits digits.length)))) :
      Overwhelms limit session line (.fault (.numeral (.tooManyDigits digits.length)))
  | nesting (reads : session.Reads line) (long : limit ≤ (Token.ofText line).length)
      (stopped : (Parsed.ofText limit line).Exhausted) : Overwhelms limit session line (.fault .exhausted)
  | tree {program} (reads : session.Reads line) (shown : session.mode = .ast)
      (parsed : Parsed.ofText limit line = ⟨.ok program, []⟩) (high : limit < program.height) :
      Overwhelms limit session line (.fault .exhausted)
  | value {program value} (runs : Runs limit session.mode line program)
      (ends : session.ending limit program = .ok (some value)) (high : limit < value.height)
      (stopped : value.text? limit = .error .exhausted) : Overwhelms limit session line (.fault .exhausted)

/-- The line runs into something that was bound from outside: a function with a tree that cannot be parsed, an integer with
too many digits to be written, or a return of nothing. -/
inductive Stumbles (limit : Nat) (session : Session) (line : String) : Failure → Prop
  | evaluation {program cause} (runs : Runs limit session.mode line program)
      (stopped : session.ending limit program = .error cause) (other : cause ≠ .exhausted) :
      Stumbles limit session line (.fault cause)
  | value {program value cause} (runs : Runs limit session.mode line program)
      (ends : session.ending limit program = .ok (some value)) (textless : value.text? limit = .error cause)
      (other : cause ≠ .exhausted) : Stumbles limit session line (.fault cause)

def Fatal (limit : Nat) (session : Session) (line : String) (failure : Failure) : Prop :=
  Overwhelms limit session line failure ∨ Stumbles limit session line failure

/-- None of the lines is fatal to the session as the lines before it have left it. -/
def Survives (limit : Nat) (session : Session) : List String → Prop
  | [] => True
  | line :: rest =>
    (∀ failure, ¬Fatal limit session line failure) ∧ Survives limit (session.respondTo limit line).session rest

theorem Reads.of_runs {program : Node} (runs : Runs limit session.mode line program) : session.Reads line where
  some := runs.some
  noCommand := runs.noCommand
  mode tokens := by
    have evaluated := runs.evaluated
    rw [tokens] at evaluated
    cases evaluated

theorem respondTo_of_reads (stays : ¬(line = "exit" || line = "quit")) (reads : session.Reads line) :
    session.respondTo limit line = session.interpret limit line := by
  rw [respondTo, if_neg reads.some, if_neg stays, Mode.request?_eq_none_iff.mpr reads.noCommand]
  exact if_neg reads.mode

/-- A line that is not read as a program does not fail. -/
theorem reads_of_fails (stays : ¬(line = "exit" || line = "quit"))
    (fails : (session.respondTo limit line).next = .fail failure) : session.Reads line := by
  unfold respondTo at fails
  split at fails
  next => cases fails
  next some =>
    split at fails
    next => cases fails
    next => cases fails
    next none =>
      split at fails
      next => cases fails
      next mode => exact ⟨some, Mode.request?_eq_none_iff.mp none, mode⟩

theorem showing_fails {log : List LogEntry} {text : Except Fault String} :
    (session.showing log text).next = .fail failure ↔ ∃ cause, text = .error cause ∧ failure = .fault cause := by
  cases text with
  | ok text => simp [showing]
  | error cause => simp [showing, eq_comm]

/-- Evaluation gets over the limit; showing the value does not. -/
theorem evaluate_fails {log : List LogEntry} {program : Node} :
    (session.evaluate limit log program).next = .fail failure ↔ ∃ cause, failure = .fault cause ∧
      (session.ending limit program = .error cause ∧ cause ≠ .exhausted ∨
        ∃ value, session.ending limit program = .ok (some value) ∧ value.text? limit = .error cause) := by
  unfold evaluate ending
  dsimp only
  split
  next value ends => simp [ends, showing_fails, and_comm]
  next ends => simp [ends]
  next ends => simp [ends]
  next cause other stopped =>
    have same : failure = .fault cause → cause ≠ .exhausted := fun _ => other
    simpa [stopped, eq_comm] using same

theorem interpret_fails : (session.interpret limit line).next = .fail failure ↔
    (Parsed.ofText limit line).result = .error failure ∨ ∃ program, Parsed.ofText limit line = ⟨.ok program, []⟩ ∧
      (session.mode = .ast ∧ (∃ cause, program.text? limit = .error cause ∧ failure = .fault cause) ∨
        session.mode ≠ .ast ∧ (session.evaluate limit (Parsed.ofText limit line).log program).next = .fail failure) := by
  unfold interpret
  generalize Parsed.ofText limit line = parsed
  obtain ⟨result, errors⟩ := parsed
  cases result with
  | error cause => simp
  | ok program =>
    by_cases clean : errors = []
    · subst clean
      by_cases ast : session.mode = .ast
      · simp [ast, showing_fails]
      · simp [ast]
    · simp [clean]

theorem fatal_of_interpret (reads : session.Reads line) (fails : (session.interpret limit line).next = .fail failure) :
    Fatal limit session line failure := by
  rcases interpret_fails.mp fails with stopped | ⟨program, parsed, ⟨ast, cause, stopped, rfl⟩ | ⟨noAst, fails⟩⟩
  · rcases Parsed.stopped_of_text stopped with ⟨rfl, long⟩ | ⟨front, digits, behind, whole, run, many, rfl⟩
    · exact .inl (.nesting reads long stopped)
    · exact .inl (.number reads whole run many stopped)
  · rw [Parsed.text_of_parsed parsed] at stopped
    split at stopped
    next high =>
      cases stopped
      exact .inl (.tree reads ast parsed high)
    next => cases stopped
  · have evaluated : session.mode = .eval := by
      cases mode : session.mode with
      | eval => rfl
      | tokens => exact absurd mode reads.mode
      | ast => exact absurd mode noAst
    have runs : Runs limit session.mode line program := ⟨evaluated, reads.some, reads.noCommand, parsed⟩
    rcases evaluate_fails.mp fails with ⟨cause, rfl, ⟨stopped, other⟩ | ⟨value, ends, stopped⟩⟩
    · exact .inr (.evaluation runs stopped other)
    · by_cases exhausted : cause = .exhausted
      · subst exhausted
        exact .inl (.value runs ends (Value.height_of_exhausted stopped) stopped)
      · exact .inr (.value runs ends stopped exhausted)

theorem interpret_of_runs {program : Node} (runs : Runs limit session.mode line program)
    (fails : ∀ log, (session.evaluate limit log program).next = .fail failure) :
    session.Reads line ∧ (session.interpret limit line).next = .fail failure := by
  have noAst : session.mode ≠ .ast := by
    rw [runs.evaluated]
    exact nofun
  exact ⟨.of_runs runs, interpret_fails.mpr (.inr ⟨program, runs.reads, .inr ⟨noAst, fails _⟩⟩)⟩

theorem interpret_of_fatal (fatal : Fatal limit session line failure) :
    session.Reads line ∧ (session.interpret limit line).next = .fail failure := by
  rcases fatal with overwhelms | stumbles
  · cases overwhelms with
    | number reads _ _ _ stopped => exact ⟨reads, interpret_fails.mpr (.inl stopped)⟩
    | nesting reads _ stopped => exact ⟨reads, interpret_fails.mpr (.inl stopped)⟩
    | @tree program reads ast parsed high =>
      have stopped : program.text? limit = .error .exhausted := (Parsed.text_of_parsed parsed).trans (if_pos high)
      exact ⟨reads, interpret_fails.mpr (.inr ⟨program, parsed, .inl ⟨ast, _, stopped, rfl⟩⟩)⟩
    | @value program value runs ends _ stopped =>
      exact interpret_of_runs runs fun _ => evaluate_fails.mpr ⟨_, rfl, .inr ⟨value, ends, stopped⟩⟩
  · cases stumbles with
    | evaluation runs stopped other =>
      exact interpret_of_runs runs fun _ => evaluate_fails.mpr ⟨_, rfl, .inl ⟨stopped, other⟩⟩
    | @value program value cause runs ends textless =>
      exact interpret_of_runs runs fun _ => evaluate_fails.mpr ⟨_, rfl, .inr ⟨value, ends, textless⟩⟩

/-- One line. -/
theorem respondTo_fails (stays : ¬(line = "exit" || line = "quit")) :
    (session.respondTo limit line).next = .fail failure ↔ Fatal limit session line failure := by
  constructor
  · intro fails
    have reads := reads_of_fails stays fails
    rw [respondTo_of_reads stays reads] at fails
    exact fatal_of_interpret reads fails
  · intro fatal
    obtain ⟨reads, fails⟩ := interpret_of_fatal fatal
    rw [respondTo_of_reads stays reads]
    exact fails

theorem goOn_iff (stays : ¬(line = "exit" || line = "quit")) :
    (session.respondTo limit line).next = .goOn ↔ ∀ failure, ¬Fatal limit session line failure := by
  constructor
  · intro goes failure fatal
    cases goes.symm.trans ((respondTo_fails stays).mpr fatal)
  · intro none
    cases next : (session.respondTo limit line).next with
    | goOn => rfl
    | close => exact absurd next (respondTo_next stays)
    | fail failure => exact absurd ((respondTo_fails stays).mp next) (none failure)

theorem survives_iff {lines : List String} (stay : ∀ line ∈ lines, ¬(line = "exit" || line = "quit")) :
    Survives limit session lines ↔ ∀ reply ∈ replies limit session lines, reply.next = .goOn := by
  induction lines generalizing session with
  | nil => simp [Survives, replies]
  | cons line lines ih =>
    obtain ⟨stays, others⟩ := List.forall_mem_cons.mp stay
    rw [Survives, replies, List.forall_mem_cons, ih others, goOn_iff stays]

section Runs

variable {shown : String} {inputs : List Input}

theorem run_fail {text : String} {rest : List Input}
    (fails : (session.respondTo limit (stripped text)).next = .fail failure) :
    session.run limit shown (.line text :: rest) =
      let reply := session.respondTo limit (stripped text)
      ⟨[shown ++ prompt, reply.output], reply.log, reply.session, some failure⟩ := by
  rw [run, respond, ← stripped]
  dsimp only
  rw [fails]

theorem run_survives : (session.run limit shown inputs).failure = none ↔ Survives limit session (heard inputs) := by
  rw [survives_iff heard_stays]
  constructor
  · exact goes_of_survives
  · intro goes
    rw [run_eq goes]
    rfl

theorem of_heard {lines : List String} (hears : heard inputs = line :: lines) : ∃ text rest,
    inputs = .line text :: rest ∧ stripped text = line ∧ ¬(line = "exit" || line = "quit") ∧ heard rest = lines := by
  cases inputs with
  | nil => cases hears
  | cons input rest =>
    cases input with
    | interrupt => cases hears
    | line text =>
      rw [heard] at hears
      split at hears
      next => cases hears
      next stays =>
        obtain ⟨rfl, same⟩ := List.cons.inj hears
        exact ⟨text, rest, rfl, rfl, stays, same⟩

/-- A line that is fatal ends the session if the lines before it do not. -/
theorem run_of_fatal {earlier later : List String} (split : heard inputs = earlier ++ line :: later)
    (survives : Survives limit session earlier) (fatal : Fatal limit (session.after limit earlier) line failure) :
    (session.run limit shown inputs).failure = some failure := by
  induction earlier generalizing inputs session shown with
  | nil =>
    obtain ⟨text, rest, rfl, rfl, stays, -⟩ := of_heard split
    exact congrArg Transcript.failure (run_fail ((respondTo_fails stays).mpr fatal))
  | cons first earlier ih =>
    obtain ⟨text, rest, rfl, rfl, stays, same⟩ := of_heard split
    rw [run_goOn rest ((goOn_iff stays).mpr survives.1)]
    exact ih same survives.2 fatal

theorem exists_fatal {lines : List String} (ends : ¬Survives limit session lines) : ∃ earlier line later failure,
    lines = earlier ++ line :: later ∧ Survives limit session earlier ∧
      Fatal limit (session.after limit earlier) line failure := by
  induction lines generalizing session with
  | nil => exact absurd trivial ends
  | cons line lines ih =>
    by_cases fatal : ∃ failure, Fatal limit session line failure
    · obtain ⟨failure, fatal⟩ := fatal
      exact ⟨[], line, lines, failure, rfl, trivial, fatal⟩
    · have goes := not_exists.mp fatal
      obtain ⟨earlier, last, later, failure, rfl, survives, fatal⟩ := ih fun others => ends ⟨goes, others⟩
      exact ⟨line :: earlier, last, later, failure, rfl, ⟨goes, survives⟩, fatal⟩

theorem run_fails : (session.run limit shown inputs).failure = some failure ↔
    ∃ earlier line later, heard inputs = earlier ++ line :: later ∧ Survives limit session earlier ∧
      Fatal limit (session.after limit earlier) line failure := by
  constructor
  · intro fails
    have ends : ¬Survives limit session (heard inputs) := by
      intro survives
      cases fails.symm.trans (run_survives.mpr survives)
    obtain ⟨earlier, line, later, first, split, survives, fatal⟩ := exists_fatal ends
    obtain rfl : failure = first := Option.some.inj (fails.symm.trans (run_of_fatal split survives fatal))
    exact ⟨earlier, line, later, split, survives, fatal⟩
  · rintro ⟨earlier, line, later, split, survives, fatal⟩
    exact run_of_fatal split survives fatal

end Runs

/-! Nothing stumbles in proper scopes, which they stay. -/

theorem respondTo_proper (proper : ProperScopes session.world.scopes) (stays : ¬(line = "exit" || line = "quit")) :
    ProperScopes (session.respondTo limit line).session.world.scopes := by
  rcases @respondTo_session limit session line stays with ⟨mode, -, after⟩ | ⟨program, runs, after⟩ | ⟨-, -, after⟩
  · rw [after]
    exact proper
  · have regular := Parsed.program_regular (congrArg Parsed.result runs.reads)
    rw [after]
    exact (eval_settles limit session.scope regular nofun ⟨session.world.scopes, []⟩ proper).scopes
  · rw [after]
    exact proper

theorem after_proper (proper : ProperScopes session.world.scopes) {lines : List String}
    (stay : ∀ line ∈ lines, ¬(line = "exit" || line = "quit")) : ProperScopes (session.after limit lines).world.scopes := by
  induction lines generalizing session with
  | nil => exact proper
  | cons line lines ih =>
    obtain ⟨stays, others⟩ := List.forall_mem_cons.mp stay
    exact ih (respondTo_proper proper stays) others

theorem not_stumbles (proper : ProperScopes session.world.scopes) : ¬Stumbles limit session line failure := by
  have settled {program : Node} (runs : Runs limit session.mode line program) :=
    eval_settles limit session.scope (Parsed.program_regular (congrArg Parsed.result runs.reads)) nofun
      ⟨session.world.scopes, []⟩ proper
  intro stumbles
  cases stumbles with
  | evaluation runs stopped other => exact other ((settled runs).stopped _ stopped)
  | value runs ends textless other =>
    have proper : Value.Proper _ := (settled runs).result _ ends _ rfl
    rw [proper.text limit] at textless
    split at textless
    next =>
      cases textless
      exact other rfl
    next => cases textless

/-- A session ends at the first line that is fatal as the lines before it have left the session. If there is none up to the
word for it, the end of the input or the interrupt, all lines are answered. Where what was bound from outside is proper,
only those lines are fatal that have too many digits in a row, are nested too deeply or show too high a tree. -/
theorem goes_on_unless_overwhelmed (limit : Nat) (session : Session) (shown : String) (inputs : List Input) :
    ((session.run limit shown inputs).failure = none ↔ Survives limit session (heard inputs)) ∧
    (∀ failure, (session.run limit shown inputs).failure = some failure ↔ ∃ earlier line later,
      heard inputs = earlier ++ line :: later ∧ Survives limit session earlier ∧
        Fatal limit (session.after limit earlier) line failure) ∧
    (Survives limit session (heard inputs) → session.run limit shown inputs =
      transcript shown inputs (replies limit session (heard inputs)) (session.after limit (heard inputs))) ∧
    (ProperScopes session.world.scopes → ∀ earlier line later failure, heard inputs = earlier ++ line :: later →
      Fatal limit (session.after limit earlier) line failure →
        Overwhelms limit (session.after limit earlier) line failure) := by
  refine ⟨run_survives, fun failure => run_fails, ?_, ?_⟩
  · intro survives
    exact run_eq ((survives_iff heard_stays).mp survives)
  · intro proper earlier line later failure split fatal
    have stay := @heard_stays inputs
    rw [split, List.forall_mem_append] at stay
    exact fatal.resolve_right (not_stumbles (after_proper proper stay.1))

/-- The text of the value is shown. -/
theorem respondTo_shows {program : Node} {value : Value} {text : String} (stays : ¬(line = "exit" || line = "quit"))
    (runs : Runs limit session.mode line program) (ends : session.ending limit program = .ok (some value))
    (shows : value.text? limit = .ok text) : (session.respondTo limit line).next = .goOn ∧
      (session.respondTo limit line).output = text ++ "\n" := by
  have opened : (World.eval ⟨session.world.scopes, []⟩ limit program session.scope).1 = .ok (some value) := ends
  rw [respondTo_eq_evaluate stays runs, evaluate]
  dsimp only
  rw [opened]
  dsimp only
  rw [shows]
  exact ⟨rfl, rfl⟩

/-- A session in which an error is bound to `e`, and the program `e`. -/
def marked : Session := ⟨.eval, ⟨#[⟨[("e", some (.error .divisionByZero))], [], none⟩], []⟩, 0⟩

def mark : Node := .program (.sequence
  [.statement (some ⟨.identifier, "e", ⟨1, 1⟩⟩) (.identifier (some ⟨.identifier, "e", ⟨1, 1⟩⟩) "e")])

/-- The error is shown, and the session goes on. -/
theorem marked_goes_on : ProperScopes marked.world.scopes ∧
    (marked.run 9 "" [.line "e", .interrupt]).shown = [">> ", "ERROR: division by zero\n>> ", "\nExiting Monkey REPL.\n"] ∧
    Survives 9 marked (heard [.line "e", .interrupt]) ∧
    ∀ earlier line later failure, heard [.line "e", .interrupt] = earlier ++ line :: later →
      Fatal 9 (marked.after 9 earlier) line failure → Overwhelms 9 (marked.after 9 earlier) line failure := by
  have proper : ProperScopes marked.world.scopes := by
    have error : Scope.Proper ⟨[("e", some (.error .divisionByZero))], [], none⟩ := by
      intro name value member
      cases List.mem_singleton.mp member
      exact trivial
    have empty : ProperScopes World.empty.scopes := fun _ _ place => nomatch place
    exact AtEach.push empty error
  have runs : Runs 9 marked.mode "e" mark := ⟨rfl, by decide, by decide, by cbv⟩
  have ends : marked.ending 9 mark = .ok (some (.error .divisionByZero)) := by cbv
  have stripped : stripped "e" = "e" := rfl
  obtain ⟨goes, output⟩ := respondTo_shows (by decide) runs ends rfl
  rw [← stripped] at goes output
  have result := goes_on_unless_overwhelmed 9 marked "" [.line "e", .interrupt]
  have run : (marked.run 9 "" [.line "e", .interrupt]).failure = none := by
    rw [run_goOn _ goes]
    rfl
  refine ⟨proper, ?_, result.1.mp run, result.2.2.2 proper⟩
  rw [run_goOn _ goes]
  simp only [output]
  rfl

/-- A line that consists of too many digits is fatal. -/
theorem digits_overwhelm {digits : List Char} (mode : session.mode ≠ .tokens) (run : ∀ c ∈ digits, Numeral.IsDigit c)
    (many : Numeral.digitLimit < digits.length) : Overwhelms (limit + 1) session (String.ofList digits)
      (.fault (.numeral (.tooManyDigits digits.length))) := by
  have whole := String.toList_ofList (l := digits)
  obtain ⟨first, more, same⟩ := List.exists_cons_of_length_pos (Nat.lt_of_le_of_lt (Nat.zero_le _) many)
  have some : digits ≠ [] := same ▸ List.cons_ne_nil first more
  have reads : session.Reads (String.ofList digits) := by
    refine ⟨?_, ?_, mode⟩
    · intro empty
      exact some (whole.symm.trans (congrArg String.toList empty))
    · rw [whole, same]
      intro command
      have colon : ':' = first := (List.cons_prefix_cons.mp command).1
      have digit := run first (same ▸ List.mem_cons_self)
      exact digit.ne (by decide) colon.symm
  obtain ⟨others, tokens⟩ := Token.ofText_digits some run
  have current : (Parser.ofTokens (Token.ofText (String.ofList digits))).current =
      ⟨.integer, String.ofList digits, .start⟩ := by
    rw [tokens]
    rfl
  have refused : Numeral.read (Parser.ofTokens (Token.ofText (String.ofList digits))).current.literal =
      .error (.tooManyDigits digits.length) := by
    rw [current, Numeral.read_digits (whole.symm ▸ some) (whole.symm ▸ run), whole, if_pos many]
  have stops := @Parse.program_stops limit _ _ (congrArg Token.kind current) refused
  rcases Parsed.of_ensures stops with ⟨-, -, -, never⟩ | ⟨failure, after, parsed, rfl⟩
  · exact never.elim
  · have split : (String.ofList digits).toList = [] ++ (digits ++ []) := whole.trans (List.append_nil digits).symm
    exact .number reads split run many (congrArg Parsed.result parsed)

theorem digits_stay {digits : List Char} (run : ∀ c ∈ digits, Numeral.IsDigit c) :
    ¬(String.ofList digits = "exit" || String.ofList digits = "quit") := by
  have letter {word : String} {c : Char} (member : c ∈ word.toList) (other : ¬Numeral.IsDigit c) :
      String.ofList digits ≠ word := by
    rintro rfl
    rw [String.toList_ofList] at member
    exact other (run c member)
  have exit : String.ofList digits ≠ "exit" := @letter _ 'e' (by decide) (by decide)
  have quit : String.ofList digits ≠ "quit" := @letter _ 'q' (by decide) (by decide)
  simp [exit, quit]

/-- A number of 4301 digits ends the session; the lines after it are not answered. -/
theorem long_number_ends_session :
    let line := String.ofList (List.replicate 4301 '1')
    let ended := (fresh .eval).run defaultLimit "" [.line line, .line "1", .line "quit"]
    ended.failure = some (.fault (.numeral (.tooManyDigits 4301))) ∧ ended.shown.length = 2 := by
  intro line ended
  have length : (List.replicate 4301 '1').length = 4301 := List.length_replicate
  have run : ∀ c ∈ List.replicate 4301 '1', Numeral.IsDigit c :=
    fun c member => List.eq_of_mem_replicate member ▸ by decide
  have same : stripped line = line := by
    rw [stripped, String.toList_ofList, Text.trim_of_solid fun c member => (run c member).not_blank]
  have fatal := @digits_overwhelm 3999 (fresh .eval) _ (by decide) run (by rw [length]; decide)
  rw [length] at fatal
  have fails : ((fresh .eval).respondTo defaultLimit (stripped line)).next =
      .fail (.fault (.numeral (.tooManyDigits 4301))) := by
    rw [same]
    exact (respondTo_fails (digits_stay run)).mpr (.inl fatal)
  have whole : ended = _ := run_fail fails
  rw [whole]
  exact ⟨rfl, rfl⟩

end Session

end MonkeyLang
