import Mathlib
import MonkeyLang.CommandLine
import MonkeyLang.Proofs.LayoutIndependence
import MonkeyLang.Proofs.SessionEndings

/-! Exit statuses. A text given on the command line comes to one of a few ends: it is shown, its syntax errors are listed, or
it has too much of something. Each has its status and its output, nothing is shown before a failure, and no failure leaves the
command line. -/

namespace MonkeyLang

/-- Parsing came to its end and recorded errors on the way. Where it is stopped, what it has recorded is not looked at. -/
def Parsed.Flawed (parsed : Parsed) : Prop := (∃ program, parsed.result = .ok program) ∧ parsed.errors ≠ []

namespace Run

variable {limit : Nat} {text : String}

/-- The text has a number of too many digits, at which parsing stops. -/
structure Overlong (limit : Nat) (text : String) (digits : List Char) : Prop where
  inside : ∃ front behind, text.toList = front ++ (digits ++ behind)
  run : ∀ c ∈ digits, Numeral.IsDigit c
  many : Numeral.digitLimit < digits.length
  stopped : (Parsed.ofText limit text).result = .error (.fault (.numeral (.tooManyDigits digits.length)))

/-- The program is read without syntax errors and comes to an error. -/
def Errs (limit : Nat) (text : String) : Prop :=
  ∃ program reason, Parsed.ofText limit text = ⟨.ok program, []⟩ ∧
    (World.fresh.eval limit program 0).1 = .ok (some (.error reason))

/-- The limit is reached: in parsing, in evaluation, or in showing the tree of the program or of the function it comes to. -/
inductive Exhausts (limit : Nat) (text : String) : Mode → Prop
  | parsing {mode} (reads : mode ≠ .tokens) (stopped : (Parsed.ofText limit text).Exhausted) : Exhausts limit text mode
  | tree {program} (parsed : Parsed.ofText limit text = ⟨.ok program, []⟩) (high : limit < program.height) :
      Exhausts limit text .ast
  | evaluation {program} (parsed : Parsed.ofText limit text = ⟨.ok program, []⟩)
      (stopped : (World.fresh.eval limit program 0).1 = .error .exhausted) : Exhausts limit text .eval
  | value {program value} (parsed : Parsed.ofText limit text = ⟨.ok program, []⟩)
      (ends : (World.fresh.eval limit program 0).1 = .ok (some value)) (high : limit < value.height) :
      Exhausts limit text .eval

/-- The line on which a result is shown; nothing is shown of none. -/
def shown : Option Value → String
  | none => ""
  | some value => value.inspect ++ "\n"

/-- What a text comes to in a mode: a result or a failure, and the output. -/
inductive Ends (limit : Nat) (text : String) : Mode → Except RunFailure (Option Value) → String → Prop
  | cut : Ends limit text .tokens (.ok none) (tokenLines text)
  | overlong {mode digits} (reads : mode ≠ .tokens) (long : Overlong limit text digits) :
      Ends limit text mode (.error (.stopped (.fault (.numeral (.tooManyDigits digits.length))))) ""
  | exhausted {mode} (exhausts : Exhausts limit text mode) :
      Ends limit text mode (.error (.stopped (.fault .exhausted))) ""
  | flawed {mode} (reads : mode ≠ .tokens) (flawed : (Parsed.ofText limit text).Flawed) :
      Ends limit text mode (.error (.syntaxErrors (Parsed.ofText limit text).messages)) ""
  | rendered {program} (parsed : Parsed.ofText limit text = ⟨.ok program, []⟩) (low : program.height ≤ limit) :
      Ends limit text .ast (.ok none) (program.render ++ "\n")
  | evaluated {program result} (parsed : Parsed.ofText limit text = ⟨.ok program, []⟩)
      (ends : (World.fresh.eval limit program 0).1 = .ok result) (low : ∀ value, result = some value → value.height ≤ limit) :
      Ends limit text .eval (.ok result) (shown result)

/-- Only the limit stops a program that was parsed, and its value has a text. -/
theorem settled_of_parsed {program : Node} (parsed : Parsed.ofText limit text = ⟨.ok program, []⟩) :
    Settled ProperResult (World.fresh.eval limit program 0) :=
  eval_settles limit 0 (Parsed.program_regular (congrArg Parsed.result parsed)) nofun .fresh .fresh

theorem text_of_value {program : Node} {value : Value} (parsed : Parsed.ofText limit text = ⟨.ok program, []⟩)
    (ends : (World.fresh.eval limit program 0).1 = .ok (some value)) :
    value.text? limit = if limit < value.height then .error .exhausted else .ok value.inspect :=
  Value.Proper.text ((settled_of_parsed parsed).result _ ends value rfl) limit

section Courses

variable {mode : Mode} {program : Node}

theorem ofText_tree (parsed : Parsed.ofText limit text = ⟨.ok program, []⟩) :
    ofText limit .ast text = showing none (Parsed.ofText limit text).log (program.text? limit) := by
  simp only [ofText, reduceCtorEq, if_false, parsed, ne_eq, not_true_eq_false, if_true]

theorem ofText_value (parsed : Parsed.ofText limit text = ⟨.ok program, []⟩) :
    ofText limit .eval text = evaluate limit (Parsed.ofText limit text).log program := by
  simp only [ofText, reduceCtorEq, if_false, parsed, ne_eq, not_true_eq_false]

theorem ofText_stopped {failure : Failure} (reads : mode ≠ .tokens)
    (stopped : (Parsed.ofText limit text).result = .error failure) :
    ofText limit mode text = ⟨.error (.stopped failure), "", (Parsed.ofText limit text).log⟩ := by
  simp only [ofText, if_neg reads, stopped]

theorem ofText_flawed (reads : mode ≠ .tokens) (flawed : (Parsed.ofText limit text).Flawed) :
    ofText limit mode text =
      ⟨.error (.syntaxErrors (Parsed.ofText limit text).messages), "", (Parsed.ofText limit text).log⟩ := by
  obtain ⟨⟨program, ended⟩, errors⟩ := flawed
  simp only [ofText, if_neg reads, ended, if_pos errors]

theorem evaluate_stopped {cause : Fault} (stopped : (World.fresh.eval limit program 0).1 = .error cause)
    (log : List LogEntry) :
    (evaluate limit log program).result = .error (.stopped (.fault cause)) ∧ (evaluate limit log program).output = "" := by
  simp only [evaluate, stopped, and_self]

theorem evaluate_value {value : Value} (ends : (World.fresh.eval limit program 0).1 = .ok (some value))
    (log : List LogEntry) :
    ∃ entries, evaluate limit log program = showing (some value) entries (value.text? limit) := by
  simp only [evaluate, ends]
  exact ⟨_, rfl⟩

/-- What was said of a text is what its run comes to. -/
theorem Ends.run {result : Except RunFailure (Option Value)} {output : String} (ends : Ends limit text mode result output) :
    (ofText limit mode text).result = result ∧ (ofText limit mode text).output = output := by
  cases ends with
  | cut => exact ⟨rfl, rfl⟩
  | overlong reads long =>
    rw [ofText_stopped reads long.stopped]
    exact ⟨rfl, rfl⟩
  | exhausted exhausts =>
    cases exhausts with
    | parsing reads stopped =>
      rw [ofText_stopped reads stopped]
      exact ⟨rfl, rfl⟩
    | tree parsed high =>
      rw [ofText_tree parsed, Parsed.text_of_parsed parsed, if_pos high]
      exact ⟨rfl, rfl⟩
    | evaluation parsed stopped =>
      rw [ofText_value parsed]
      exact evaluate_stopped stopped _
    | value parsed ends high =>
      obtain ⟨entries, shows⟩ := evaluate_value ends (Parsed.ofText limit text).log
      rw [ofText_value parsed, shows, text_of_value parsed ends, if_pos high]
      exact ⟨rfl, rfl⟩
  | flawed reads flawed =>
    rw [ofText_flawed reads flawed]
    exact ⟨rfl, rfl⟩
  | rendered parsed low =>
    rw [ofText_tree parsed, Parsed.text_of_parsed parsed, if_neg (Nat.not_lt.mpr low)]
    exact ⟨rfl, rfl⟩
  | @evaluated program result parsed ends low =>
    rw [ofText_value parsed]
    cases result with
    | none => simp only [evaluate, ends, shown, and_self]
    | some value =>
      obtain ⟨entries, shows⟩ := evaluate_value ends (Parsed.ofText limit text).log
      rw [shows, text_of_value parsed ends, if_neg (Nat.not_lt.mpr (low value rfl))]
      exact ⟨rfl, rfl⟩

/-- Every text comes to one of the ends. -/
theorem exists_ends (limit : Nat) (text : String) (mode : Mode) : ∃ result output, Ends limit text mode result output := by
  by_cases reads : mode = .tokens
  · exact reads ▸ ⟨_, _, .cut⟩
  cases ended : (Parsed.ofText limit text).result with
  | error failure =>
    rcases Parsed.stopped_of_text ended with ⟨rfl, -⟩ | ⟨front, digits, behind, whole, run, many, rfl⟩
    · exact ⟨_, _, .exhausted (.parsing reads ended)⟩
    · exact ⟨_, _, .overlong reads ⟨⟨front, behind, whole⟩, run, many, ended⟩⟩
  | ok program =>
    by_cases clean : (Parsed.ofText limit text).errors = []
    · have parsed : Parsed.ofText limit text = ⟨.ok program, []⟩ := by rw [← ended, ← clean]
      cases mode with
      | tokens => exact absurd rfl reads
      | ast =>
        rcases Nat.lt_or_ge limit program.height with high | low
        · exact ⟨_, _, .exhausted (.tree parsed high)⟩
        · exact ⟨_, _, .rendered parsed low⟩
      | eval =>
        cases ends : (World.fresh.eval limit program 0).1 with
        | error cause =>
          obtain rfl := (settled_of_parsed parsed).stopped cause ends
          exact ⟨_, _, .exhausted (.evaluation parsed ends)⟩
        | ok result =>
          by_cases low : ∀ value, result = some value → value.height ≤ limit
          · exact ⟨_, _, .evaluated parsed ends low⟩
          · obtain ⟨value, rfl, high⟩ : ∃ value, result = some value ∧ limit < value.height := by
              simpa only [not_forall, Nat.not_le, exists_prop] using low
            exact ⟨_, _, .exhausted (.value parsed ends high)⟩
    · exact ⟨_, _, .flawed reads ⟨⟨program, ended⟩, clean⟩⟩

/-- It comes to no two of them. -/
theorem Ends.unique {result result' : Except RunFailure (Option Value)} {output output' : String}
    (ends : Ends limit text mode result output) (ends' : Ends limit text mode result' output') :
    result = result' ∧ output = output' :=
  ⟨ends.run.1.symm.trans ends'.run.1, ends.run.2.symm.trans ends'.run.2⟩

end Courses

end Run

/-- A line feed at the end of a text says nothing. -/
theorem Token.lexemes_printed (text : String) : lexemes (text ++ "\n") = lexemes text := by
  have nothing : lexemes "" = [] := by
    have none : ofText "" = [.endAt .start] := Cursor.tokens_of_gap rfl
    rw [lexemes, none]
    rfl
  have lines := lexemes_lines [text, ""]
  rw [List.flatMap_cons, List.flatMap_singleton, nothing, List.append_nil, String.intercalate_cons_cons,
    String.intercalate_singleton] at lines
  rwa [String.append_assoc, String.append_empty] at lines

/-- The text of a program, on a line of its own or by itself, is read as a program with that text. -/
theorem Parsed.ofText_printed {limit depth : Nat} {text printed : String} {program : Node}
    (parsed : (ofText limit text).result = .ok program)
    (prints : printed = program.render ∨ printed = program.render ++ "\n")
    (completed : ¬(ofText depth printed).Exhausted) :
    ∃ again, ofText depth printed = ⟨.ok again, []⟩ ∧ again.render = program.render := by
  have said : Token.lexemes printed = Token.lexemes program.render := by
    rcases prints with rfl | rfl
    · rfl
    · exact Token.lexemes_printed program.render
  have same : (Parser.ofTokens (Token.ofText program.render)).unplaced = (Parser.ofTokens (Token.ofText printed)).unplaced := by
    rw [ofText_unplaced, ofText_unplaced, said]
  have goesOn : ¬(ofText depth program.render).Exhausted := by
    intro exhausted
    have alike : Except.map _ (ofText depth program.render).result = Except.map _ (ofText depth printed).result :=
      (alike_of_unplaced same).result
    rw [exhausted] at alike
    cases ended : (ofText depth printed).result with
    | error failure =>
      rw [ended] at alike
      exact completed (ended.trans (congrArg _ (Except.error.inj alike).symm))
    | ok again =>
      rw [ended] at alike
      cases alike
  obtain ⟨first, derives, shape, numerals⟩ := derives_of_built (built_of_parsed parsed)
  obtain ⟨again, reads, shape'⟩ := ofTokens_clean same (clean_of_derives numerals derives goesOn)
  refine ⟨again, reads, ?_⟩
  rw [← Node.render_shape, ← shape', shape, Node.render_shape]

namespace CommandLine

variable {limit : Nat} {mode : Mode} {text : String} {surroundings : Surroundings} {arguments : List String}

/-- The arguments ask for the text itself to be run in the mode, and for nothing else. -/
def GivesText (arguments : List String) (mode : Mode) (text : String) : Prop :=
  Invocation.ofArguments arguments = .start ⟨some text, true, mode, false, false⟩

/-- The flag that asks for a mode; evaluation is what is done without one. -/
def modeFlags : Mode → List String
  | .eval => []
  | .tokens => ["--tokens"]
  | .ast => ["--ast"]

/-- Behind a marker every text can be given. -/
theorem givesText (mode : Mode) (text : String) : GivesText ("-s" :: modeFlags mode ++ ["--", text]) mode text := by
  unfold GivesText
  cases mode <;> cbv

/-- The status that a run leads to, an error as its result being one of failure too. -/
def statusOf : Except RunFailure (Option Value) → Except Failure Nat
  | .error failure => failureStatus failure
  | .ok (some (.error _)) => .ok 1
  | .ok _ => .ok 0

/-- What is written of a run besides its output. -/
def complaintOf : Except RunFailure (Option Value) → String
  | .error failure => failureText failure
  | .ok _ => ""

/-- Where no log is asked for, the command line reports what the text comes to. -/
theorem run_of_ends (quiet : surroundings.logLevel.any showsLog = false) (gives : GivesText arguments mode text)
    {result : Except RunFailure (Option Value)} {output : String} (ends : Run.Ends limit text mode result output) :
    run limit surroundings arguments = ⟨statusOf result, output, complaintOf result⟩ := by
  obtain ⟨rfl, rfl⟩ := ends.run
  have silent (log : List LogEntry) : logText ⟨some text, true, mode, false, false⟩ surroundings.logLevel log = "" := by
    simp only [logText, quiet, Bool.or_self, Bool.false_eq_true, if_false]
  have source : Run.ofSource limit surroundings.read mode.name true text = Run.ofText limit mode text := by
    simp only [Run.ofSource, Mode.ofName?_name, Run.text, if_true]
  rw [run, gives]
  simp only [source?, Bool.false_eq_true, if_false, source, report, silent, String.empty_append]
  cases (Run.ofText limit mode text).result with
  | error failure => rfl
  | ok result =>
    cases result with
    | none => rfl
    | some value => cases value <;> rfl

/-- What the command line makes of a text: which status it ends with, and what it writes. -/
structure Accounts (limit : Nat) (mode : Mode) (text : String) (report : Report) : Prop where
  one : report.status = .ok 1 ↔ mode ≠ .tokens ∧ (Parsed.ofText limit text).Flawed ∨ mode = .eval ∧ Run.Errs limit text ∨
    Run.Exhausts limit text mode
  two : report.status = .ok 2 ↔ mode ≠ .tokens ∧ ∃ digits, Run.Overlong limit text digits
  zero : report.status ≠ .ok 1 → report.status ≠ .ok 2 → report.status = .ok 0
  tokens : mode = .tokens → report.output = tokenLines text ∧ report.errors = ""
  flawed : mode ≠ .tokens → (Parsed.ofText limit text).Flawed → report.output = "" ∧
    report.errors = "monkey: " ++ toString (Parsed.ofText limit text).errors.length ++ " syntax error(s)\n" ++
      String.join ((Parsed.ofText limit text).errors.map fun error => "\t" ++ error.message ++ "\n")
  overlong : ∀ digits, mode ≠ .tokens → Run.Overlong limit text digits → report.output = "" ∧
    report.errors = "monkey: " ++ (Numeral.Fault.tooManyDigits digits.length).message ++ "\n"
  exhausted : Run.Exhausts limit text mode → report.output = "" ∧
    report.errors = "monkey: " ++ Fault.exhausted.message ++ "\n"
  evaluated : mode = .eval → ¬Run.Exhausts limit text mode → ∀ program, Parsed.ofText limit text = ⟨.ok program, []⟩ →
    ∃ result, (World.fresh.eval limit program 0).1 = .ok result ∧ report.output = Run.shown result ∧ report.errors = ""
  rendered : mode = .ast → ¬Run.Exhausts limit text mode → ∀ program, Parsed.ofText limit text = ⟨.ok program, []⟩ →
    report.output = program.render ++ "\n" ∧ report.errors = ""

section Statuses

variable {result : Except RunFailure (Option Value)} {output : String} (ends : Run.Ends limit text mode result output)
include ends

theorem statusOf_eq_one_iff : statusOf result = .ok 1 ↔
    mode ≠ .tokens ∧ (Parsed.ofText limit text).Flawed ∨ mode = .eval ∧ Run.Errs limit text ∨ Run.Exhausts limit text mode := by
  constructor
  · intro one
    cases ends with
    | cut => cases one
    | overlong => cases one
    | exhausted exhausts => exact .inr (.inr exhausts)
    | flawed reads flawed => exact .inl ⟨reads, flawed⟩
    | rendered => cases one
    | @evaluated program result parsed ended =>
      cases result with
      | none => cases one
      | some value =>
        cases value with
        | error reason => exact .inr (.inl ⟨rfl, program, reason, parsed, ended⟩)
        | null | boolean | integer | returned | returnedNothing | function => cases one
  · rintro (⟨reads, flawed⟩ | ⟨rfl, program, reason, parsed, ended⟩ | exhausts)
    · obtain ⟨rfl, -⟩ := ends.unique (.flawed reads flawed)
      rfl
    · -- the limit may be too low even for the text of the error
      rcases Nat.lt_or_ge limit (Value.error reason).height with high | low
      · obtain ⟨rfl, -⟩ := ends.unique (.exhausted (.value parsed ended high))
        rfl
      · obtain ⟨rfl, -⟩ := ends.unique (.evaluated parsed ended fun value same => Option.some.inj same ▸ low)
        rfl
    · obtain ⟨rfl, -⟩ := ends.unique (.exhausted exhausts)
      rfl

theorem statusOf_eq_two_iff : statusOf result = .ok 2 ↔ mode ≠ .tokens ∧ ∃ digits, Run.Overlong limit text digits := by
  constructor
  · intro two
    cases ends with
    | cut => cases two
    | @overlong _ digits reads long => exact ⟨reads, digits, long⟩
    | exhausted => cases two
    | flawed => cases two
    | rendered => cases two
    | @evaluated program result parsed ended =>
      cases result with
      | none => cases two
      | some value => cases value <;> cases two
  · intro overlong
    obtain ⟨reads, digits, long⟩ := overlong
    obtain ⟨rfl, -⟩ := ends.unique (.overlong reads long)
    rfl

/-- There is a status. -/
theorem statusOf_eq : statusOf result = .ok 0 ∨ statusOf result = .ok 1 ∨ statusOf result = .ok 2 := by
  cases ends with
  | cut | rendered => exact .inl rfl
  | overlong => exact .inr (.inr rfl)
  | exhausted | flawed => exact .inr (.inl rfl)
  | @evaluated program result =>
    cases result with
    | none => exact .inl rfl
    | some value =>
      cases value with
      | error => exact .inr (.inl rfl)
      | null | boolean | integer | returned | returnedNothing | function => exact .inl rfl

theorem accounts_of_ends : Accounts limit mode text ⟨statusOf result, output, complaintOf result⟩ where
  one := statusOf_eq_one_iff ends
  two := statusOf_eq_two_iff ends
  zero no no' := (statusOf_eq ends).resolve_right fun fails => fails.elim no no'
  tokens cuts := by
    subst cuts
    obtain ⟨rfl, rfl⟩ := ends.unique .cut
    exact ⟨rfl, rfl⟩
  flawed reads flawed := by
    obtain ⟨rfl, rfl⟩ := ends.unique (.flawed reads flawed)
    refine ⟨rfl, ?_⟩
    simp only [complaintOf, failureText, failureStatus, RunFailure.message, Parsed.messages, List.length_map, List.map_map,
      String.append_assoc]
    rfl
  overlong digits reads long := by
    obtain ⟨rfl, rfl⟩ := ends.unique (.overlong reads long)
    exact ⟨rfl, String.append_empty⟩
  exhausted exhausts := by
    obtain ⟨rfl, rfl⟩ := ends.unique (.exhausted exhausts)
    exact ⟨rfl, rfl⟩
  evaluated evaluates goes program parsed := by
    subst evaluates
    cases ended : (World.fresh.eval limit program 0).1 with
    | error cause =>
      obtain rfl := (Run.settled_of_parsed parsed).stopped cause ended
      exact absurd (.evaluation parsed ended) goes
    | ok result =>
      have low : ∀ value, result = some value → value.height ≤ limit := by
        rintro value rfl
        exact Nat.le_of_not_lt fun high => goes (.value parsed ended high)
      obtain ⟨rfl, rfl⟩ := ends.unique (.evaluated parsed ended low)
      exact ⟨result, rfl, rfl, rfl⟩
  rendered renders goes program parsed := by
    subst renders
    have low : program.height ≤ limit := Nat.le_of_not_lt fun high => goes (.tree parsed high)
    obtain ⟨rfl, rfl⟩ := ends.unique (.rendered parsed low)
    exact ⟨rfl, rfl⟩

end Statuses

/-- Whatever text is given, the command line ends with a status that says what became of it, and writes accordingly. In
particular the text of a program that is shown, given back, is shown again, the limit aside. -/
theorem text_is_accounted_for (limit : Nat) {surroundings : Surroundings}
    (quiet : surroundings.logLevel.any showsLog = false) (mode : Mode) (text : String) :
    (∃ arguments, GivesText arguments mode text) ∧
    (∀ arguments, GivesText arguments mode text → Accounts limit mode text (run limit surroundings arguments)) ∧
    ∀ program, Parsed.ofText limit text = ⟨.ok program, []⟩ →
      ∀ printed, printed = program.render ∨ printed = program.render ++ "\n" → ∀ depth arguments,
        GivesText arguments .ast printed → ¬Run.Exhausts depth printed .ast →
          (run depth surroundings arguments).status = .ok 0 ∧
          (run depth surroundings arguments).output = program.render ++ "\n" := by
  refine ⟨⟨_, givesText mode text⟩, ?_, ?_⟩
  · intro arguments gives
    obtain ⟨result, output, ends⟩ := Run.exists_ends limit text mode
    rw [run_of_ends quiet gives ends]
    exact accounts_of_ends ends
  · intro program parsed printed prints depth arguments gives goes
    have reads : Mode.ast ≠ .tokens := nofun
    obtain ⟨again, parsed', same⟩ := Parsed.ofText_printed (congrArg Parsed.result parsed) prints
      fun stopped => goes (.parsing reads stopped)
    have low : again.height ≤ depth := Nat.le_of_not_lt fun high => goes (.tree parsed' high)
    rw [run_of_ends quiet gives (.rendered parsed' low), same]
    exact ⟨rfl, rfl⟩

/-- No files, no input and no level of the log. -/
def bare : Surroundings := ⟨fun path => .error (.missing path), [], none, none⟩

/-- The program of `a` in that column, all that is left of `let 5; a`. -/
def mention (column : Int) : Node :=
  .program (.sequence
    [.statement (some ⟨.identifier, "a", ⟨1, column⟩⟩) (.identifier (some ⟨.identifier, "a", ⟨1, column⟩⟩) "a")])

theorem mention_accounted_for : bare.logLevel.any showsLog = false ∧
    GivesText ["-s", "--", "let 5; a"] .eval "let 5; a" ∧
    (run 9 bare ["-s", "--", "let 5; a"]).status = .ok 1 ∧
    (run 9 bare ["-s", "--", "let 5; a"]).output = "" ∧
    Parsed.ofText 9 "a" = ⟨.ok (mention 1), []⟩ ∧ GivesText ["-s", "--ast", "--", "a;\n"] .ast "a;\n" ∧
    ¬Run.Exhausts 9 "a;\n" .ast ∧ (run 9 bare ["-s", "--ast", "--", "a;\n"]).output = "a;\n" := by
  have quiet : bare.logLevel.any showsLog = false := rfl
  have gives : GivesText ["-s", "--", "let 5; a"] .eval "let 5; a" := givesText .eval _
  have gives' : GivesText ["-s", "--ast", "--", "a;\n"] .ast "a;\n" := givesText .ast _
  have parsed : Parsed.ofText 9 "let 5; a" = ⟨.ok (mention 8), [.expected .identifier ⟨.integer, "5", ⟨1, 5⟩⟩]⟩ := by cbv
  have clean : Parsed.ofText 9 "a" = ⟨.ok (mention 1), []⟩ := by cbv
  have again : Parsed.ofText 9 "a;\n" = ⟨.ok (mention 1), []⟩ := by cbv
  have flawed : (Parsed.ofText 9 "let 5; a").Flawed := by
    rw [parsed]
    exact ⟨⟨_, rfl⟩, List.cons_ne_nil _ _⟩
  have goes : ¬Run.Exhausts 9 "a;\n" .ast := by
    intro exhausts
    cases exhausts with
    | parsing _ stopped => cases stopped.symm.trans (congrArg Parsed.result again)
    | tree reads high =>
      cases reads.symm.trans again
      exact absurd high (by decide)
  have reads : Mode.eval ≠ .tokens := by decide
  have accounts := (text_is_accounted_for 9 quiet .eval "let 5; a").2.1 _ gives
  have prints : "a;\n" = (mention 1).render ++ "\n" := by decide
  have shown := (text_is_accounted_for 9 quiet .ast "a").2.2 _ clean _ (.inr prints) 9 _ gives' goes
  exact ⟨quiet, gives, accounts.one.mpr (.inl ⟨reads, flawed⟩), (accounts.flawed reads flawed).1, clean, gives', goes,
    shown.2.trans prints.symm⟩

end CommandLine

end MonkeyLang
