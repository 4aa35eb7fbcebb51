import Mathlib
import MonkeyLang.Proofs.LimitReached
import MonkeyLang.Proofs.SessionRuns

/-! What lines do to a session. A line can ask for another mode, or be a program that is run; all other lines leave the
session as it is, so that its scopes are those that the programs make, one after the other. -/

namespace MonkeyLang

namespace Mode

/-- The line is the mode command with the name of the mode behind it. -/
def Requests (line : String) (mode : Mode) : Prop :=
  ∃ rest, line.toList = command ++ rest ∧ String.ofList (Text.trim rest) = mode.name

/-- The mode that was asked for last, or the one at the start if none was. -/
def InForce (start : Mode) (lines : List String) (mode : Mode) : Prop :=
  (∃ earlier line later, lines = earlier ++ line :: later ∧ Requests line mode ∧
    ∀ other ∈ later, ∀ mode, ¬Requests other mode) ∨
  mode = start ∧ ∀ line ∈ lines, ∀ mode, ¬Requests line mode

variable {start mode : Mode} {line name : String} {lines : List String}

theorem ofName?_eq_some_iff : ofName? name = some mode ↔ name = mode.name := by
  constructor
  · intro found
    have named := List.find?_some found
    exact (of_decide_eq_true named).symm
  · rintro rfl
    exact ofName?_name mode

theorem request?_eq_none_iff : request? line = none ↔ ¬command <+: line.toList := by
  unfold request?
  split
  next begins => simpa using List.isPrefixOf_iff_prefix.mp begins
  next other => simpa using fun begins => other (List.isPrefixOf_iff_prefix.mpr begins)

theorem requests_iff : Requests line mode ↔ request? line = some (.accepted mode) := by
  unfold request? Requests
  constructor
  · rintro ⟨rest, text, named⟩
    have begins : command.isPrefixOf line.toList = true := List.isPrefixOf_iff_prefix.mpr ⟨rest, text.symm⟩
    rw [if_pos begins]
    dsimp only
    rw [text, List.drop_left, ofName?_eq_some_iff.mpr named]
  · intro requested
    split at requested
    next begins =>
      obtain ⟨rest, text⟩ := List.isPrefixOf_iff_prefix.mp begins
      refine ⟨rest, text.symm, ?_⟩
      dsimp only at requested
      rw [← text, List.drop_left] at requested
      cases found : ofName? (String.ofList (Text.trim rest)) with
      | none =>
        rw [found] at requested
        cases requested
      | some mode =>
        rw [found] at requested
        cases requested
        exact ofName?_eq_some_iff.mp found
    next => cases requested

theorem InForce.requested (requests : Requests line mode) : start.InForce (lines ++ [line]) mode :=
  .inl ⟨lines, line, [], rfl, requests, List.forall_mem_nil _⟩

theorem InForce.kept (force : start.InForce lines mode) (other : ∀ mode, ¬Requests line mode) :
    start.InForce (lines ++ [line]) mode := by
  rcases force with ⟨earlier, before, later, rfl, requests, none⟩ | ⟨same, none⟩
  · refine .inl ⟨earlier, before, later ++ [line], by simp, requests, ?_⟩
    exact List.forall_mem_append.mpr ⟨none, List.forall_mem_singleton.mpr other⟩
  · exact .inr ⟨same, List.forall_mem_append.mpr ⟨none, List.forall_mem_singleton.mpr other⟩⟩

theorem Requests.unique {other : Mode} (requests : Requests line mode) (again : Requests line other) : mode = other := by
  rw [requests_iff] at requests again
  cases requests.symm.trans again
  rfl

theorem InForce.of_append (force : start.InForce (lines ++ [line]) mode) :
    Requests line mode ∨ (∀ mode, ¬Requests line mode) ∧ start.InForce lines mode := by
  rcases force with ⟨earlier, before, later, split, requests, none⟩ | ⟨same, none⟩
  · rcases List.eq_nil_or_concat later with rfl | ⟨others, last, rfl⟩
    · obtain ⟨-, last⟩ := List.append_inj' split rfl
      cases last
      exact .inl requests
    · rw [List.concat_eq_append, ← List.cons_append, ← List.append_assoc] at split
      obtain ⟨rfl, last⟩ := List.append_inj' split rfl
      cases last
      rw [List.concat_eq_append, List.forall_mem_append, List.forall_mem_singleton] at none
      exact .inr ⟨none.2, .inl ⟨earlier, before, others, rfl, requests, none.1⟩⟩
  · rw [List.forall_mem_append, List.forall_mem_singleton] at none
    exact .inr ⟨none.2, .inr ⟨same, none.1⟩⟩

theorem InForce.unique {other : Mode} (force : start.InForce lines mode) (again : start.InForce lines other) :
    mode = other := by
  induction lines using List.reverseRecOn with
  | nil =>
    rcases force with ⟨earlier, before, later, split, -⟩ | ⟨rfl, -⟩
    · simp at split
    · rcases again with ⟨earlier, before, later, split, -⟩ | ⟨rfl, -⟩
      · simp at split
      · rfl
  | append_singleton lines line ih =>
    rcases force.of_append with requests | ⟨none, kept⟩
    · rcases again.of_append with requests' | ⟨none, -⟩
      · exact requests.unique requests'
      · exact absurd requests (none _)
    · rcases again.of_append with requests' | ⟨-, kept'⟩
      · exact absurd requests' (none _)
      · exact ih kept kept'

end Mode

namespace Session

/-- The line is a program that is run: it is read for evaluation, it is no command, and it has no syntax errors. -/
structure Runs (limit : Nat) (mode : Mode) (line : String) (program : Node) : Prop where
  evaluated : mode = .eval
  some : line ≠ ""
  noCommand : ¬Mode.command <+: line.toList
  reads : Parsed.ofText limit line = ⟨.ok program, []⟩

/-- The programs among lines, each read in the mode in force. -/
inductive Programs (limit : Nat) (start : Mode) : List String → List Node → Prop
  | nil : Programs limit start [] []
  | runs {lines programs mode line program} (earlier : Programs limit start lines programs)
      (force : start.InForce lines mode) (runs : Runs limit mode line program) :
      Programs limit start (lines ++ [line]) (programs ++ [program])
  | idle {lines programs mode line} (earlier : Programs limit start lines programs) (force : start.InForce lines mode)
      (idle : ∀ program, ¬Runs limit mode line program) : Programs limit start (lines ++ [line]) programs

/-- The scopes that programs make, evaluated in one scope one after the other. -/
def scopesAfter (limit scope : Nat) (scopes : Array Scope) (programs : List Node) : Array Scope :=
  programs.foldl (fun scopes program => (World.eval ⟨scopes, []⟩ limit program scope).2.scopes) scopes

variable {limit : Nat} {session : Session} {line : String}

theorem scopesAfter_append (scope : Nat) (scopes : Array Scope) (programs : List Node) (program : Node) :
    scopesAfter limit scope scopes (programs ++ [program]) =
      (World.eval ⟨scopesAfter limit scope scopes programs, []⟩ limit program scope).2.scopes :=
  List.foldl_append

theorem evaluate_session (log : List LogEntry) (program : Node) : (session.evaluate limit log program).session =
    { session with world := (World.eval ⟨session.world.scopes, []⟩ limit program session.scope).2 } := by
  unfold evaluate
  dsimp only
  split
  · unfold showing
    split
    all_goals rfl
  · rfl
  · rfl
  · rfl

theorem showing_session (log : List LogEntry) (text : Except Fault String) : (session.showing log text).session = session := by
  cases text with
  | ok text => rfl
  | error fault => rfl

/-- A line that is read is evaluated if it has no syntax errors and evaluation is what it is read for. -/
theorem interpret_session (read : session.mode ≠ .tokens) :
    (∃ program, session.mode = .eval ∧ Parsed.ofText limit line = ⟨.ok program, []⟩ ∧
      (session.interpret limit line).session =
        { session with world := (World.eval ⟨session.world.scopes, []⟩ limit program session.scope).2 }) ∨
    (∀ program, session.mode = .eval → Parsed.ofText limit line ≠ ⟨.ok program, []⟩) ∧
      (session.interpret limit line).session = session := by
  unfold interpret
  generalize Parsed.ofText limit line = parsed
  obtain ⟨result, errors⟩ := parsed
  cases result with
  | error failure =>
    refine .inr ⟨?_, rfl⟩
    intro program _ same
    cases same
  | ok program =>
    dsimp only
    split
    next some =>
      refine .inr ⟨?_, rfl⟩
      intro program _ same
      exact some (congrArg Parsed.errors same)
    next none =>
      split
      next ast =>
        refine .inr ⟨?_, showing_session _ _⟩
        intro program evaluated
        rw [evaluated] at ast
        cases ast
      next noAst =>
        have evaluated : session.mode = .eval := by
          cases mode : session.mode with
          | eval => rfl
          | tokens => exact absurd mode read
          | ast => exact absurd mode noAst
        exact .inl ⟨program, evaluated, by rw [not_not.mp none], evaluate_session _ program⟩

/-- What a line can do that does not close the session: ask for a mode, be a program that is run, or nothing. -/
theorem respondTo_session (stays : ¬(line = "exit" || line = "quit")) :
    (∃ mode, Mode.Requests line mode ∧ (session.respondTo limit line).session = { session with mode }) ∨
    (∃ program, Runs limit session.mode line program ∧ (session.respondTo limit line).session =
      { session with world := (World.eval ⟨session.world.scopes, []⟩ limit program session.scope).2 }) ∨
    (∀ program, ¬Runs limit session.mode line program) ∧ (∀ mode, ¬Mode.Requests line mode) ∧
      (session.respondTo limit line).session = session := by
  have noRequest (other : ∀ mode, Mode.request? line ≠ some (.accepted mode)) (mode : Mode) : ¬Mode.Requests line mode :=
    fun requests => other mode (Mode.requests_iff.mp requests)
  have noRun (command : Mode.request? line ≠ none) (program : Node) : ¬Runs limit session.mode line program :=
    fun runs => command (Mode.request?_eq_none_iff.mpr runs.noCommand)
  by_cases empty : line = ""
  · subst empty
    have reply : (session.respondTo limit "").session = session := rfl
    refine .inr (.inr ⟨fun program runs => runs.some rfl, noRequest ?_, reply⟩)
    intro mode requested
    cases requested
  · rw [respondTo, if_neg empty, if_neg stays]
    cases requested : Mode.request? line with
    | some request =>
      cases request with
      | accepted mode => exact .inl ⟨mode, Mode.requests_iff.mpr requested, rfl⟩
      | refused name =>
        refine .inr (.inr ⟨noRun ?_, noRequest ?_, rfl⟩)
        · rw [requested]
          exact Option.some_ne_none _
        · intro mode accepted
          rw [requested] at accepted
          cases accepted
    | none =>
      have none : ∀ mode, ¬Mode.Requests line mode := by
        refine noRequest ?_
        intro mode accepted
        rw [requested] at accepted
        cases accepted
      dsimp only
      by_cases tokens : session.mode = .tokens
      · rw [if_pos tokens]
        refine .inr (.inr ⟨?_, none, rfl⟩)
        intro program runs
        have evaluated := runs.evaluated
        rw [tokens] at evaluated
        cases evaluated
      · rw [if_neg tokens]
        rcases @interpret_session limit session line tokens with ⟨program, evaluated, reads, after⟩ | ⟨other, after⟩
        · exact .inr (.inl ⟨program, ⟨evaluated, empty, Mode.request?_eq_none_iff.mp requested, reads⟩, after⟩)
        · exact .inr (.inr ⟨fun program runs => other program runs.evaluated runs.reads, none, after⟩)

theorem Runs.unique {mode : Mode} {program other : Node} (runs : Runs limit mode line program)
    (again : Runs limit mode line other) : program = other := by
  cases runs.reads.symm.trans again.reads
  rfl

theorem respondTo_eq_evaluate {program : Node} (stays : ¬(line = "exit" || line = "quit"))
    (runs : Runs limit session.mode line program) :
    session.respondTo limit line = session.evaluate limit (Parsed.ofText limit line).log program := by
  rw [respondTo, if_neg runs.some, if_neg stays, Mode.request?_eq_none_iff.mpr runs.noCommand]
  simp only [runs.evaluated, reduceCtorEq, if_false, interpret, runs.reads, ne_eq, not_true_eq_false]

theorem respondTo_of_idle (stays : ¬(line = "exit" || line = "quit"))
    (idle : ∀ program, ¬Runs limit session.mode line program) :
    (session.respondTo limit line).session.world = session.world := by
  rcases @respondTo_session limit session line stays with ⟨mode, -, after⟩ | ⟨program, runs, -⟩ | ⟨-, -, after⟩
  · rw [after]
  · exact absurd runs (idle program)
  · rw [after]

theorem respondTo_of_runs {program : Node} (stays : ¬(line = "exit" || line = "quit"))
    (runs : Runs limit session.mode line program) : (session.respondTo limit line).session.world =
      (World.eval ⟨session.world.scopes, []⟩ limit program session.scope).2 := by
  rw [respondTo_eq_evaluate stays runs, evaluate_session]

theorem Programs.unique {start : Mode} {lines : List String} {programs others : List Node}
    (first : Programs limit start lines programs) (second : Programs limit start lines others) : programs = others := by
  induction first generalizing others with
  | nil =>
    generalize nothing : [] = lines at second
    cases second with
    | nil => rfl
    | runs | idle => simp at nothing
  | @runs lines programs mode line program earlier force runs ih =>
    generalize whole : lines ++ [line] = all at second
    cases second with
    | nil => simp at whole
    | runs earlier' force' runs' =>
      obtain ⟨rfl, last⟩ := List.append_inj' whole rfl
      cases last
      cases force.unique force'
      rw [ih earlier', runs.unique runs']
    | idle earlier' force' idle =>
      obtain ⟨rfl, last⟩ := List.append_inj' whole rfl
      cases last
      cases force.unique force'
      exact absurd runs (idle program)
  | @idle lines programs mode line earlier force idle ih =>
    generalize whole : lines ++ [line] = all at second
    cases second with
    | nil => simp at whole
    | runs earlier' force' runs' =>
      obtain ⟨rfl, last⟩ := List.append_inj' whole rfl
      cases last
      cases force.unique force'
      exact absurd runs' (idle _)
    | idle earlier' force' idle' =>
      obtain ⟨rfl, last⟩ := List.append_inj' whole rfl
      exact ih earlier'

/-- What the lines have made of a session. -/
structure Traces (limit : Nat) (start : Session) (lines : List String) (session : Session) : Prop where
  mode : start.mode.InForce lines session.mode
  scope : session.scope = start.scope
  scopes : ∃ programs, (∀ others, Programs limit start.mode lines others ↔ others = programs) ∧
    session.world.scopes = scopesAfter limit start.scope start.world.scopes programs

theorem Traces.of_programs {start session : Session} {lines : List String} {programs : List Node}
    (mode : start.mode.InForce lines session.mode) (scope : session.scope = start.scope)
    (read : Programs limit start.mode lines programs)
    (scopes : session.world.scopes = scopesAfter limit start.scope start.world.scopes programs) :
    Traces limit start lines session := by
  refine ⟨mode, scope, programs, ?_, scopes⟩
  intro others
  constructor
  · intro again
    exact again.unique read
  · rintro rfl
    exact read

/-- One more line. -/
theorem Traces.append {start : Session} {lines : List String} (traces : Traces limit start lines session)
    (stays : ¬(line = "exit" || line = "quit")) :
    Traces limit start (lines ++ [line]) (session.respondTo limit line).session := by
  obtain ⟨mode, scope, programs, read, scopes⟩ := traces
  have earlier := (read programs).mpr rfl
  rcases @respondTo_session limit session line stays with ⟨requested, requests, after⟩ | ⟨program, runs, after⟩ | ⟨idle, none, after⟩
  · have command (program : Node) : ¬Runs limit session.mode line program := by
      intro runs
      obtain ⟨rest, text, -⟩ := requests
      exact runs.noCommand ⟨rest, text.symm⟩
    rw [after]
    exact .of_programs (.requested requests) scope (.idle earlier mode command) scopes
  · have none (mode : Mode) : ¬Mode.Requests line mode := by
      rintro ⟨rest, text, -⟩
      exact runs.noCommand ⟨rest, text.symm⟩
    rw [after]
    refine .of_programs (mode.kept none) scope (.runs earlier mode runs) ?_
    rw [scopesAfter_append, ← scopes, ← scope]
  · rw [after]
    exact .of_programs (mode.kept none) scope (.idle earlier mode idle) scopes

theorem heard_stays {inputs : List Input} : ∀ line ∈ heard inputs, ¬(line = "exit" || line = "quit") := by
  induction inputs with
  | nil => exact List.forall_mem_nil _
  | cons input rest ih =>
    cases input with
    | interrupt => exact List.forall_mem_nil _
    | line text =>
      rw [heard]
      split
      next => exact List.forall_mem_nil _
      next stays => exact List.forall_mem_cons.mpr ⟨stays, ih⟩

theorem traces_after (lines : List String) (stay : ∀ line ∈ lines, ¬(line = "exit" || line = "quit")) :
    Traces limit session lines (session.after limit lines) := by
  induction lines using List.reverseRecOn with
  | nil => exact .of_programs (.inr ⟨rfl, List.forall_mem_nil _⟩) rfl .nil rfl
  | append_singleton lines line ih =>
    rw [List.forall_mem_append, List.forall_mem_singleton] at stay
    rw [after_append]
    exact (ih stay.1).append stay.2

/-- In a session that no fault ends, the mode is the one asked for last, and the scopes are those that the programs among
the lines make that are read for evaluation, have no syntax errors and are no commands. All other lines leave them as they
are; a program that reaches the limit leaves them as they were where it came to a node nested too deeply, or to a call of
a function whose text is too high for the levels that are left. -/
theorem programs_make_scopes (session : Session) (shown : String) (inputs : List Input)
    (survives : (session.run limit shown inputs).failure = none) :
    Traces limit session (heard inputs) (session.run limit shown inputs).session ∧
    ∀ earlier line later, heard inputs = earlier ++ line :: later → ∃ before,
      Traces limit session earlier before ∧
      Traces limit session (earlier ++ [line]) (before.respondTo limit line).session ∧
      (session.run limit shown inputs).shown[earlier.length + 1]? = some ((before.respondTo limit line).output ++ prompt) ∧
      ((∀ program, ¬Runs limit before.mode line program) → (before.respondTo limit line).session.world = before.world) ∧
      ∀ program, Runs limit before.mode line program →
        (World.eval ⟨before.world.scopes, []⟩ limit program session.scope).1 = .error .exhausted →
        ∃ place, Eval.Surfaces (fun beyond => Eval.evalOver beyond limit program session.scope)
          ⟨before.world.scopes, []⟩ place (before.respondTo limit line).session.world := by
  have whole := @run_eq limit session shown inputs (goes_of_survives survives)
  rw [whole]
  refine ⟨traces_after _ heard_stays, ?_⟩
  intro earlier line later split
  have stays := @heard_stays inputs
  rw [split, List.forall_mem_append, List.forall_mem_cons] at stays
  obtain ⟨stay, stays, -⟩ := stays
  have traces := @traces_after limit session earlier stay
  refine ⟨session.after limit earlier, traces, traces.append stays, ?_, ?_, ?_⟩
  · rw [split]
    exact transcript_shown inputs _ earlier line later
  · exact respondTo_of_idle stays
  · intro program runs exhausted
    have after := respondTo_of_runs stays runs
    have last : (World.eval ⟨(session.after limit earlier).world.scopes, []⟩ limit program session.scope) =
        (.error .exhausted, ((session.after limit earlier).respondTo limit line).session.world) := by
      rw [after, traces.scope, ← exhausted]
    exact (eval_handsOver limit program session.scope).reaches _ _ last

/-- The program `let a = 1;`. -/
def binding : Node := .program (.sequence [.letBinding (some ⟨.letWord, "let", ⟨1, 1⟩⟩)
  (.identifier (some ⟨.identifier, "a", ⟨1, 5⟩⟩) "a") (.integer (some ⟨.integer, "1", ⟨1, 9⟩⟩) 1)])

def readings : List Input := [.line "let a = 1;", .line " :mode tokens", .line "let a = 2;", .line " ", .line "quit"]

/-- Where tokens are shown, nothing is bound again. -/
theorem binding_kept_in_tokens : ((fresh .eval).run 9 "" readings).failure = none ∧
    Traces 9 (fresh .eval) ["let a = 1;", ":mode tokens", "let a = 2;", ""] ((fresh .eval).run 9 "" readings).session := by
  have runs : Runs 9 (fresh .eval).mode "let a = 1;" binding := ⟨rfl, by decide, by decide, by cbv⟩
  have bound := @respondTo_eq_evaluate 9 (fresh .eval) _ _ (by decide) runs
  have survives : ((fresh .eval).run 9 "" readings).failure = none := by
    have goes : ((fresh .eval).respondTo 9 (stripped "let a = 1;")).next = .goOn := by
      rw [show stripped "let a = 1;" = "let a = 1;" from rfl, bound]
      rfl
    rw [readings, run_goOn _ goes, show stripped "let a = 1;" = "let a = 1;" from rfl, bound]
    rfl
  have lines : heard readings = ["let a = 1;", ":mode tokens", "let a = 2;", ""] := by rfl
  have traces := (programs_make_scopes (fresh .eval) "" readings survives).1
  rw [lines] at traces
  exact ⟨survives, traces⟩

end Session

end MonkeyLang
