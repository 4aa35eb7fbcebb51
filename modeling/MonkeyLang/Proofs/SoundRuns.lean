import MonkeyLang.Proofs.EvaluationSafety
import MonkeyLang.Proofs.RenderingRoundTrip
import MonkeyLang.Proofs.SoundScopes

/-! Runs in sound scopes. Two evaluations are compared that differ in how the nodes one level down are evaluated, by what
is known of these: both take the same steps, through sound scopes, of which there are ever more. So a watch on the state,
kept wherever a node begins or ends, never raises an alarm. -/

namespace MonkeyLang

variable {α β : Type}

/-- From the one state both steps end in the same way, in sound scopes of which none is lost, and the result satisfies the
assertion together with the state after it. -/
structure Keeps (step' step : Eval α) (before : World) (post : α → World → Prop) : Prop where
  same : before.run step' = before.run step
  sound : SoundScopes (before.run step).2.scopes
  grows : before.scopes.size ≤ (before.run step).2.scopes.size
  result : ∀ value, (before.run step).1 = .ok value → post value (before.run step).2

/-- What a node comes to, if it comes to a value, is sound. -/
def Fits (result : Option Value) (after : World) : Prop := ∀ value, result = some value → value.Sound after.scopes.size

theorem Fits.none {after : World} : Fits none after := nofun

theorem Fits.some {value : Value} {after : World} (sound : value.Sound after.scopes.size) : Fits (some value) after :=
  fun _ same => Option.some.inj same ▸ sound

theorem Fits.plain {value : Value} {after : World} (storable : value.Storable after.scopes.size) :
    Fits (Option.some value) after :=
  .some (.plain storable)

namespace Keeps

variable {before : World} {post : α → World → Prop}

theorem pure {value : α} (sound : SoundScopes before.scopes) (holds : post value before) :
    Keeps (Pure.pure value) (Pure.pure value) before post :=
  ⟨rfl, sound, Nat.le_refl _, fun _ same => Except.ok.inj same ▸ holds⟩

theorem fault {cause : Fault} (sound : SoundScopes before.scopes) :
    Keeps (Eval.fault cause) (Eval.fault cause) before post :=
  ⟨rfl, sound, Nat.le_refl _, nofun⟩

theorem bind {step' step : Eval β} {next' next : β → Eval α} {first : β → World → Prop}
    (kept : Keeps step' step before first)
    (later : ∀ value middle, SoundScopes middle.scopes → before.scopes.size ≤ middle.scopes.size → first value middle →
      Keeps (next' value) (next value) middle post) :
    Keeps (step' >>= next') (step >>= next) before post := by
  obtain ⟨same, sound, grows, result⟩ := kept
  have run' := World.run_bind before step' next'
  have run := World.run_bind before step next
  rw [same] at run'
  generalize before.run step = ended at *
  obtain ⟨failure | value, middle⟩ := ended
  · exact ⟨run'.trans run.symm, run ▸ sound, run ▸ grows, by rw [run]; nofun⟩
  · have last := later value middle sound grows (result value rfl)
    dsimp only at run run'
    exact ⟨by rw [run', run, last.same], run ▸ last.sound, run ▸ Nat.le_trans grows last.grows, run ▸ last.result⟩

/-- It is enough to know where both steps go on after they did the same. -/
theorem of_run {step' step again' again : Eval α} {moved : World} (run' : before.run step' = moved.run again')
    (run : before.run step = moved.run again) (grows : before.scopes.size ≤ moved.scopes.size)
    (kept : Keeps again' again moved post) : Keeps step' step before post :=
  ⟨by rw [run', run, kept.same], run ▸ kept.sound, run ▸ Nat.le_trans grows kept.grows, run ▸ kept.result⟩

theorem noteCall (text : Node → Except Fault String) (parameters body : Node) (count : Nat)
    (sound : SoundScopes before.scopes) : Keeps (Eval.noteCall text parameters body count)
      (Eval.noteCall text parameters body count) before fun _ _ => True := by
  have same := run_noteCall_scopes text parameters body count before
  exact ⟨rfl, same ▸ sound, same ▸ Nat.le_refl _, fun _ _ => trivial⟩

theorem required {step' step : Eval (Option Value)} (kept : Keeps step' step before Fits) :
    Keeps (Eval.required step') (Eval.required step) before (fun value after => value.Sound after.scopes.size) := by
  refine kept.bind fun result middle sound _ fits => ?_
  cases result with
  | none => exact .fault sound
  | some value => exact .pure sound (fits value rfl)

/-- A value that is looked at before it is used can be stored. -/
theorem checked {step' step : Eval (Option Value)} {next' next : Value → Eval (Option Value)}
    (kept : Keeps step' step before Fits)
    (later : ∀ value middle, SoundScopes middle.scopes → before.scopes.size ≤ middle.scopes.size →
      value.Storable middle.scopes.size → Keeps (next' value) (next value) middle Fits) :
    Keeps (Eval.required step' >>= fun value => if value.isSignal then Pure.pure (Option.some value) else next' value)
      (Eval.required step >>= fun value => if value.isSignal then Pure.pure (Option.some value) else next value)
      before Fits := by
  refine kept.required.bind fun value middle sound grows fits => ?_
  cases signal : value.isSignal with
  | true => exact .pure sound (.some fits)
  | false => exact later value middle sound grows (fits.storable signal)

end Keeps

section Levels

variable {eval' eval : Node → Nat → Eval (Option Value)} {text : Node → Except Fault String}
  (below : ∀ {role : Role} {node : Node} {scope : Nat} {before : World}, Node.Ranged role node → role ≠ .name →
    SoundScopes before.scopes → scope < before.scopes.size → Keeps (eval' node scope) (eval node scope) before Fits)
include below

variable {scope : Nat} {before : World}

theorem blockStatements_keeps {nodes : List Node} {last : Option Value} (sound : SoundScopes before.scopes)
    (there : scope < before.scopes.size) (fits : Fits last before) (each : ∀ node ∈ nodes, Node.Ranged .statement node) :
    Keeps (Eval.blockStatements eval' scope last nodes) (Eval.blockStatements eval scope last nodes) before Fits := by
  induction nodes generalizing before last with
  | nil => exact .pure sound fits
  | cons node rest ih =>
    obtain ⟨first, others⟩ := List.forall_mem_cons.mp each
    refine (below first nofun sound there).bind fun result middle sound grows fits => ?_
    have there := Nat.lt_of_lt_of_le there grows
    cases result with
    | none => exact ih sound there .none others
    | some value =>
      cases signal : value.isSignal with
      | true => simpa only [signal, if_true] using Keeps.pure sound fits
      | false => simpa only [signal, Bool.false_eq_true, if_false] using ih sound there fits others

theorem programStatements_keeps {nodes : List Node} {last : Option Value} (sound : SoundScopes before.scopes)
    (there : scope < before.scopes.size) (fits : Fits last before) (each : ∀ node ∈ nodes, Node.Ranged .statement node) :
    Keeps (Eval.programStatements eval' scope last nodes) (Eval.programStatements eval scope last nodes) before Fits := by
  induction nodes generalizing before last with
  | nil => exact .pure sound fits
  | cons node rest ih =>
    obtain ⟨first, others⟩ := List.forall_mem_cons.mp each
    refine (below first nofun sound there).bind fun result middle sound grows fits => ?_
    have there := Nat.lt_of_lt_of_le there grows
    cases result with
    | none => exact ih sound there .none others
    | some value =>
      cases fits value rfl with
      | returned storable => exact .pure sound (.plain storable)
      | error => exact .pure sound (.some .error)
      | plain storable =>
        cases value with
        | returned | returnedNothing | error => exact storable.elim
        | null | boolean | integer | function => exact ih sound there fits others

/-- Either the first signal or values that can be stored, those from before among them. -/
theorem arguments_keeps {nodes : List Node} {values : List Value} (sound : SoundScopes before.scopes)
    (there : scope < before.scopes.size) (storable : ∀ value ∈ values, value.Storable before.scopes.size)
    (each : ∀ node ∈ nodes, Node.Ranged .expression node) :
    Keeps (Eval.arguments eval' scope values nodes) (Eval.arguments eval scope values nodes) before fun result after =>
      match result with
      | .error signal => signal.Sound after.scopes.size
      | .ok all => ∀ value ∈ all, value.Storable after.scopes.size := by
  induction nodes generalizing before values with
  | nil => exact .pure sound fun value member => storable value (List.mem_reverse.mp member)
  | cons node rest ih =>
    obtain ⟨first, others⟩ := List.forall_mem_cons.mp each
    refine (below first nofun sound there).required.bind fun value middle sound grows fits => ?_
    cases signal : value.isSignal with
    | true => simpa only [signal, if_true] using Keeps.pure sound fits
    | false =>
      have all : ∀ other ∈ value :: values, other.Storable middle.scopes.size :=
        List.forall_mem_cons.mpr ⟨fits.storable signal, fun other member => (storable other member).mono grows⟩
      simpa only [signal, Bool.false_eq_true, if_false] using ih sound (Nat.lt_of_lt_of_le there grows) all others

/-- The body runs in a scope that is made for it. -/
theorem apply_keeps {callee : Value} {values : List Value} (sound : SoundScopes before.scopes)
    (function : callee.Storable before.scopes.size) (storable : ∀ value ∈ values, value.Storable before.scopes.size) :
    Keeps (Eval.apply eval' text callee (values.map some)) (Eval.apply eval text callee (values.map some)) before
      Fits := by
  cases callee with
  | null | boolean | integer | returned | returnedNothing | error => exact .pure sound (.some .error)
  | function parameters body outer =>
    obtain ⟨there, form⟩ := function
    cases form with
    | @function _ nodes _ names block =>
      have names' node (member : node ∈ nodes) := Node.Ranged.regular (names node member)
      by_cases count : values.length = nodes.length
      · refine .of_run (run_apply count names' before) (run_apply count names' before) ?_ ?_
        · simp
        · refine (Keeps.noteCall text _ body _ (sound.call there storable)).bind fun _ noted sound grows _ => ?_
          have inside : before.scopes.size < noted.scopes.size := by simpa using grows
          refine (below block nofun sound inside).bind fun result middle sound grows fits => ?_
          cases result with
          | none => exact .pure sound (.plain trivial)
          | some value =>
            cases fits value rfl with
            | returned storable => exact .pure sound (.plain storable)
            | error => exact .pure sound (.some .error)
            | plain storable =>
              cases value with
              | returned | returnedNothing | error => exact storable.elim
              | null | boolean | integer | function => exact .pure sound fits
      · rw [apply_mismatch body outer count, apply_mismatch body outer count]
        exact .pure sound (.some .error)

theorem branch_keeps {node : Node} (sound : SoundScopes before.scopes) (there : scope < before.scopes.size)
    (block : Node.Ranged .block node) :
    Keeps (do return some ((← eval' node scope).getD .null)) (do return some ((← eval node scope).getD .null)) before
      Fits := by
  refine (below block nofun sound there).bind fun result middle sound _ fits => ?_
  cases result with
  | none => exact .pure sound (.plain trivial)
  | some value => exact .pure sound fits

/-- One level: the nodes one level down are used through what is known of them. -/
theorem level_keeps {role : Role} {node : Node} (form : Node.Ranged role node) (evaluated : role ≠ .name)
    (sound : SoundScopes before.scopes) (there : scope < before.scopes.size) :
    Keeps (Eval.level eval' text node scope) (Eval.level eval text node scope) before Fits := by
  have later {middle : World} (grows : before.scopes.size ≤ middle.scopes.size) : scope < middle.scopes.size :=
    Nat.lt_of_lt_of_le there grows
  cases form with
  | program statements => exact programStatements_keeps below sound there .none statements
  | letBinding bound expression =>
    cases bound with
    | name =>
      refine (below expression nofun sound there).checked fun value middle sound grows storable => ?_
      exact ⟨rfl, sound.set _ _ storable, (Array.size_modify ..).ge, fun _ same => Except.ok.inj same ▸ .none⟩
  | returning expression =>
    refine (below expression nofun sound there).checked fun value middle sound grows storable => ?_
    exact .pure sound (.some (.returned storable))
  | statement expression =>
    rw [Eval.level, Eval.level, ← bind_pure_comp, ← bind_pure_comp]
    exact (below expression nofun sound there).required.bind fun value middle sound grows fits => .pure sound (.some fits)
  | block statements => exact blockStatements_keeps below sound there .none statements
  | name => exact absurd rfl evaluated
  | @identifier _ text =>
    have looked : Keeps (Eval.get scope text) (Eval.get scope text) before Fits := by
      refine ⟨rfl, sound, Nat.le_refl _, ?_⟩
      rintro _ ⟨⟩ value found
      exact .plain (sound.lookup found)
    refine looked.bind fun found middle sound _ fits => ?_
    cases found with
    | none => exact .pure sound (.some .error)
    | some value => exact .pure sound fits
  | integer fit => exact .pure sound (.plain fit)
  | boolean => exact .pure sound (.plain trivial)
  | unary _ operand =>
    refine (below operand nofun sound there).checked fun right middle sound _ _ => ?_
    exact .pure sound (.some (Operator.applyUnary_sound _ right))
  | binary _ leftSide rightSide =>
    refine (below leftSide nofun sound there).checked fun left middle sound grows _ => ?_
    refine (below rightSide nofun sound (later grows)).checked fun right middle sound _ _ => ?_
    exact .pure sound (.some (Operator.applyBinary_sound _ left right))
  | conditional test yes =>
    refine (below test nofun sound there).checked fun value middle sound grows _ => ?_
    split
    · exact branch_keeps below sound (later grows) yes
    · exact .pure sound (.plain trivial)
  | alternative test yes no =>
    refine (below test nofun sound there).checked fun value middle sound grows _ => ?_
    split
    · exact branch_keeps below sound (later grows) yes
    · cases no with
      | block statements => exact branch_keeps below sound (later grows) (.block statements)
  | function parameters block => exact .pure sound (.plain ⟨there, .function parameters block⟩)
  | call function arguments =>
    refine (below function nofun sound there).checked fun callee middle sound grows storable => ?_
    have none : ∀ value ∈ ([] : List Value), value.Storable middle.scopes.size := by
      intro value member
      cases member
    refine (arguments_keeps below sound (later grows) none arguments).bind fun result last sound grows fits => ?_
    cases result with
    | error signal => exact .pure sound (.some fits)
    | ok values => exact apply_keeps below sound (storable.mono grows) fits

end Levels

namespace Eval

open Classical in
/-- Raises an alarm unless the state is as it should be. -/
noncomputable def check (alarm : Eval Unit) (holds : World → Prop) : Eval Unit := do
  if holds (← getThe World) then return () else alarm

/-- Evaluation under watch, which must find sound scopes wherever a node begins and wherever one ends, and then a sound
result too. What a call does before its body begins only adds to the scopes that are seen there. -/
noncomputable def watched (alarm : Eval Unit) : Nat → Node → Nat → Eval (Option Value)
  | 0, _, _ => fault .exhausted
  | limit + 1, node, scope => do
    check alarm fun world => SoundScopes world.scopes ∧ scope < world.scopes.size
    let result ← level (watched alarm limit) (Node.text? limit) node scope
    check alarm fun world => SoundScopes world.scopes ∧ Fits result world
    return result

end Eval

/-- No alarm is raised. -/
theorem Eval.run_check {alarm : Eval Unit} {holds : World → Prop} {world : World} (fine : holds world) :
    world.run (check alarm holds) = (.ok (), world) := by
  have got : world.run (getThe World : Eval World) = (.ok world, world) := rfl
  rw [check, World.run_bind, got]
  dsimp only
  rw [if_pos fine]
  rfl

theorem watched_keeps (alarm : Eval Unit) (limit : Nat) {role : Role} {node : Node} {scope : Nat} {before : World}
    (form : Node.Ranged role node) (evaluated : role ≠ .name) (sound : SoundScopes before.scopes)
    (there : scope < before.scopes.size) :
    Keeps (Eval.watched alarm limit node scope) (Eval.eval limit node scope) before Fits := by
  induction limit generalizing role node scope before with
  | zero => exact .fault sound
  | succ limit ih =>
    have kept : Keeps (Eval.level (Eval.watched alarm limit) (Node.text? limit) node scope)
        (Eval.level (Eval.eval limit) (Node.text? limit) node scope) before Fits :=
      level_keeps (fun form evaluated sound there => ih form evaluated sound there) form evaluated sound there
    have fine : SoundScopes before.scopes ∧ scope < before.scopes.size := ⟨sound, there⟩
    refine ⟨?_, kept.sound, kept.grows, kept.result⟩
    rw [Eval.watched, Eval.eval, World.run_bind, Eval.run_check fine]
    dsimp only
    rw [World.run_bind, kept.same]
    obtain ⟨-, sound, -, result⟩ := kept
    generalize before.run (Eval.level (Eval.eval limit) (Node.text? limit) node scope) = ended at *
    obtain ⟨cause | value, after⟩ := ended
    · rfl
    · have fine : SoundScopes after.scopes ∧ Fits value after := ⟨sound, result value rfl⟩
      dsimp only
      rw [World.run_bind, Eval.run_check fine]
      rfl

namespace Parsed

variable {limit : Nat} {text : String} {program : Node} {world : World}

theorem program_ranged (parsed : (ofText limit text).result = .ok program) : Node.Ranged .program program := by
  refine (built_of_parsed parsed).imp fun node fits => ?_
  cases node with
  | integer token value =>
    obtain ⟨given, -, spelled, kind, read, le⟩ := fits
    obtain ⟨-, rfl⟩ := spelled.numeral kind read
    exact ⟨Int.le_trans (by decide) (Int.natCast_nonneg _), le⟩
  | _ => trivial

/-- A source text. -/
def IsText (tokens : List Token) : Prop := ∃ text, tokens = Token.ofText text

theorem sound_of_reached (reached : world.Reached IsText) : SoundScopes world.scopes := by
  induction reached with
  | fresh => exact .fresh
  | @later world _ _ _ _ _ source parsed depth there ih =>
    obtain ⟨text, rfl⟩ := source
    exact (watched_keeps (pure ()) depth (program_ranged parsed) nofun ih there).sound

/-- Whatever texts were parsed and run in one world, the next one keeps its state sound from step to step. A watch on the
scopes and on what nodes come to never raises its alarm, whatever the alarm would do, so it runs as without a watch; the
scopes are sound before it and after it, also if it was given up, and none of them is lost; what it comes to is sound;
and in sound scopes every lookup ends. -/
theorem runs_stay_sound (reached : world.Reached IsText) (parsed : (ofText limit text).result = .ok program) (depth : Nat)
    {scope : Nat} (there : scope < world.scopes.size) :
    (∀ alarm, world.run (Eval.watched alarm depth program scope) = world.eval depth program scope) ∧
    (∀ value, (world.eval depth program scope).1 = .ok (some value) →
      value.Sound (world.eval depth program scope).2.scopes.size) ∧
    (SoundScopes world.scopes ∧ SoundScopes (world.eval depth program scope).2.scopes ∧
      world.scopes.size ≤ (world.eval depth program scope).2.scopes.size) ∧
    ∀ scopes, SoundScopes scopes → ∀ index < scopes.size, ∀ name,
      Finds scopes name index (World.lookup scopes index name) := by
  have sound := sound_of_reached reached
  have kept alarm := watched_keeps alarm depth (program_ranged parsed) nofun sound there
  obtain ⟨-, after, grows, result⟩ := kept (pure ())
  exact ⟨fun alarm => (kept alarm).same, fun value ends => result _ ends value rfl, ⟨sound, after, grows⟩,
    fun scopes sound index there name => sound.finds there name⟩

/-- The call of `f` makes a scope inside the one that the text before bound `f` in. -/
theorem application_stays_sound :
    (World.fresh.eval 9 definition 0).2.Reached IsText ∧ (ofText 20 "f(1)").result = .ok application ∧
    0 < (World.fresh.eval 9 definition 0).2.scopes.size ∧
    (∀ alarm, (World.fresh.eval 9 definition 0).2.run (Eval.watched alarm 9 application 0) =
      (World.fresh.eval 9 definition 0).2.eval 9 application 0) ∧
    SoundScopes ((World.fresh.eval 9 definition 0).2.eval 9 application 0).2.scopes := by
  have defined : (ofText 20 "let 5; let f = fn(x) \x7b let y = x; \x7d; g").result = .ok definition := by cbv
  have applied : (ofText 20 "f(1)").result = .ok application := by cbv
  have first : 0 < World.fresh.scopes.size := by decide
  have reached : (World.fresh.eval 9 definition 0).2.Reached IsText :=
    World.Reached.later .fresh ⟨_, rfl⟩ defined 9 first
  have there : 0 < (World.fresh.eval 9 definition 0).2.scopes.size :=
    Nat.lt_of_lt_of_le first (runs_stay_sound .fresh defined 9 first).2.2.1.2.2
  have runs := runs_stay_sound reached applied 9 there
  exact ⟨reached, applied, there, runs.1, runs.2.2.1.2.1⟩

end Parsed

end MonkeyLang
