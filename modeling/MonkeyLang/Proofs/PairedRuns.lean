import MonkeyLang.Proofs.PairedScopes

/-! Runs in worlds that correspond. A node whose names are known, evaluated in one of two corresponding scopes and in the
other, makes as many new scopes in both worlds, leaves worlds that correspond again and ends in both with corresponding
values, in both with none, or in both for the same reason. Calls of corresponding functions do so too. -/

namespace MonkeyLang

/-- Two ends with results related as given, or with related errors. -/
inductive Outcomes {ε ε' α β : Type} (errors : ε → ε' → Prop) (values : α → β → Prop) : Except ε α → Except ε' β → Prop
  | ok {value value'} (same : values value value') : Outcomes errors values (.ok value) (.ok value')
  | error {cause cause'} (same : errors cause cause') : Outcomes errors values (.error cause) (.error cause')

theorem Outcomes.imp {ε ε' α β : Type} {errors : ε → ε' → Prop} {values values' : α → β → Prop} {result : Except ε α}
    {result' : Except ε' β} (outcomes : Outcomes errors values result result')
    (implies : ∀ value value', values value value' → values' value value') : Outcomes errors values' result result' := by
  cases outcomes with
  | ok same => exact .ok (implies _ _ same)
  | error same => exact .error same

/-- From worlds that correspond the two steps lead to worlds that do so, with the same number of new scopes. -/
def Together {α β : Type} (known : String → Prop) (pairing : Pairing) (values : Pairing → α → β → Prop) (step : Eval α)
    (step' : Eval β) : Prop :=
  ∀ first second : World, pairing.Holds known first second → ∃ made : Nat,
    (pairing.grown made).Holds known (first.run step).2 (second.run step').2 ∧
    Outcomes Eq (values (pairing.grown made)) (first.run step).1 (second.run step').1

/-- What it is that steps without a result agree on. -/
abbrev Done (_ : Pairing) (_ _ : Unit) : Prop := True

namespace Together

variable {α β γ δ : Type} {known : String → Prop} {pairing : Pairing} {values : Pairing → α → β → Prop}
  {values' : Pairing → γ → δ → Prop} {index index' : Nat}

/-- A step that neither changes worlds nor depends on them. -/
theorem still {step : Eval α} {step' : Eval β} {result : Except Fault α} {result' : Except Fault β}
    (runs : ∀ world : World, world.run step = (result, world)) (runs' : ∀ world : World, world.run step' = (result', world))
    (same : Outcomes Eq (values pairing) result result') : Together known pairing values step step' := by
  intro first second holds
  rw [runs, runs']
  refine ⟨0, ?_⟩
  rw [Pairing.grown_zero]
  exact ⟨holds, same⟩

theorem pure {value : α} {value' : β} (same : values pairing value value') :
    Together known pairing values (Pure.pure value) (Pure.pure value') :=
  still (fun _ => rfl) (fun _ => rfl) (.ok same)

theorem fault (cause : Fault) : Together known pairing values (Eval.fault cause) (Eval.fault cause) :=
  still (fun _ => rfl) (fun _ => rfl) (.error rfl)

/-- The steps that follow have to do with the worlds that the first ones lead to. -/
theorem bind {step : Eval α} {step' : Eval β} {next : α → Eval γ} {next' : β → Eval δ}
    (first : Together known pairing values step step')
    (later : ∀ made value value', values (pairing.grown made) value value' →
      Together known (pairing.grown made) values' (next value) (next' value')) :
    Together known pairing values' (step >>= next) (step' >>= next') := by
  intro world world' holds
  obtain ⟨made, after, outcomes⟩ := first world world' holds
  rw [World.run_bind, World.run_bind]
  generalize world.run step = ended at *
  generalize world'.run step' = ended' at *
  obtain ⟨result, middle⟩ := ended
  obtain ⟨result', middle'⟩ := ended'
  cases outcomes with
  | error same => exact ⟨made, after, .error same⟩
  | ok same =>
    obtain ⟨more, after, outcomes⟩ := later made _ _ same middle middle' after
    rw [Pairing.grown_grown] at after outcomes
    exact ⟨made + more, after, outcomes⟩

theorem elements (node : Node) (use : ListUse) (speaks : node.Speaks known) :
    Together known pairing (fun _ nodes nodes' => nodes' = nodes ∧ ∀ node ∈ nodes, node.Speaks known)
      (liftM (node.elements use) : Eval (List Node)) (liftM (node.elements use)) := by
  cases node with
  | sequence nodes => exact pure ⟨rfl, speaks.each⟩
  | _ => exact fault _

theorem get {name : String} (matters : known name) (pair : pairing.pairs index index') :
    Together known pairing (Value.Matches? known) (Eval.get index name) (Eval.get index' name) := by
  intro first second holds
  have run (world : World) (index : Nat) :
      world.run (Eval.get index name) = (.ok (World.lookup world.scopes index name), world) := rfl
  rw [run, run]
  refine ⟨0, ?_⟩
  rw [Pairing.grown_zero]
  exact ⟨holds, .ok (holds.lookup matters pair)⟩

theorem enclose (pair : pairing.pairs index index') :
    Together known pairing (fun later made made' => later.Sole made made') (Eval.enclose index) (Eval.enclose index') := by
  intro first second holds
  refine ⟨1, holds.enclose pair, .ok ?_⟩
  rw [holds.size, holds.size']
  exact Pairing.sole_made

theorem noteCall (text : Node → Except Fault String) (parameters body : Node) (count : Nat) :
    Together known pairing Done (Eval.noteCall text parameters body count) (Eval.noteCall text parameters body count) := by
  unfold Eval.noteCall
  cases text (.function none parameters body) with
  | error cause => exact fault cause
  | ok source =>
    intro first second holds
    refine ⟨0, ?_⟩
    rw [Pairing.grown_zero]
    exact ⟨⟨holds.size, holds.size', holds.scopes⟩, .ok trivial⟩

theorem bindName (sole : pairing.Sole index index') (target : Node) {value value' : Option Value}
    (same : Value.Matches? known pairing value value') :
    Together known pairing Done (Eval.bind index target value) (Eval.bind index' target value') := by
  unfold Eval.bind
  cases Name.ofNode target with
  | error cause => exact fault cause
  | ok name =>
    intro first second holds
    refine ⟨0, ?_⟩
    rw [Pairing.grown_zero]
    exact ⟨holds.bind sole name same, .ok trivial⟩

theorem bindAll (sole : pairing.Sole index index') (targets : List Node) {all all' : List (Option Value)}
    (same : List.Forall₂ (Value.Matches? known pairing) all all') :
    Together known pairing Done (Eval.bindAll index targets all) (Eval.bindAll index' targets all') := by
  induction targets generalizing pairing all all' with
  | nil => exact pure trivial
  | cons target targets ih =>
    cases same with
    | nil => exact pure trivial
    | cons first others =>
      apply (bindName sole target first).bind
      intro made _ _ _
      apply ih sole.grown
      exact others.imp fun _ _ same => same.mono fun _ _ => .inl

theorem required {step step' : Eval (Option Value)} (first : Together known pairing (Value.Matches? known) step step') :
    Together known pairing (Value.Matches known) (Eval.required step) (Eval.required step') := by
  apply first.bind
  intro made result result' same
  cases same with
  | none => exact fault _
  | some same => exact pure same

/-- A signal in the one world is one in the other. -/
theorem checked {step step' : Eval (Option Value)} {next next' : Value → Eval (Option Value)}
    (first : Together known pairing (Value.Matches? known) step step')
    (later : ∀ made value value', Value.Matches known (pairing.grown made) value value' →
      Together known (pairing.grown made) (Value.Matches? known) (next value) (next' value')) :
    Together known pairing (Value.Matches? known)
      (Eval.required step >>= fun value => if value.isSignal then Pure.pure (some value) else next value)
      (Eval.required step' >>= fun value => if value.isSignal then Pure.pure (some value) else next' value) := by
  apply first.required.bind
  intro made value value' same
  rw [same.isSignal]
  split
  · exact pure (.some same)
  · exact later made value value' same

end Together

section Levels

variable {known : String → Prop} {eval : Node → Nat → Eval (Option Value)} {text : Node → Except Fault String}
  (below : ∀ {pairing : Pairing} {node : Node} {index index' : Nat}, node.Speaks known → pairing.Sole index index' →
    Together known pairing (Value.Matches? known) (eval node index) (eval node index'))
include below

variable {pairing : Pairing} {index index' : Nat}

theorem blockStatements_together (sole : pairing.Sole index index') {nodes : List Node} {last last' : Option Value}
    (same : Value.Matches? known pairing last last') (speak : ∀ node ∈ nodes, node.Speaks known) :
    Together known pairing (Value.Matches? known) (Eval.blockStatements eval index last nodes)
      (Eval.blockStatements eval index' last' nodes) := by
  induction nodes generalizing pairing last last' with
  | nil => exact .pure same
  | cons node rest ih =>
    obtain ⟨first, others⟩ := List.forall_mem_cons.mp speak
    apply (below first sole).bind
    intro made result result' same
    cases same with
    | none => exact ih sole.grown .none others
    | some same =>
      dsimp only
      rw [same.isSignal]
      split
      · exact .pure (.some same)
      · exact ih sole.grown (.some same) others

theorem programStatements_together (sole : pairing.Sole index index') {nodes : List Node} {last last' : Option Value}
    (same : Value.Matches? known pairing last last') (speak : ∀ node ∈ nodes, node.Speaks known) :
    Together known pairing (Value.Matches? known) (Eval.programStatements eval index last nodes)
      (Eval.programStatements eval index' last' nodes) := by
  induction nodes generalizing pairing last last' with
  | nil => exact .pure same
  | cons node rest ih =>
    obtain ⟨first, others⟩ := List.forall_mem_cons.mp speak
    apply (below first sole).bind
    intro made result result' same
    cases same with
    | none => exact ih sole.grown .none others
    | some same =>
      have kept := Option.Rel.some same
      cases same with
      | returned same => exact .pure (.some same)
      | returnedNothing => exact .pure .none
      | error => exact .pure kept
      | null | boolean | integer | function => exact ih sole.grown kept others

theorem arguments_together (sole : pairing.Sole index index') {nodes : List Node} {all all' : List Value}
    (same : List.Forall₂ (Value.Matches known pairing) all all') (speak : ∀ node ∈ nodes, node.Speaks known) :
    Together known pairing (fun later => Outcomes (Value.Matches known later) (List.Forall₂ (Value.Matches known later)))
      (Eval.arguments eval index all nodes) (Eval.arguments eval index' all' nodes) := by
  induction nodes generalizing pairing all all' with
  | nil => exact .pure (.ok (List.rel_reverse same))
  | cons node rest ih =>
    obtain ⟨first, others⟩ := List.forall_mem_cons.mp speak
    apply (below first sole).required.bind
    intro made value value' same'
    rw [same'.isSignal]
    split
    · exact .pure (.error same')
    · exact ih sole.grown (.cons same' (same.imp fun _ _ same => same.grown)) others

/-- The two calls bind corresponding arguments in the new scopes, around which corresponding ones lie. -/
theorem apply_together {callee callee' : Value} {all all' : List (Option Value)}
    (same : callee.Matches known pairing callee') (each : List.Forall₂ (Value.Matches? known pairing) all all') :
    Together known pairing (Value.Matches? known) (Eval.apply eval text callee all)
      (Eval.apply eval text callee' all') := by
  cases same with
  | null | boolean | integer | returned | returnedNothing | error => exact .pure (.some (.error _))
  | @function parameters body outer outer' speaks pair =>
    have inside : parameters.Speaks known ∧ body.Speaks known := List.forall_mem_append.mp speaks
    apply (Together.elements parameters .count inside.1).bind
    rintro made targets _ ⟨rfl, -⟩
    rw [each.length_eq]
    split
    · exact .pure (.some (.error _))
    · have around : (pairing.grown made).pairs outer outer' := .inl pair
      apply (Together.enclose around).bind
      intro more new new' sole
      have bound : List.Forall₂ (Value.Matches? known ((pairing.grown made).grown more)) all all' :=
        each.imp fun _ _ same => same.mono fun _ _ pair => .inl (.inl pair)
      apply (Together.bindAll sole _ bound).bind
      intro more _ _ _
      apply (Together.noteCall text parameters body _).bind
      intro more _ _ _
      apply (below inside.2 sole.grown.grown).bind
      intro more result result' same
      cases same with
      | none => exact .pure (.some .null)
      | some same =>
        have kept := Option.Rel.some same
        cases same with
        | returned same => exact .pure (.some same)
        | returnedNothing => exact .pure .none
        | null | boolean | integer | error | function => exact .pure kept

theorem branch_together {node : Node} (speaks : node.Speaks known) (sole : pairing.Sole index index') :
    Together known pairing (Value.Matches? known) (do return some ((← eval node index).getD .null))
      (do return some ((← eval node index').getD .null)) := by
  apply (below speaks sole).bind
  intro made result result' same
  cases same with
  | none => exact .pure (.some .null)
  | some same => exact .pure (.some same)

/-- One level: the nodes one level down are used through what is known of them. -/
theorem level_together {node : Node} (speaks : node.Speaks known) (sole : pairing.Sole index index') :
    Together known pairing (Value.Matches? known) (Eval.level eval text node index)
      (Eval.level eval text node index') := by
  cases node with
  | bare token => exact .fault _
  | program statements =>
    apply (Together.elements statements .items speaks).bind
    rintro made nodes _ ⟨rfl, speak⟩
    exact programStatements_together below sole.grown .none speak
  | block token statements =>
    apply (Together.elements statements .items speaks).bind
    rintro made nodes _ ⟨rfl, speak⟩
    exact blockStatements_together below sole.grown .none speak
  | letBinding token target value =>
    have inside : target.Speaks known ∧ value.Speaks known := List.forall_mem_append.mp speaks
    apply (below inside.2 sole).checked
    intro made value value' same
    apply (Together.bindName sole.grown target (.some same)).bind
    intro more _ _ _
    exact .pure .none
  | returning token value =>
    have inside : value.Speaks known := speaks
    apply (below inside sole).checked
    intro made value value' same
    exact .pure (.some (.returned same))
  | statement token expression =>
    rw [Eval.level, Eval.level, ← bind_pure_comp, ← bind_pure_comp]
    have inside : expression.Speaks known := speaks
    apply (below inside sole).required.bind
    intro made value value' same
    exact .pure (.some same)
  | identifier token name =>
    apply (Together.get (speaks name List.mem_cons_self) sole.pair).bind
    intro made found found' same
    cases same with
    | none => exact .pure (.some (.error _))
    | some same => exact .pure (.some same)
  | integer token value => exact .pure (.some (.integer value))
  | boolean token value => exact .pure (.some (.boolean value))
  | function token parameters body => exact .pure (.some (.function speaks sole.pair))
  | unary token operator right =>
    have inside : right.Speaks known := speaks
    apply (below inside sole).checked
    intro made value value' same
    exact .pure (.some (same.applyUnary operator))
  | binary token left operator right =>
    have inside : left.Speaks known ∧ right.Speaks known := List.forall_mem_append.mp speaks
    apply (below inside.1 sole).checked
    intro made first first' same
    apply (below inside.2 sole.grown).checked
    intro more second second' same'
    exact .pure (.some (same.grown.applyBinary operator same'))
  | conditional token condition consequence alternative =>
    obtain ⟨first, others⟩ := List.forall_mem_append.mp speaks
    have inside : consequence.Speaks known ∧ alternative.Speaks known := List.forall_mem_append.mp others
    apply (below first sole).checked
    intro made value value' same
    rw [same.isTruthy]
    split
    · exact branch_together below inside.1 sole.grown
    · cases alternative with
      | missing => exact .pure (.some .null)
      | _ => exact branch_together below inside.2 sole.grown
  | call token callee arguments =>
    have inside : callee.Speaks known ∧ arguments.Speaks known := List.forall_mem_append.mp speaks
    apply (below inside.1 sole).checked
    intro made function function' same
    apply (Together.elements arguments .items inside.2).bind
    rintro more nodes _ ⟨rfl, speak⟩
    apply (arguments_together below sole.grown.grown .nil speak).bind
    intro further result result' outcomes
    cases outcomes with
    | error same => exact .pure (.some same)
    | ok each =>
      apply apply_together below same.grown.grown
      exact List.forall₂_map_left_iff.mpr (List.forall₂_map_right_iff.mpr (each.imp fun _ _ => .some))
  | missing => exact .fault _
  | sequence nodes => exact .fault _

end Levels

theorem eval_together {known : String → Prop} (limit : Nat) {pairing : Pairing} {node : Node} {index index' : Nat}
    (speaks : node.Speaks known) (sole : pairing.Sole index index') :
    Together known pairing (Value.Matches? known) (Eval.eval limit node index) (Eval.eval limit node index') := by
  induction limit generalizing pairing node index index' with
  | zero => exact .fault _
  | succ limit ih => exact level_together ih speaks sole

theorem call_together {known : String → Prop} (limit : Nat) {pairing : Pairing} {callee callee' : Value}
    {all all' : List (Option Value)} (same : callee.Matches known pairing callee')
    (each : List.Forall₂ (Value.Matches? known pairing) all all') :
    Together known pairing (Value.Matches? known) (Eval.call limit callee all) (Eval.call limit callee' all') :=
  apply_together (eval_together limit) same each

end MonkeyLang
