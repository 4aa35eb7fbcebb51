import MonkeyLang.Proofs.ParsingProgress
import MonkeyLang.Proofs.ParsingSoundness

/-! Two runs of parsing side by side. The second one sees the same tokens as the first one up to a fence, and the braces
around it keep the first run in front of that fence; so both take the same steps, one state after the other. The number
of rounds that loops may run for is all that may differ. -/

namespace MonkeyLang

/-- The kinds between which an expression goes on outside of its blocks. -/
def Kind.Inner (kind : Kind) : Prop :=
  kind ≠ .leftBrace ∧ kind ≠ .rightBrace ∧ kind ≠ .semicolon ∧ kind ≠ .endOfInput

/-- What a list of statements needs for both runs to go from one statement to the next: where it may go on, they do so
together, and a statement that begins there has the fence in front of it, that many braces away. -/
structure Resuming (image : Parser → Parser) (fenced : Nat → Parser → Prop) (terminator : Kind) (depth : Nat)
    (place : Parser → Prop) : Prop where
  begins : ∀ {parser : Parser}, parser.Ready → place parser → parser.current.kind ≠ terminator →
    parser.current.kind ≠ .endOfInput → fenced depth parser
  goesOn : ∀ {parser : Parser}, fenced depth parser.advance → place parser.advance
  crosses : ∀ {parser : Parser}, fenced depth parser → parser.current.kind = .semicolon →
    (image parser).advance = image parser.advance ∧ place parser.advance
  skips : ∀ {parser : Parser}, parser.Ready → fenced depth parser →
    (image parser).synchronize terminator = image (parser.synchronize terminator) ∧ place (parser.synchronize terminator)

/-- A second run beside a first one: its state where the first one is in a given state, and a fence that lies some
braces further out, in front of which both are the same. -/
structure Companion where
  image : Parser → Parser
  fenced : Nat → Parser → Prop
  /-- Where a statement of the program may begin, in front of the fence or right behind it. -/
  outside : Parser → Prop
  extra : Nat
  length_image : ∀ parser : Parser, (image parser).rest.length = parser.rest.length + extra
  record_image : ∀ (parser : Parser) (error : SyntaxError), (image parser).record error = image (parser.record error)
  current_image : ∀ {depth : Nat} {parser : Parser}, fenced depth parser → (image parser).current = parser.current
  advance_image : ∀ {depth : Nat} {parser : Parser}, fenced depth parser.advance → (image parser).advance = image parser.advance
  fenced_record : ∀ {depth : Nat} {parser : Parser} (error : SyntaxError), fenced depth parser → fenced depth (parser.record error)
  outward : ∀ {depth : Nat} {parser : Parser}, fenced (depth + 1) parser → fenced depth parser
  passes : ∀ {depth : Nat} {parser : Parser}, fenced depth parser → parser.current.kind.Inner → fenced depth parser.advance
  opens : ∀ {depth : Nat} {parser : Parser}, fenced depth parser → parser.current.kind = .leftBrace → fenced (depth + 1) parser.advance
  closes : ∀ {depth : Nat} {parser : Parser}, fenced (depth + 1) parser → parser.current.kind = .rightBrace → fenced depth parser.advance
  inBlock : ∀ depth, Resuming image fenced .rightBrace (depth + 1) (fenced (depth + 1))
  inProgram : Resuming image fenced .endOfInput 0 outside

namespace Companion

variable (beside : Companion)

/-- In front of the fence, so many braces deep. -/
structure Here (depth : Nat) (parser : Parser) : Prop extends parser.Legible where
  fenced : beside.fenced depth parser

/-- On a token behind which the fence is still further on. -/
structure Behind (depth : Nat) (parser : Parser) : Prop extends beside.Here depth parser where
  further : beside.fenced depth parser.advance

/-- Where both runs stop in the middle of a step. Numbers can be converted, so only the nesting leads to a fault. -/
def Stops (depth : Nat) : Failure → Parser → Prop
  | .unreadable _, after => beside.Here depth after
  | .fault cause, _ => cause = .exhausted

variable {α β : Type}

/-- The second step ends as the first one does, with the same result or for the same reason, in the state beside. -/
def Follows (depth : Nat) (step step' : Parse α) (before : Parser) (post : α → Parser → Prop) : Prop :=
  Parse.Ensures step before
    (fun value after => step'.outcome (beside.image before) = (.ok value, beside.image after) ∧ post value after)
    (fun failure after =>
      step'.outcome (beside.image before) = (.error failure, beside.image after) ∧ beside.Stops depth failure after)

variable {beside} {depth : Nat} {before : Parser}

theorem Here.behind (here : beside.Here depth before) (inner : before.current.kind.Inner) : beside.Behind depth before where
  toHere := here
  further := beside.passes here.fenced inner

theorem Behind.advance (behind : beside.Behind depth before) : beside.Here depth before.advance where
  toLegible := (Parser.Moves.advance before).legible behind.toLegible
  fenced := behind.further

theorem Behind.next (behind : beside.Behind depth before) (inner : before.upcoming.kind.Inner) :
    beside.Behind depth before.advance :=
  behind.advance.behind inner

theorem Here.outward (here : beside.Here (depth + 1) before) : beside.Here depth before where
  toLegible := here.toLegible
  fenced := beside.outward here.fenced

theorem upcoming_image (behind : beside.Behind depth before) : (beside.image before).upcoming = before.upcoming := by
  have current : (beside.image before.advance).current = before.advance.current := beside.current_image behind.further
  rw [← beside.advance_image behind.further] at current
  exact current

section Rules

variable {step step' : Parse β} {next next' : β → Parse α} {post : α → Parser → Prop}

theorem Follows.imp {step step' : Parse α} {post' : α → Parser → Prop} (follows : beside.Follows depth step step' before post)
    (implies : ∀ value after, post value after → post' value after) : beside.Follows depth step step' before post' :=
  Parse.Ensures.imp follows (fun _ _ ended => ⟨ended.1, implies _ _ ended.2⟩) fun _ _ => id

theorem Follows.outward {step step' : Parse α} (follows : beside.Follows (depth + 1) step step' before post) :
    beside.Follows depth step step' before post := by
  refine Parse.Ensures.imp follows (fun _ _ => id) fun failure after stopped => ⟨stopped.1, ?_⟩
  cases failure with
  | unreadable error => exact stopped.2.outward
  | fault cause => exact stopped.2

theorem Follows.moves {step step' : Parse α} (follows : beside.Follows depth step step' before post)
    (moving : Parse.Moving step) : beside.Follows depth step step' before (fun value after =>
      before.Moves after ∧ post value after) :=
  (Parse.Ensures.and follows (moving before)).imp (fun _ _ ended => ⟨ended.1.1, ended.2, ended.1.2⟩) fun _ _ => And.left

/-- What goes on behind a step goes on behind the other one in the same way. -/
theorem Follows.bind (first : beside.Follows depth step step' before
    (fun value middle => beside.Follows depth (next value) (next' value) middle post)) :
    beside.Follows depth (step >>= next) (step' >>= next') before post := by
  refine (Parse.ensures_bind _ _).mpr (Parse.Ensures.imp first (fun value middle ended => ?_) fun failure after ended => ?_)
  · obtain ⟨ends, later⟩ := ended
    have run : (step' >>= next').outcome (beside.image before) = (next' value).outcome (beside.image middle) := by
      rw [Parse.outcome_bind, ends]
    exact Parse.Ensures.imp later (fun _ _ last => ⟨run.trans last.1, last.2⟩) fun _ _ last => ⟨run.trans last.1, last.2⟩
  · obtain ⟨ends, stops⟩ := ended
    exact ⟨by rw [Parse.outcome_bind, ends], stops⟩

theorem Follows.pure {value : α} (holds : post value before) :
    beside.Follows depth (Pure.pure value) (Pure.pure value) before post :=
  ⟨rfl, holds⟩

theorem Follows.unreadable {error : SyntaxError} (here : beside.Here depth before) :
    beside.Follows depth (Parse.unreadable error) (Parse.unreadable error) before post :=
  ⟨rfl, here⟩

theorem Follows.current {next next' : Token → Parse α} (here : beside.Here depth before)
    (later : beside.Follows depth (next before.current) (next' before.current) before post) :
    beside.Follows depth (Parse.current >>= next) (Parse.current >>= next') before post := by
  refine .bind ⟨?_, later⟩
  exact Prod.ext (congrArg Except.ok (beside.current_image here.fenced)) rfl

theorem Follows.identifier {next next' : Node → Parse α} (here : beside.Here depth before)
    (later : beside.Follows depth (next (.identifier before.current before.current.literal))
      (next' (.identifier before.current before.current.literal)) before post) :
    beside.Follows depth (Parse.identifier >>= next) (Parse.identifier >>= next') before post := by
  refine .bind (.current here ?_)
  exact ⟨rfl, later⟩

theorem Follows.upcoming {next next' : Token → Parse α} (behind : beside.Behind depth before)
    (later : beside.Follows depth (next before.upcoming) (next' before.upcoming) before post) :
    beside.Follows depth (Parse.upcoming >>= next) (Parse.upcoming >>= next') before post := by
  refine .bind ⟨?_, later⟩
  exact Prod.ext (congrArg Except.ok (upcoming_image behind)) rfl

theorem Follows.advance {next next' : Unit → Parse α} (behind : beside.Behind depth before)
    (later : beside.Follows depth (next ()) (next' ()) before.advance post) :
    beside.Follows depth (Parse.advance >>= next) (Parse.advance >>= next') before post := by
  refine .bind ⟨?_, later⟩
  exact Prod.ext rfl (beside.advance_image behind.further)

theorem Follows.ite {condition : Prop} [Decidable condition] {yes no yes' no' : Parse α}
    (first : condition → beside.Follows depth yes yes' before post)
    (second : ¬condition → beside.Follows depth no no' before post) :
    beside.Follows depth (if condition then yes else no) (if condition then yes' else no') before post := by
  by_cases holds : condition
  · rw [if_pos holds, if_pos holds]
    exact first holds
  · rw [if_neg holds, if_neg holds]
    exact second holds

theorem Follows.expect {kind : Kind} {next next' : Unit → Parse α} (behind : beside.Behind depth before)
    (later : before.upcoming.kind = kind → beside.Follows depth (next ()) (next' ()) before.advance post) :
    beside.Follows depth (Parse.expect kind >>= next) (Parse.expect kind >>= next') before post := by
  refine .bind (.upcoming behind (.ite (fun same => ?_) fun _ => .unreadable behind.toHere))
  exact ⟨Prod.ext rfl (beside.advance_image behind.further), later same⟩

end Rules

/-- At the end of a statement: in front of the fence, or on the semicolon. -/
def Ended (beside : Companion) (depth : Nat) (parser : Parser) : Prop :=
  beside.Here depth parser ∧ (beside.fenced depth parser.advance ∨ parser.current.kind = .semicolon)

theorem passSemicolon_follows (behind : beside.Behind depth before) :
    beside.Follows depth Parse.passSemicolon Parse.passSemicolon before (fun _ after => beside.Ended depth after) := by
  refine .upcoming behind (.ite (fun semicolon => ?_) fun _ => ?_)
  · exact ⟨Prod.ext rfl (beside.advance_image behind.further), behind.advance, .inr semicolon⟩
  · exact .pure ⟨behind.toHere, .inl behind.further⟩

theorem integer_follows (here : beside.Here depth before) (kind : before.current.kind = .integer) :
    beside.Follows depth Parse.integer Parse.integer before (fun _ after => beside.Behind depth after) := by
  obtain ⟨others, rest⟩ := here.rest_of_current (by simp [kind])
  have plain := here.numerals before.current (by simp [rest]) kind
  refine .current here ?_
  rw [Numeral.read_plain plain]
  exact .ite (fun _ => .unreadable here) fun _ => .pure (here.behind (by simp [Kind.Inner, kind]))

theorem moreParameters_follows {rounds rounds' : Nat} (read : List Node) (behind : beside.Behind depth before)
    (enough : before.rest.length < rounds) (enough' : before.rest.length + beside.extra < rounds') :
    beside.Follows depth (Parse.moreParameters rounds read) (Parse.moreParameters rounds' read) before
      (fun _ after => beside.Behind depth after) := by
  induction rounds generalizing rounds' read before with
  | zero => omega
  | succ rounds ih =>
    obtain ⟨rounds', rfl⟩ := Nat.exists_eq_succ_of_ne_zero (Nat.ne_of_gt (Nat.zero_lt_of_lt enough'))
    refine .upcoming behind (.ite (fun comma => ?_) fun _ => .pure behind)
    have less := behind.toReady.advance_lt_of_upcoming (by simp [comma])
    have le := (Parser.Moves.advance before.advance).length_le
    have onComma := behind.next (by simp [Kind.Inner, comma])
    refine .advance behind (.expect onComma fun name => ?_)
    have onName := onComma.next (by simp [Kind.Inner, name])
    exact .identifier onName.toHere (ih _ onName (by omega) (by omega))

theorem get_follows {α : Type} {next : Parser → Parse α} {post : α → Parser → Prop}
    (later : beside.Follows depth (next before) (next (beside.image before)) before post) :
    beside.Follows depth (get >>= next) (get >>= next) before post :=
  later

theorem parameters_follows (behind : beside.Behind depth before) :
    beside.Follows depth Parse.parameters Parse.parameters before (fun _ after => beside.Behind depth after) := by
  refine .upcoming behind (.ite (fun closing => ?_) fun _ => ?_)
  · exact .advance behind (.pure (behind.next (by simp [Kind.Inner, closing])))
  · refine .expect behind fun name => ?_
    have onName := behind.next (by simp [Kind.Inner, name])
    refine .identifier onName.toHere (get_follows (.bind ?_))
    have length := beside.length_image before.advance
    refine (moreParameters_follows _ onName (by omega) (by omega)).imp fun names after onNames => ?_
    exact .expect onNames fun closing => .pure (onNames.next (by simp [Kind.Inner, closing]))

section Levels

variable {expression : Int → Parse Node} (moving : ∀ floor, Parse.Moving (expression floor))
  (below : ∀ floor {depth : Nat} {before : Parser}, beside.Here depth before →
    beside.Follows depth (expression floor) (expression floor) before (fun _ after => beside.Behind depth after))
include moving below

omit moving in
theorem ending_follows {built : Node → Node} (here : beside.Here depth before) :
    beside.Follows depth (do let value ← expression Kind.lowest; Parse.passSemicolon; return built value)
      (do let value ← expression Kind.lowest; Parse.passSemicolon; return built value) before
      (fun _ after => beside.Ended depth after) :=
  .bind ((below _ here).imp fun _ _ behind => .bind ((passSemicolon_follows behind).imp fun _ _ ended => .pure ended))

omit moving in
theorem statement_follows (here : beside.Here depth before) :
    beside.Follows depth (Parse.statement expression) (Parse.statement expression) before
      (fun _ after => beside.Ended depth after) := by
  refine .current here ?_
  split
  next word =>
    have onWord := here.behind (by simp [Kind.Inner, word])
    refine .current here (.expect onWord fun name => ?_)
    have onName := onWord.next (by simp [Kind.Inner, name])
    refine .identifier onName.toHere (.expect onName fun assign => ?_)
    have onSign := onName.next (by simp [Kind.Inner, assign])
    exact .advance onSign (ending_follows below onSign.advance)
  next word =>
    have onWord := here.behind (by simp [Kind.Inner, word])
    exact .current here (.advance onWord (ending_follows below onWord.advance))
  next => exact .current here (ending_follows below here)

section Lists

variable {terminator : Kind} {place : Parser → Prop}
  (resuming : Resuming beside.image beside.fenced terminator depth place)
include resuming

omit moving in
/-- Both runs read a statement or skip it together. -/
theorem recovering_together (here : beside.Here depth before) :
    let step := Parse.recovering terminator (do let node ← Parse.statement expression; Parse.advance; return node)
    Parse.Ensures step before
      (fun node after => step.outcome (beside.image before) = (.ok node, beside.image after) ∧ after.Legible ∧ place after)
      (fun failure after => step.outcome (beside.image before) = (.error failure, beside.image after) ∧
        failure = .fault .exhausted) := by
  have read : beside.Follows depth (do let node ← Parse.statement expression; Parse.advance; return node)
      (do let node ← Parse.statement expression; Parse.advance; return node) before
      (fun _ after => after.Legible ∧ place after) := by
    refine .bind ((statement_follows below here).imp fun node middle ended => .bind ?_)
    obtain ⟨here, further | semicolon⟩ := ended
    · exact ⟨Prod.ext rfl (beside.advance_image further), .pure
        ⟨(Parser.Moves.advance middle).legible here.toLegible, resuming.goesOn further⟩⟩
    · obtain ⟨together, goesOn⟩ := resuming.crosses here.fenced semicolon
      exact ⟨Prod.ext rfl together, .pure ⟨(Parser.Moves.advance middle).legible here.toLegible, goesOn⟩⟩
  refine (Parse.ensures_recovering _ _).mpr (Parse.Ensures.imp read (fun node after ended => ?_) fun failure after ended => ?_)
  · exact ⟨by rw [Parse.outcome_recovering, ended.1], ended.2⟩
  · cases failure with
    | fault cause => exact ⟨by rw [Parse.outcome_recovering, ended.1], congrArg Failure.fault ended.2⟩
    | unreadable error =>
      have here : beside.Here depth after := ended.2
      have recorded := (Parser.Moves.record after error).legible here.toLegible
      obtain ⟨together, goesOn⟩ := resuming.skips recorded.toReady (beside.fenced_record error here.fenced)
      refine ⟨?_, (Parser.Moves.synchronize _ terminator).legible recorded, goesOn⟩
      rw [Parse.outcome_recovering, ended.1]
      dsimp only
      rw [beside.record_image, together]

omit moving below resuming in
theorem moreStatements_end {rounds : Nat} (read : List Node) (some : 0 < rounds)
    (ended : before.current.kind = terminator ∨ before.current.kind = .endOfInput) :
    (Parse.moreStatements expression terminator rounds read).outcome before = (.ok read.reverse, before) := by
  obtain ⟨rounds, rfl⟩ := Nat.exists_eq_succ_of_ne_zero (Nat.ne_of_gt some)
  have current : Parse.current.outcome before = (.ok before.current, before) := rfl
  rw [Parse.moreStatements, Parse.outcome_bind, current]
  simp only [Bool.or_eq_true, decide_eq_true_eq, ended, if_true]
  rfl

omit moving below resuming in
/-- Where the list does not end, a round reads one statement. -/
theorem moreStatements_round (rounds : Nat) (read : List Node) (other : before.current.kind ≠ terminator)
    (more : before.current.kind ≠ .endOfInput) :
    (Parse.moreStatements expression terminator (rounds + 1) read).outcome before =
      match (Parse.recovering terminator (do
          let node ← Parse.statement expression; Parse.advance; return node)).outcome before with
      | (.ok (some node), after) => (Parse.moreStatements expression terminator rounds (node :: read)).outcome after
      | (.ok none, after) => (Parse.moreStatements expression terminator rounds read).outcome after
      | (.error failure, after) => (.error failure, after) := by
  have current : Parse.current.outcome before = (.ok before.current, before) := rfl
  rw [Parse.moreStatements, Parse.outcome_bind, current]
  simp only [other, more, decide_false, Bool.or_self, Bool.false_eq_true, if_false]
  rw [Parse.outcome_bind]
  rcases Parse.outcome _ before with ⟨failure | node, after⟩
  · rfl
  · cases node <;> rfl

/-- Both runs read a list of statements together, up to where the first one ends; there the second one goes on with what
was read. -/
theorem moreStatements_together {rounds rounds' : Nat} (read others : List Node) (legible : before.Legible)
    (start : place before) (enough : before.rest.length < rounds) (enough' : before.rest.length + beside.extra < rounds') :
    Parse.Ensures (Parse.moreStatements expression terminator rounds read) before
      (fun nodes after => after.Legible ∧ place after ∧
        (after.current.kind = terminator ∨ after.current.kind = .endOfInput) ∧
        ∃ more, after.rest.length + beside.extra < more ∧
          (Parse.moreStatements expression terminator rounds' (read ++ others)).outcome (beside.image before) =
            (Parse.moreStatements expression terminator more (nodes.reverse ++ others)).outcome (beside.image after))
      (fun failure after => failure = .fault .exhausted ∧
        (Parse.moreStatements expression terminator rounds' (read ++ others)).outcome (beside.image before) =
          (.error failure, beside.image after)) := by
  induction rounds generalizing rounds' read before with
  | zero => omega
  | succ rounds ih =>
    rw [Parse.moreStatements]
    simp only [Parse.ensures_bind, Parse.ensures_current, Parse.ensures_ite, Parse.ensures_pure, Bool.or_eq_true,
      decide_eq_true_eq, not_or]
    refine ⟨fun ended => ⟨legible, start, ended, rounds', enough', by rw [List.reverse_reverse]⟩, fun goesOn => ?_⟩
    obtain ⟨other, more⟩ := goesOn
    obtain ⟨rounds', rfl⟩ := Nat.exists_eq_succ_of_ne_zero (Nat.ne_of_gt (Nat.zero_lt_of_lt enough'))
    have here : beside.Here depth before := ⟨legible, resuming.begins legible.toReady start other more⟩
    have other' : (beside.image before).current.kind ≠ terminator := beside.current_image here.fenced ▸ other
    have more' : (beside.image before).current.kind ≠ .endOfInput := beside.current_image here.fenced ▸ more
    refine ((recovering_together below resuming here).and
      (Parse.recovering_shortens moving legible.toReady other more)).imp (fun node middle ended => ?_)
      fun failure middle ended => ?_
    · obtain ⟨⟨ends, legible, goesOn⟩, -, less⟩ := ended
      have room : middle.rest.length + beside.extra < rounds' := by omega
      have goes (read : List Node) := ih read legible goesOn (by omega) room
      cases node with
      | none =>
        rw [moreStatements_round _ _ other' more', ends]
        exact goes read
      | some node =>
        rw [moreStatements_round _ _ other' more', ends]
        exact goes (node :: read)
    · obtain ⟨⟨ends, stops⟩, -⟩ := ended
      rw [moreStatements_round _ _ other' more', ends]
      exact ⟨stops, rfl⟩

end Lists

/-- A block keeps both runs in front of the fence: it lies further out than the brace that closes the block. -/
theorem block_follows (here : beside.Here depth before) (opening : before.current.kind = .leftBrace) :
    beside.Follows depth (Parse.block expression) (Parse.block expression) before
      (fun _ after => beside.Behind depth after) := by
  have entered : beside.fenced (depth + 1) before.advance := beside.opens here.fenced opening
  refine .current here (.bind ⟨Prod.ext rfl (beside.advance_image entered), ?_⟩)
  have legible := (Parser.Moves.advance before).legible here.toLegible
  have length := beside.length_image before.advance
  have read : beside.Follows (depth + 1) (Parse.statements expression .rightBrace)
      (Parse.statements expression .rightBrace) before.advance (fun _ after => beside.Here (depth + 1) after) := by
    have room : before.advance.rest.length + beside.extra < (beside.image before.advance).rest.length + 1 := by omega
    have together :=
      moreStatements_together moving below (beside.inBlock depth) [] [] legible entered (Nat.lt_succ_self _) room
    refine Parse.Ensures.imp together (fun nodes after ended => ?_) fun failure after ended => ?_
    · obtain ⟨legible, inside, ending, more, enough, ends⟩ := ended
      have same : (beside.image after).current = after.current := beside.current_image inside
      rw [List.append_nil, List.append_nil, moreStatements_end _ (Nat.zero_lt_of_lt enough) (same ▸ ending),
        List.reverse_reverse] at ends
      exact ⟨ends, legible, inside⟩
    · obtain ⟨rfl, ends⟩ := ended
      exact ⟨ends, rfl⟩
  refine .bind (read.outward.imp fun nodes after here => .current here.outward (.ite (fun closing => ?_) fun _ => ?_))
  · exact .pure ⟨here.outward, beside.closes here.fenced closing⟩
  · exact .unreadable here.outward

theorem expectBlock_follows {next : Node → Parse Node} {post : Node → Parser → Prop} (behind : beside.Behind depth before)
    (later : ∀ node after, beside.Behind depth after → beside.Follows depth (next node) (next node) after post) :
    beside.Follows depth (do Parse.expect .leftBrace; next (← Parse.block expression))
      (do Parse.expect .leftBrace; next (← Parse.block expression)) before post :=
  .expect behind fun opening => .bind ((block_follows moving below behind.advance opening).imp later)

theorem conditional_follows (here : beside.Here depth before) (word : before.current.kind = .ifWord) :
    beside.Follows depth (Parse.conditional expression) (Parse.conditional expression) before
      (fun _ after => beside.Behind depth after) := by
  have onWord := here.behind (by simp [Kind.Inner, word])
  refine .current here (.expect onWord fun opening => ?_)
  have onOpening := onWord.next (by simp [Kind.Inner, opening])
  refine .advance onOpening (.bind ((below _ onOpening.advance).imp fun condition tested onTest => ?_))
  refine .expect onTest fun closing => ?_
  have onClosing := onTest.next (by simp [Kind.Inner, closing])
  refine expectBlock_follows moving below onClosing fun consequence chosen onYes => ?_
  refine .upcoming onYes (.ite (fun otherwise => ?_) fun _ => .pure onYes)
  have onElse := onYes.next (by simp [Kind.Inner, otherwise])
  exact .advance onYes (expectBlock_follows moving below onElse fun alternative after onNo => .pure onNo)

theorem functionLiteral_follows (here : beside.Here depth before) (word : before.current.kind = .functionWord) :
    beside.Follows depth (Parse.functionLiteral expression) (Parse.functionLiteral expression) before
      (fun _ after => beside.Behind depth after) := by
  have onWord := here.behind (by simp [Kind.Inner, word])
  refine .current here (.expect onWord fun opening => ?_)
  have onOpening := onWord.next (by simp [Kind.Inner, opening])
  refine .bind ((parameters_follows onOpening).imp fun names named onNames => ?_)
  exact expectBlock_follows moving below onNames fun body after onBody => .pure onBody

theorem moreExpressions_follows {rounds rounds' : Nat} (read : List Node) (behind : beside.Behind depth before)
    (enough : before.rest.length < rounds) (enough' : before.rest.length + beside.extra < rounds') :
    beside.Follows depth (Parse.moreExpressions expression rounds read) (Parse.moreExpressions expression rounds' read)
      before (fun _ after => beside.Behind depth after) := by
  induction rounds generalizing rounds' read before with
  | zero => omega
  | succ rounds ih =>
    obtain ⟨rounds', rfl⟩ := Nat.exists_eq_succ_of_ne_zero (Nat.ne_of_gt (Nat.zero_lt_of_lt enough'))
    refine .upcoming behind (.ite (fun comma => ?_) fun _ => .pure behind)
    have less := behind.toReady.advance_lt_of_upcoming (by simp [comma])
    have onComma := behind.next (by simp [Kind.Inner, comma])
    refine .advance behind (.advance onComma (.bind ?_))
    refine ((below _ onComma.advance).moves (moving _)).imp fun next after ended => ?_
    have le := ((Parser.Moves.advance _).trans ended.1).length_le
    exact ih _ ended.2 (by omega) (by omega)

theorem call_follows (callee : Node) (behind : beside.Behind depth before) :
    beside.Follows depth (Parse.call expression callee) (Parse.call expression callee) before
      (fun _ after => beside.Behind depth after) := by
  refine .current behind.toHere (.bind ?_)
  have read : beside.Follows depth (Parse.expressions expression .rightParen) (Parse.expressions expression .rightParen)
      before (fun _ after => beside.Behind depth after) := by
    refine .upcoming behind (.ite (fun closing => ?_) fun _ => ?_)
    · exact .advance behind (.pure (behind.next (by simp [Kind.Inner, closing])))
    · refine .advance behind (.bind ((below _ behind.advance).imp fun first middle onFirst => get_follows (.bind ?_)))
      have length := beside.length_image middle
      refine (moreExpressions_follows moving below _ onFirst (by omega) (by omega)).imp fun all last onLast => ?_
      exact .expect onLast fun closing => .pure (onLast.next (by simp [Kind.Inner, closing]))
  exact read.imp fun _ _ onClosing => .pure onClosing

omit moving in
theorem prefixed_follows {built : Token → Node → Node} (floor : Token → Int) (behind : beside.Behind depth before) :
    beside.Follows depth
      (do let token ← Parse.current; Parse.advance; let right ← expression (floor token); return built token right)
      (do let token ← Parse.current; Parse.advance; let right ← expression (floor token); return built token right)
      before (fun _ after => beside.Behind depth after) :=
  .current behind.toHere (.advance behind (.bind ((below _ behind.advance).imp fun _ _ onRight => .pure onRight)))

theorem operand_follows (here : beside.Here depth before) :
    beside.Follows depth (Parse.operand expression) (Parse.operand expression) before
      (fun _ after => beside.Behind depth after) := by
  refine .current here ?_
  split
  next kind => exact .current here (.pure (here.behind (by simp [Kind.Inner, kind])))
  next kind => exact integer_follows here kind
  next kind => exact .current here (.pure (here.behind (by simp [Kind.Inner, kind])))
  next kind => exact .current here (.pure (here.behind (by simp [Kind.Inner, kind])))
  next kind => exact prefixed_follows below (fun _ => Kind.unary) (here.behind (by simp [Kind.Inner, kind]))
  next kind => exact prefixed_follows below (fun _ => Kind.unary) (here.behind (by simp [Kind.Inner, kind]))
  next kind =>
    have onOpening := here.behind (by simp [Kind.Inner, kind])
    refine .advance onOpening (.bind ((below _ onOpening.advance).imp fun inner after onInner => ?_))
    exact .expect onInner fun closing => .pure (onInner.next (by simp [Kind.Inner, closing]))
  next kind => exact conditional_follows moving below here kind
  next kind => exact functionLiteral_follows moving below here kind
  next => exact .unreadable here

theorem operators_follows (floor : Int) {rounds rounds' : Nat} (left : Node) (behind : beside.Behind depth before)
    (enough : before.rest.length < rounds) (enough' : before.rest.length + beside.extra < rounds') :
    beside.Follows depth (Parse.operators expression floor rounds left) (Parse.operators expression floor rounds' left)
      before (fun _ after => beside.Behind depth after) := by
  induction rounds generalizing rounds' left before with
  | zero => omega
  | succ rounds ih =>
    obtain ⟨rounds', rfl⟩ := Nat.exists_eq_succ_of_ne_zero (Nat.ne_of_gt (Nat.zero_lt_of_lt enough'))
    refine .upcoming behind (.ite (fun _ => .ite (fun opening => ?_) fun _ => .ite (fun binary => ?_) fun _ => .pure behind)
      fun _ => .pure behind)
    · have less := behind.toReady.advance_lt_of_upcoming (by simp [opening])
      have onOpening := behind.next (by simp [Kind.Inner, opening])
      refine .advance behind (.bind ?_)
      refine ((call_follows moving below left onOpening).moves (Parse.moving.call moving left)).imp fun node after ended => ?_
      have le := ended.1.length_le
      exact ih node ended.2 (by omega) (by omega)
    · have inner : before.upcoming.kind.Inner := by
        refine ⟨?_, ?_, ?_, ?_⟩ <;> exact fun same => by simp [same, Kind.isBinary] at binary
      have less := behind.toReady.advance_lt_of_upcoming inner.2.2.2
      refine .advance behind (.bind ?_)
      have reads : beside.Follows depth (Parse.binary expression left) (Parse.binary expression left) before.advance
          (fun _ after => beside.Behind depth after) :=
        prefixed_follows below (fun token => token.kind.precedence) (behind.next inner)
      refine (reads.moves (Parse.moving.binary moving left)).imp fun node after ended => ?_
      have le := ended.1.length_le
      exact ih node ended.2 (by omega) (by omega)

theorem level_follows (floor : Int) (here : beside.Here depth before) :
    beside.Follows depth (Parse.level expression floor) (Parse.level expression floor) before
      (fun _ after => beside.Behind depth after) := by
  refine .bind ((operand_follows moving below here).imp fun left middle behind => get_follows ?_)
  have length := beside.length_image middle
  exact operators_follows moving below floor left behind (by omega) (by omega)

end Levels

theorem expression_follows (limit : Nat) (floor : Int) (here : beside.Here depth before) :
    beside.Follows depth (Parse.expression limit floor) (Parse.expression limit floor) before
      (fun _ after => beside.Behind depth after) := by
  induction limit generalizing floor depth before with
  | zero => exact ⟨rfl, rfl⟩
  | succ limit ih => exact level_follows (Parse.moving.expression limit) (fun floor _ _ here => ih floor here) floor here

end Companion

end MonkeyLang
