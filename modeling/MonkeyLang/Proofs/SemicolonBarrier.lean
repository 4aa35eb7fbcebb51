import MonkeyLang.Proofs.BraceNesting
import MonkeyLang.Proofs.GrammarAcceptance
import MonkeyLang.Proofs.ParsingAlongside

/-! A semicolon outside of braces parts a program in two. Whatever is wrong in front of it, no statement and no skip gets
past it, and what comes behind is parsed as if it stood alone. -/

namespace MonkeyLang

open Nesting

namespace Recovery

variable {terminator : Kind} {front : List Token} (list : terminator = .rightBrace ∨ terminator = .endOfInput)
include list

/-- A skip from a place that is deeper than it counts stays in front of what lies outside of all braces. Only a skip that
counts right gets there. -/
theorem skip_stays (depth excess : Nat) (ends : through (depth + excess) front = some 0)
    (more : ∀ token ∈ front, token.kind ≠ .endOfInput) :
    (∃ kept left, (∀ tail, skip terminator depth (front ++ tail) = kept ++ tail) ∧ through left kept = some 0 ∧
        (left = excess ∨ terminator = .endOfInput)) ∨
      excess = 0 ∧ ∀ tail, skip terminator depth (front ++ tail) = skip terminator 0 tail := by
  induction front generalizing depth with
  | nil =>
    obtain ⟨rfl, rfl⟩ := Nat.add_eq_zero_iff.mp (Option.some.inj ends)
    exact .inr ⟨rfl, fun _ => rfl⟩
  | cons token front ih =>
    obtain ⟨here, more⟩ := List.forall_mem_cons.mp more
    obtain ⟨next, stepped, later⟩ := Option.bind_eq_some_iff.mp (through_cons .. ▸ ends)
    by_cases ended : depth = 0 ∧ token.kind = .semicolon
    · obtain ⟨rfl, semicolon⟩ := ended
      have flat : step (0 + excess) token = some (0 + excess) := step_flat _ (by simp [semicolon]) (by simp [semicolon])
      obtain rfl := Option.some.inj (flat.symm.trans stepped)
      exact .inl ⟨front, excess, fun tail => skip_semicolon list semicolon, by simpa using later, .inl rfl⟩
    · have goesOn : depth = 0 → token.kind ≠ .semicolon := fun outside semicolon => ended ⟨outside, semicolon⟩
      cases counted : step depth token with
      | some count =>
        obtain rfl := Option.some.inj ((step_add excess counted).symm.trans stepped)
        have skipped (tail : List Token) : skip terminator depth (token :: front ++ tail) = skip terminator count (front ++ tail) :=
          skip_cons list counted goesOn here
        simp only [skipped]
        exact ih count later more
      | none =>
        obtain ⟨rfl, closing⟩ := step_eq_none_iff.mp counted
        rcases list with rfl | rfl
        · refine .inl ⟨token :: front, excess, fun tail => skip_block closing, ?_, .inl rfl⟩
          rw [through_cons, ← Nat.zero_add excess, stepped]
          exact later
        · exact .inl ⟨front, next, fun tail => skip_stray closing, later, .inr rfl⟩

end Recovery

namespace Parser

/-- The semicolon lies outside of the braces, and there are at least so many of them to be closed in front of it. -/
def Fenced (semicolon : Token) (depth : Nat) (parser : Parser) : Prop :=
  ∃ front outer, depth ≤ outer ∧ parser.rest = front ++ [semicolon] ∧ through outer front = some 0

variable {semicolon : Token} {depth : Nat} {parser : Parser}

theorem Fenced.ne_nil (fenced : parser.Fenced semicolon depth) : parser.rest ≠ [] := by
  obtain ⟨front, outer, -, rest, -⟩ := fenced
  simp [rest]

/-- The semicolon is the current token, or the braces around it are counted from the next token on. -/
theorem Fenced.step (fenced : parser.Fenced semicolon depth) :
    depth = 0 ∧ parser.current = semicolon ∧ parser.advance.rest = [] ∨
      ∃ outer next, depth ≤ outer ∧ Nesting.step outer parser.current = some next ∧ parser.advance.Fenced semicolon next := by
  obtain ⟨front, outer, deep, rest, ends⟩ := fenced
  cases front with
  | nil =>
    obtain rfl := Option.some.inj ends
    exact .inl ⟨Nat.le_zero.mp deep, by simp [current, rest], by simp [advance, rest]⟩
  | cons token front =>
    obtain ⟨next, stepped, ends⟩ := Option.bind_eq_some_iff.mp (through_cons .. ▸ ends)
    refine .inr ⟨outer, next, deep, by simpa [current, rest] using stepped, front, next, Nat.le_refl _, ?_, ends⟩
    simp [advance, rest]

theorem Fenced.mono {less : Nat} (fenced : parser.Fenced semicolon depth) (le : less ≤ depth) :
    parser.Fenced semicolon less := by
  obtain ⟨front, outer, deep, rest, ends⟩ := fenced
  exact ⟨front, outer, Nat.le_trans le deep, rest, ends⟩

theorem Fenced.inner (fenced : parser.Fenced semicolon depth) (kind : semicolon.kind = .semicolon)
    (inner : parser.current.kind.Inner) : parser.advance.Fenced semicolon depth := by
  obtain ⟨-, rfl, -⟩ | ⟨outer, next, deep, stepped, further⟩ := fenced.step
  · exact absurd kind inner.2.2.1
  · obtain rfl := Option.some.inj ((step_flat outer inner.1 inner.2.1).symm.trans stepped)
    exact further.mono deep

theorem Fenced.opens (fenced : parser.Fenced semicolon depth) (kind : semicolon.kind = .semicolon)
    (opening : parser.current.kind = .leftBrace) : parser.advance.Fenced semicolon (depth + 1) := by
  obtain ⟨-, rfl, -⟩ | ⟨outer, next, deep, stepped, further⟩ := fenced.step
  · exact nomatch kind.symm.trans opening
  · have opened : Nesting.step outer parser.current = some (outer + 1) := by simp [Nesting.step, opening]
    obtain rfl := Option.some.inj (opened.symm.trans stepped)
    exact further.mono (Nat.succ_le_succ deep)

theorem Fenced.closes (fenced : parser.Fenced semicolon (depth + 1)) (closing : parser.current.kind = .rightBrace) :
    parser.advance.Fenced semicolon depth := by
  obtain ⟨wrong, -⟩ | ⟨outer, next, deep, stepped, further⟩ := fenced.step
  · cases wrong
  · have closed : next + 1 = outer := by
      simp only [Nesting.step, closing] at stepped
      grind
    exact further.mono (by omega)

/-- Inside of braces it is another semicolon that is passed. -/
theorem Fenced.crosses (fenced : parser.Fenced semicolon (depth + 1)) (sign : parser.current.kind = .semicolon) :
    parser.advance.Fenced semicolon (depth + 1) := by
  obtain ⟨wrong, -⟩ | ⟨outer, next, deep, stepped, further⟩ := fenced.step
  · cases wrong
  · have flat : Nesting.step outer parser.current = some outer := step_flat _ (by simp [sign]) (by simp [sign])
    obtain rfl := Option.some.inj (flat.symm.trans stepped)
    exact further.mono deep

theorem Fenced.ends (fenced : parser.Fenced semicolon depth) :
    parser.advance.Fenced semicolon 0 ∨ parser.advance.rest = [] := by
  obtain ⟨-, -, nothing⟩ | ⟨outer, next, -, -, further⟩ := fenced.step
  · exact .inr nothing
  · exact .inl (further.mono (Nat.zero_le _))

theorem rest_ne_nil_of_advance (more : parser.advance.rest ≠ []) : parser.rest ≠ [] := by
  intro nothing
  exact more (by rw [advance, nothing, List.tail_nil])

end Parser

namespace Companion

section Barrier

variable (semicolon : Token) (back : List Token) (finish : Token)

/-- The run on more tokens behind the semicolon. -/
def continued (parser : Parser) : Parser := ⟨parser.rest ++ back, finish, parser.errors⟩

variable {semicolon back finish} {depth : Nat} {parser : Parser}

theorem current_continued (more : parser.rest ≠ []) : (continued back finish parser).current = parser.current := by
  obtain ⟨token, others, rest⟩ := List.exists_cons_of_ne_nil more
  simp [continued, Parser.current, rest]

theorem advance_continued (more : parser.rest ≠ []) :
    (continued back finish parser).advance = continued back finish parser.advance := by
  simp only [continued, Parser.advance, List.tail_append_of_ne_nil more]

theorem skips_continued {terminator : Kind} (list : terminator = .rightBrace ∨ terminator = .endOfInput) (ready : parser.Ready)
    (fenced : parser.Fenced semicolon depth) (kind : semicolon.kind = .semicolon) :
    (continued back finish parser).synchronize terminator = continued back finish (parser.synchronize terminator) ∧
      ((parser.synchronize terminator).Fenced semicolon depth ∨
        terminator = .endOfInput ∧ (parser.synchronize terminator).Fenced semicolon 0 ∨
        depth = 0 ∧ (parser.synchronize terminator).rest = []) := by
  obtain ⟨front, outer, deep, rest, ends⟩ := fenced
  have more : ∀ token ∈ front, token.kind ≠ .endOfInput := fun token member => ready.rest token (by simp [rest, member])
  have place (tail : List Token) : Recovery.skip terminator 0 (semicolon :: tail) = tail := Recovery.skip_semicolon list kind
  obtain ⟨kept, left, skipped, ends, same⟩ | ⟨rfl, skipped⟩ :=
    Recovery.skip_stays list 0 outer (by simpa using ends) more
  · refine ⟨?_, ?_⟩
    · simp only [continued, Parser.synchronize, rest, List.append_assoc, skipped]
    · have fenced : (parser.synchronize terminator).Fenced semicolon left :=
        ⟨kept, left, Nat.le_refl _, by simp only [Parser.synchronize, rest, skipped], ends⟩
      rcases same with rfl | outside
      · exact .inl (fenced.mono deep)
      · exact .inr (.inl ⟨outside, fenced.mono (Nat.zero_le _)⟩)
  · refine ⟨?_, .inr (.inr ⟨Nat.le_zero.mp deep, ?_⟩)⟩
    · simp only [continued, Parser.synchronize, rest, List.append_assoc, skipped, List.singleton_append, place,
        List.nil_append]
    · simp only [Parser.synchronize, rest, skipped, place]

/-- Tokens behind the semicolon are out of reach for what comes before it. -/
def barrier (kind : semicolon.kind = .semicolon) (back : List Token) (finish : Token) : Companion where
  image := continued back finish
  fenced depth parser := parser.Fenced semicolon depth
  outside parser := parser.Fenced semicolon 0 ∨ parser.rest = []
  extra := back.length
  length_image parser := List.length_append
  record_image parser error := rfl
  current_image fenced := current_continued fenced.ne_nil
  advance_image fenced := advance_continued (Parser.rest_ne_nil_of_advance fenced.ne_nil)
  fenced_record error fenced := fenced
  outward fenced := fenced.mono (Nat.le_succ _)
  passes fenced inner := fenced.inner kind inner
  opens fenced opening := fenced.opens kind opening
  closes fenced closing := fenced.closes closing
  inBlock depth :=
    { begins := fun _ fenced _ _ => fenced
      goesOn := id
      crosses := fun fenced sign => ⟨advance_continued fenced.ne_nil, fenced.crosses sign⟩
      skips := fun ready fenced => by
        obtain ⟨together, kept | ⟨wrong, -⟩ | ⟨wrong, -⟩⟩ := skips_continued (.inl rfl) ready fenced kind
        · exact ⟨together, kept⟩
        · cases wrong
        · cases wrong }
  inProgram :=
    { begins := fun {parser} ready outside _ more => by
        refine outside.resolve_right fun nothing => more ?_
        rw [Parser.current, nothing]
        exact ready.finish
      goesOn := .inl
      crosses := fun fenced _ => ⟨advance_continued fenced.ne_nil, fenced.ends⟩
      skips := fun ready fenced => by
        obtain ⟨together, kept | ⟨-, kept⟩ | ⟨-, nothing⟩⟩ := skips_continued (.inr rfl) ready fenced kind
        · exact ⟨together, .inl kept⟩
        · exact ⟨together, .inl kept⟩
        · exact ⟨together, .inr nothing⟩ }

end Barrier

/-- The same tokens behind errors recorded before: no fence is needed. -/
def afterErrors (errors : List SyntaxError) : Companion where
  image parser := { parser with errors := errors ++ parser.errors }
  fenced _ _ := True
  outside _ := True
  extra := 0
  length_image _ := rfl
  record_image parser error := by simp [Parser.record]
  current_image _ := rfl
  advance_image _ := rfl
  fenced_record _ := id
  outward := id
  passes _ _ := trivial
  opens _ _ := trivial
  closes _ _ := trivial
  inBlock _ := ⟨fun _ _ _ _ => trivial, id, fun _ _ => ⟨rfl, trivial⟩, fun _ _ => ⟨rfl, trivial⟩⟩
  inProgram := ⟨fun _ _ _ _ => trivial, id, fun _ _ => ⟨rfl, trivial⟩, fun _ _ => ⟨rfl, trivial⟩⟩

end Companion

namespace Parser

variable {tokens : List Token}

theorem ofTokens_rest (more : ∀ token ∈ tokens, token.kind ≠ .endOfInput) : (ofTokens tokens).rest = tokens :=
  List.takeWhile_eq_self_iff.mpr fun token member => by simpa using more token member

/-- The end of input that is put behind tokens is the one that is put behind the last of them. -/
theorem ofTokens_finish_append (front : List Token) (more : ∀ token ∈ front ++ tokens, token.kind ≠ .endOfInput)
    (some : tokens ≠ []) : (ofTokens (front ++ tokens)).finish = (ofTokens tokens).finish := by
  have none {list : List Token} (more : ∀ token ∈ list, token.kind ≠ .endOfInput) :
      list.find? (·.kind = .endOfInput) = Option.none :=
    List.find?_eq_none.mpr fun token member => by simpa using more token member
  have behind := none fun token member => more token (List.mem_append_right front member)
  simp only [ofTokens, none more, behind, Token.finishAfter, List.getLast?_append_of_ne_nil front some]

end Parser

namespace Parse

variable {before : Parser} {front back : List Token} {semicolon : Token}

/-- On more tokens the statements up to the semicolon are read as without them; what is behind it is read then. -/
theorem statements_before (legible : before.Legible) (rest : before.rest = front ++ [semicolon])
    (kind : semicolon.kind = .semicolon) (balanced : Balanced front) (limit : Nat) (finish : Token) {rounds : Nat}
    (enough : before.rest.length + back.length < rounds) :
    let statements := moreStatements (expression limit) .endOfInput
    Ensures (statements (before.rest.length + 1) []) before
      (fun nodes after => ∃ more, back.length < more ∧
        (statements rounds []).outcome (Companion.continued back finish before) =
          (statements more nodes.reverse).outcome ⟨back, finish, after.errors⟩)
      (fun failure after => failure = .fault .exhausted ∧
        (statements rounds []).outcome (Companion.continued back finish before) =
          (.error failure, Companion.continued back finish after)) := by
  intro statements
  have fenced : before.Fenced semicolon 0 := ⟨front, 0, Nat.le_refl 0, rest, balanced_iff.mp balanced⟩
  have beside : Ensures (statements (before.rest.length + 1) []) before _ _ :=
    Companion.moreStatements_together (moving.expression limit)
      (fun floor _ _ here => Companion.expression_follows limit floor here)
      (Companion.barrier kind back finish).inProgram [] [] legible (.inl fenced) (Nat.lt_succ_self _) enough
  refine beside.imp (fun nodes after ended => ?_) fun failure after ended => ended
  obtain ⟨legible, -, ending, more, enough, same⟩ := ended
  have nothing : after.rest = [] := legible.rest_eq_nil (ending.elim id id)
  refine ⟨more, Nat.lt_of_le_of_lt (Nat.le_add_left _ _) enough, same.trans ?_⟩
  simp only [Companion.barrier, Companion.continued, nothing, List.append_nil, List.nil_append, statements]

/-- Behind statements and errors that are there already, the statements are read as without them. -/
theorem statements_behind (legible : before.Legible) (limit : Nat) (earlier : List Node) (errors : List SyntaxError)
    {rounds : Nat} (enough : before.rest.length < rounds) :
    let statements := moreStatements (expression limit) .endOfInput
    Ensures (statements (before.rest.length + 1) []) before
      (fun nodes after => (statements rounds earlier.reverse).outcome { before with errors := errors ++ before.errors } =
        (.ok (earlier ++ nodes), { after with errors := errors ++ after.errors }))
      (fun failure after => failure = .fault .exhausted ∧
        (statements rounds earlier.reverse).outcome { before with errors := errors ++ before.errors } =
          (.error failure, { after with errors := errors ++ after.errors })) := by
  intro statements
  have beside : Ensures (statements (before.rest.length + 1) []) before _ _ :=
    Companion.moreStatements_together (moving.expression limit)
      (fun floor _ _ here => Companion.expression_follows limit floor here)
      (Companion.afterErrors errors).inProgram [] earlier.reverse legible trivial (Nat.lt_succ_self _) enough
  refine beside.imp (fun nodes after ended => ?_) fun failure after ended => ended
  obtain ⟨-, -, ending, more, enough, same⟩ := ended
  have last : ((Companion.afterErrors errors).image after).current.kind = .endOfInput := ending.elim id id
  refine same.trans ((Companion.moreStatements_end _ (Nat.zero_lt_of_lt enough) (.inr last)).trans ?_)
  simp only [List.reverse_append, List.reverse_reverse, Companion.afterErrors]

end Parse

namespace Parsed

variable {limit : Nat} {tokens : List Token}

/-- The statements of a program. -/
def reading (limit : Nat) (tokens : List Token) : Except Failure (List Node) × Parser :=
  (Parse.moreStatements (Parse.expression limit) .endOfInput ((Parser.ofTokens tokens).rest.length + 1) []).outcome
    (.ofTokens tokens)

theorem ofTokens_eq_reading (limit : Nat) (tokens : List Token) : ofTokens limit tokens =
    ⟨(reading limit tokens).1.map fun nodes => .program (.sequence nodes), (reading limit tokens).2.errors⟩ := by
  have got : Parse.outcome get (Parser.ofTokens tokens) = (.ok (Parser.ofTokens tokens), .ofTokens tokens) := rfl
  rw [ofTokens_eq, Parse.program, Parse.statements, bind_assoc, Parse.outcome_bind, got]
  dsimp only
  rw [Parse.outcome_bind, reading]
  rcases Parse.outcome _ _ with ⟨⟨⟩ | ⟨⟩, after⟩ <;> rfl

theorem ofTokens_of_reading {nodes : List Node} {after : Parser} (ends : reading limit tokens = (.ok nodes, after)) :
    ofTokens limit tokens = ⟨.ok (.program (.sequence nodes)), after.errors⟩ := by
  rw [ofTokens_eq_reading, ends]
  rfl

theorem exhausted_of_reading {after : Parser} (ends : reading limit tokens = (.error (.fault .exhausted), after)) :
    (ofTokens limit tokens).Exhausted := by
  rw [ofTokens_eq_reading, ends]
  rfl

variable {front back : List Token} {semicolon : Token}

/-- A program in parts: its statements and errors are those of the first part and those of the second one, and parsing
gives up on it where it does on one of them. -/
inductive Parted (whole first second : Parsed) : Prop
  | exhausted : whole.Exhausted → first.Exhausted ∨ second.Exhausted → Parted whole first second
  | read {statements others errors errors'} : first = ⟨.ok (.program (.sequence statements)), errors⟩ →
      second = ⟨.ok (.program (.sequence others)), errors'⟩ →
      whole = ⟨.ok (.program (.sequence (statements ++ others))), errors ++ errors'⟩ → Parted whole first second

/-- The run on all tokens starts beside the run on those of the first part. -/
theorem ofTokens_continued (more : ∀ token ∈ front ++ back, token.kind ≠ .endOfInput) : Parser.ofTokens (front ++ back) =
    Companion.continued back (Parser.ofTokens (front ++ back)).finish (Parser.ofTokens front) := by
  have rest : (Parser.ofTokens (front ++ back)).rest = (Parser.ofTokens front).rest ++ back := by
    rw [Parser.ofTokens_rest more, Parser.ofTokens_rest fun token member => more token (List.mem_append_left _ member)]
  rw [Companion.continued, ← rest]
  rfl

/-- Behind the first part the run on all tokens is where the run on those of the second one starts, but for the errors. -/
theorem ofTokens_behind (more : ∀ token ∈ front ++ back, token.kind ≠ .endOfInput) (some : back ≠ [])
    (errors : List SyntaxError) : ⟨back, (Parser.ofTokens (front ++ back)).finish, errors⟩ =
      { Parser.ofTokens back with errors := errors ++ (Parser.ofTokens back).errors } := by
  have rest := Parser.ofTokens_rest fun token member => more token (List.mem_append_right _ member)
  simp only [Parser.ofTokens_finish_append front more some, rest]
  simp only [Parser.ofTokens, List.append_nil]

theorem parted (kind : semicolon.kind = .semicolon) (balanced : Balanced front)
    (more : ∀ token ∈ (front ++ [semicolon]) ++ back, token.kind ≠ .endOfInput)
    (numerals : ∀ token ∈ (front ++ [semicolon]) ++ back, token.kind = .integer → Numeral.Plain token.literal)
    (limit : Nat) :
    Parted (ofTokens limit ((front ++ [semicolon]) ++ back)) (ofTokens limit (front ++ [semicolon])) (ofTokens limit back) := by
  have legible := ofTokens_legible fun token member => numerals token (List.mem_append_left _ member)
  have legible' := ofTokens_legible fun token member => numerals token (List.mem_append_right _ member)
  have rest := Parser.ofTokens_rest fun token member => more token (List.mem_append_left _ member)
  have rest' := Parser.ofTokens_rest fun token member => more token (List.mem_append_right _ member)
  have length : (Parser.ofTokens (front ++ [semicolon])).rest.length + back.length <
      (Parser.ofTokens ((front ++ [semicolon]) ++ back)).rest.length + 1 := by
    rw [Parser.ofTokens_rest more, rest, @List.length_append _ _ back]
    exact Nat.lt_succ_self _
  have whole : reading limit ((front ++ [semicolon]) ++ back) = _ :=
    congrArg (Parse.outcome _) (ofTokens_continued more)
  obtain ⟨nodes, middle, reads, rounds, enough, same⟩ | ⟨failure, middle, reads, rfl, same⟩ :=
    (Parse.statements_before legible rest kind balanced limit
      (Parser.ofTokens ((front ++ [semicolon]) ++ back)).finish length).ends
  · by_cases some : back = []
    · -- nothing is behind the semicolon, and the end of input is at another place than that of no tokens
      subst some
      have none : ofTokens limit [] = ⟨.ok (.program (.sequence [])), []⟩ := rfl
      exact .read (ofTokens_of_reading reads) none (by simpa only [List.append_nil] using ofTokens_of_reading reads)
    · rw [ofTokens_behind more some] at same
      obtain ⟨others, after, reads', ends⟩ | ⟨failure, after, reads', rfl, ends⟩ :=
        (Parse.statements_behind legible' limit nodes middle.errors (rest'.symm ▸ enough)).ends
      · exact .read (ofTokens_of_reading reads) (ofTokens_of_reading reads')
          (ofTokens_of_reading (whole.trans (same.trans ends)))
      · exact .exhausted (exhausted_of_reading (whole.trans (same.trans ends))) (.inr (exhausted_of_reading reads'))
  · exact .exhausted (exhausted_of_reading (whole.trans same)) (.inl (exhausted_of_reading reads))

/-- A semicolon outside of braces is a barrier. Whatever is wrong with the tokens on either side of it, the program has
the statements and the errors of the tokens up to it, and after them those of the tokens behind it, which may even close
braces that were never opened. Limits above the number of tokens are all enough, and parsing gives up on the program at
those where it gives up on one of its parts. -/
theorem semicolon_parts_program (kind : semicolon.kind = .semicolon) (balanced : Balanced front)
    (more : ∀ token ∈ front ++ back, token.kind ≠ .endOfInput)
    (numerals : ∀ token ∈ front ++ back, token.kind = .integer → Numeral.Plain token.literal) :
    (∀ limit, ¬(ofTokens limit (front ++ [semicolon] ++ back)).Exhausted → ∃ statements others errors errors',
      ofTokens limit (front ++ [semicolon]) = ⟨.ok (.program (.sequence statements)), errors⟩ ∧
      ofTokens limit back = ⟨.ok (.program (.sequence others)), errors'⟩ ∧
      ofTokens limit (front ++ [semicolon] ++ back) =
        ⟨.ok (.program (.sequence (statements ++ others))), errors ++ errors'⟩) ∧
    (∀ limit, (ofTokens limit (front ++ [semicolon] ++ back)).Exhausted ↔
      (ofTokens limit (front ++ [semicolon])).Exhausted ∨ (ofTokens limit back).Exhausted) ∧
    ∀ limit, (front ++ [semicolon] ++ back).length < limit →
      ¬(ofTokens limit (front ++ [semicolon] ++ back)).Exhausted := by
  have among : ∀ token ∈ front ++ [semicolon] ++ back, token = semicolon ∨ token ∈ front ++ back := fun token member => by
    simp only [List.mem_append, List.mem_singleton] at member ⊢
    tauto
  have parts := parted kind balanced
    (fun token member => (among token member).elim (fun same => by simp [same, kind]) (more token))
    (fun token member => (among token member).elim (fun same => by simp [same, kind]) (numerals token))
  refine ⟨fun limit completed => ?_, fun limit => ?_, fun limit room => ?_⟩
  · cases parts limit with
    | exhausted whole => exact absurd whole completed
    | read first second whole => exact ⟨_, _, _, _, first, second, whole⟩
  · cases parts limit with
    | exhausted whole part => exact iff_of_true whole part
    | read first second whole => simp only [Exhausted, first, second, whole, reduceCtorEq, or_self]
  · exact not_exhausted_of_length room

/-- The tokens of `(fn() { 1 } 2)`, on which the skip loses its way in the braces, and of `} 3; }`. -/
def halfGroup : List Token :=
  [⟨.leftParen, "(", ⟨1, 1⟩⟩, ⟨.functionWord, "fn", ⟨1, 2⟩⟩, ⟨.leftParen, "(", ⟨1, 4⟩⟩, ⟨.rightParen, ")", ⟨1, 5⟩⟩,
    ⟨.leftBrace, "\x7b", ⟨1, 7⟩⟩, ⟨.integer, "1", ⟨1, 9⟩⟩, ⟨.rightBrace, "\x7d", ⟨1, 11⟩⟩, ⟨.integer, "2", ⟨1, 13⟩⟩,
    ⟨.rightParen, ")", ⟨1, 14⟩⟩]

def strayBraces : List Token :=
  [⟨.rightBrace, "\x7d", ⟨1, 17⟩⟩, ⟨.integer, "3", ⟨1, 19⟩⟩, ⟨.semicolon, ";", ⟨1, 20⟩⟩, ⟨.rightBrace, "\x7d", ⟨1, 22⟩⟩]

theorem halfGroup_parted : Balanced halfGroup ∧
    (∀ token ∈ halfGroup ++ strayBraces, token.kind ≠ .endOfInput) ∧
    (∀ token ∈ halfGroup ++ strayBraces, token.kind = .integer → Numeral.Plain token.literal) ∧
    ∃ statements others errors errors',
      ofTokens 15 (halfGroup ++ [⟨.semicolon, ";", ⟨1, 15⟩⟩]) = ⟨.ok (.program (.sequence statements)), errors⟩ ∧
      ofTokens 15 strayBraces = ⟨.ok (.program (.sequence others)), errors'⟩ ∧
      ofTokens 15 (halfGroup ++ [⟨.semicolon, ";", ⟨1, 15⟩⟩] ++ strayBraces) =
        ⟨.ok (.program (.sequence (statements ++ others))), errors ++ errors'⟩ := by
  have balanced : Balanced halfGroup := by decide
  have more : ∀ token ∈ halfGroup ++ strayBraces, token.kind ≠ .endOfInput := by decide
  have numerals : ∀ token ∈ halfGroup ++ strayBraces, token.kind = .integer → Numeral.Plain token.literal := by
    simp only [halfGroup, strayBraces, List.cons_append, List.nil_append, List.forall_mem_cons, reduceCtorEq,
      false_implies, true_and, forall_true_left, List.not_mem_nil, implies_true, and_true]
    refine ⟨⟨by decide, ?_, by decide⟩, ⟨by decide, ?_, by decide⟩, ⟨by decide, ?_, by decide⟩⟩
    all_goals exact List.forall_mem_singleton.mpr (by decide)
  have parts := @semicolon_parts_program _ _ ⟨.semicolon, ";", ⟨1, 15⟩⟩ rfl balanced more numerals
  exact ⟨balanced, more, numerals, parts.1 15 (parts.2.2 15 (by decide))⟩

end Parsed

end MonkeyLang
