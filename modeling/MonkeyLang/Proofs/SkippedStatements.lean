import Mathlib.Logic.Function.Iterate
import Mathlib.Order.Bounds.Basic
import MonkeyLang.Proofs.BraceNesting
import MonkeyLang.Proofs.GrammarAcceptance

/-! What recovery skips, counted in places of the tokens. The rest of a malformed statement ends at the first place outside of
the braces opened since where a semicolon, a closing brace or the terminator stands, or else with the input. -/

namespace MonkeyLang

namespace Recovery

open Nesting

/-- The kind of the token at a place. Behind the tokens there is the end of input. -/
def kindAt (tokens : List Token) (place : Nat) : Kind := tokens[place]?.elim .endOfInput Token.kind

/-- The number of opening braces less that of closing ones. -/
def surplus (tokens : List Token) : Int := count .leftBrace tokens - count .rightBrace tokens

/-- The depth of braces at a place, counted from a place in front of it. -/
def depthAt (tokens : List Token) (start place : Nat) : Int := surplus ((tokens.take place).drop start)

/-- A token of that kind, that deep, ends a statement: the input ends with it, or it stands outside of the braces and is one
of those that a skip looks for. -/
def Finishes (terminator : Kind) (depth : Int) (kind : Kind) : Prop :=
  kind = .endOfInput ∨ depth = 0 ∧ (kind = terminator ∨ kind = .semicolon ∨ kind = .rightBrace)

/-- The place that is left as the current one where a statement ends: the terminator and the end of input are kept, a
semicolon and a closing brace are passed. -/
def landing (terminator : Kind) (tokens : List Token) (place : Nat) : Nat :=
  if kindAt tokens place = .endOfInput ∨ kindAt tokens place = terminator then place else place + 1

variable {terminator : Kind} {token : Token} {tokens : List Token} {outer : Nat}

@[simp] theorem kindAt_zero (token : Token) (tokens : List Token) : kindAt (token :: tokens) 0 = token.kind := rfl

@[simp] theorem kindAt_succ (token : Token) (tokens : List Token) (place : Nat) :
    kindAt (token :: tokens) (place + 1) = kindAt tokens place := by
  simp [kindAt]

theorem kindAt_drop (tokens : List Token) (start place : Nat) :
    kindAt (tokens.drop start) place = kindAt tokens (start + place) := by
  simp [kindAt]

@[simp] theorem surplus_nil : surplus [] = 0 := rfl

theorem surplus_cons (token : Token) (tokens : List Token) : surplus (token :: tokens) = surplus [token] + surplus tokens := by
  simp only [surplus, count_cons, count_nil]
  omega

theorem surplus_of_step {next : Nat} (stepped : step outer token = some next) : outer + surplus [token] = next := by
  have counted := (step_eq_some_iff.mp stepped).2
  simp only [surplus]
  omega

theorem landing_cons (terminator : Kind) (token : Token) (tokens : List Token) (place : Nat) :
    landing terminator (token :: tokens) (place + 1) = landing terminator tokens place + 1 := by
  unfold landing
  rw [kindAt_succ]
  split
  all_goals rfl

/-- A token that ends the statement is where the skip stops. -/
theorem skip_of_finishes (more : token.kind ≠ .endOfInput) (closes : Finishes terminator outer token.kind) :
    skip terminator outer (token :: tokens) = (token :: tokens).drop (landing terminator (token :: tokens) 0) := by
  obtain ⟨outside, kind⟩ := closes.resolve_left more
  obtain rfl := Int.natCast_eq_zero.mp outside
  by_cases kept : token.kind = terminator
  · rw [skip, if_pos kept, landing, kindAt_zero, if_pos (.inr kept), List.drop_zero]
  · rw [skip, if_neg kept, landing, kindAt_zero, if_neg (not_or.mpr ⟨more, kept⟩), List.drop_succ_cons, List.drop_zero]
    rcases kind.resolve_left kept with semicolon | closing
    · rw [if_pos semicolon]
    · simp [closing]

/-- Any other token is skipped, and the depth behind it is counted on. -/
theorem skip_of_not_finishes (goesOn : ¬Finishes terminator outer token.kind) :
    ∃ next, step outer token = some next ∧ skip terminator outer (token :: tokens) = skip terminator next tokens := by
  rw [Finishes, Int.natCast_eq_zero, not_or] at goesOn
  obtain ⟨-, others⟩ := goesOn
  by_cases opens : token.kind = .leftBrace
  · refine ⟨outer + 1, by simp [step, opens], ?_⟩
    cases outer with
    | zero => simp_all [skip]
    | succ outer => simp [skip, opens]
  · cases outer with
    | zero =>
      obtain ⟨other, semicolon, closing⟩ : token.kind ≠ terminator ∧ token.kind ≠ .semicolon ∧ token.kind ≠ .rightBrace := by
        simpa using others
      exact ⟨0, step_flat 0 opens closing, by simp [skip, other, semicolon, opens, closing]⟩
    | succ outer =>
      by_cases closing : token.kind = .rightBrace
      · exact ⟨outer, by simp [step, closing], by simp [skip, closing]⟩
      · exact ⟨outer + 1, step_flat _ opens closing, by simp [skip, opens, closing]⟩

/-- A skip goes as far as the first token that ends the statement, and no brace around it is closed on the way. -/
theorem skip_eq_drop (terminator : Kind) (outer : Nat) (more : ∀ token ∈ tokens, token.kind ≠ .endOfInput) :
    ∃ place, IsLeast {place | Finishes terminator (outer + surplus (tokens.take place)) (kindAt tokens place)} place ∧
      (∀ between, between ≤ place → 0 ≤ outer + surplus (tokens.take between)) ∧
      skip terminator outer tokens = tokens.drop (landing terminator tokens place) := by
  induction tokens generalizing outer with
  | nil =>
    refine ⟨0, ⟨.inl rfl, fun _ _ => Nat.zero_le _⟩, fun between _ => by simp, ?_⟩
    cases outer <;> simp [skip]
  | cons token tokens ih =>
    obtain ⟨here, more⟩ := List.forall_mem_cons.mp more
    have start : outer + surplus ((token :: tokens).take 0) = outer := by simp
    by_cases closes : Finishes terminator outer token.kind
    · refine ⟨0, ⟨?_, fun _ _ => Nat.zero_le _⟩, ?_, skip_of_finishes here closes⟩
      · rw [Set.mem_ofPred_eq, start]
        exact closes
      · intro between none
        rw [Nat.le_zero.mp none, start]
        exact Int.natCast_nonneg outer
    · obtain ⟨next, stepped, skipped⟩ := @skip_of_not_finishes _ _ tokens _ closes
      obtain ⟨place, ⟨ends, first⟩, level, rest⟩ := ih next more
      have counted (place : Nat) :
          outer + surplus ((token :: tokens).take (place + 1)) = next + surplus (tokens.take place) := by
        rw [List.take_succ_cons, surplus_cons, ← surplus_of_step stepped, Int.add_assoc]
      refine ⟨place + 1, ⟨?_, ?_⟩, ?_, ?_⟩
      · rw [Set.mem_ofPred_eq, counted, kindAt_succ]
        exact ends
      · intro other closed
        cases other with
        | zero =>
          rw [Set.mem_ofPred_eq, start] at closed
          exact absurd closed closes
        | succ other =>
          rw [Set.mem_ofPred_eq, counted, kindAt_succ] at closed
          exact Nat.succ_le_succ (first closed)
      · intro between inside
        cases between with
        | zero =>
          rw [start]
          exact Int.natCast_nonneg outer
        | succ between =>
          rw [counted]
          exact level between (Nat.le_of_succ_le_succ inside)
      · rw [skipped, rest, landing_cons, List.drop_succ_cons]

end Recovery

namespace Parser

theorem iterate_advance (parser : Parser) (places : Nat) :
    advance^[places] parser = ⟨parser.rest.drop places, parser.finish, parser.errors⟩ := by
  induction places generalizing parser with
  | zero => rfl
  | succ places ih =>
    rw [Function.iterate_succ_apply, ih, advance, List.drop_tail]

end Parser

namespace Parse

open Recovery

/-- From any place in the tokens recovery goes to the first place from there on where the input ends or where, outside of the
braces opened on the way, the terminator, a semicolon or a closing brace stands. The terminator and the end of input are
kept, the others passed; on the way no brace is closed that was not opened, and no error is recorded. -/
theorem synchronize_passes_rest (tokens : List Token) (errors : List SyntaxError) (terminator : Kind) (start : Nat) :
    let text := Token.upToFinish tokens
    let cursor (place : Nat) : Parser := Parser.advance^[place] ⟨text, (Parser.ofTokens tokens).finish, errors⟩
    ∃ place, IsLeast {place | start ≤ place ∧ Finishes terminator (depthAt text start place) (kindAt text place)} place ∧
      (synchronize terminator).outcome (cursor start) = (.ok (), cursor (landing terminator text place)) ∧
      (cursor (landing terminator text place)).errors = (cursor start).errors ∧
      ∀ between, start ≤ between → between ≤ place → 0 ≤ depthAt text start between := by
  intro text cursor
  have more : ∀ token ∈ text.drop start, token.kind ≠ .endOfInput := by
    intro token member
    exact (Parser.ofTokens_ready tokens).rest token (List.mem_of_mem_drop member)
  have counted (place : Nat) : surplus ((text.drop start).take place) = depthAt text start (start + place) := by
    rw [depthAt, List.drop_take, Nat.add_sub_cancel_left]
  obtain ⟨place, ⟨ends, first⟩, level, rest⟩ := skip_eq_drop terminator 0 more
  simp only [Int.natCast_zero, Int.zero_add, Set.mem_ofPred_eq, counted, kindAt_drop] at ends level
  have landed : start + landing terminator (text.drop start) place = landing terminator text (start + place) := by
    unfold landing
    rw [kindAt_drop]
    split
    all_goals rfl
  refine ⟨start + place, ⟨⟨Nat.le_add_right _ _, ends⟩, ?_⟩, ?_, ?_, ?_⟩
  · rintro other ⟨behind, closes⟩
    obtain ⟨offset, rfl⟩ := Nat.exists_eq_add_of_le behind
    refine Nat.add_le_add_left (first ?_) start
    simpa only [Int.natCast_zero, Int.zero_add, Set.mem_ofPred_eq, counted, kindAt_drop] using closes
  · have skipped : (cursor start).synchronize terminator = cursor (landing terminator text (start + place)) := by
      simp only [cursor, Parser.iterate_advance, Parser.synchronize, rest, List.drop_drop, landed]
    exact congrArg (Prod.mk (Except.ok ())) skipped
  · simp only [cursor, Parser.iterate_advance]
  · intro between behind inside
    obtain ⟨offset, rfl⟩ := Nat.exists_eq_add_of_le behind
    exact level offset (Nat.le_of_add_le_add_left inside)

end Parse

end MonkeyLang
