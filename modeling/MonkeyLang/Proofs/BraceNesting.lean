import Mathlib.Data.List.Basic
import MonkeyLang.Parser.Recovery

/-! How deeply braces are nested behind a run of tokens, and where a malformed statement ends by that count. The skip
of recovery is right about the braces in front of it: what it finds is where the statement ends. -/

namespace MonkeyLang

namespace Nesting

/-- The depth behind a token, unless the token closes a brace that was not opened. -/
def step (depth : Nat) (token : Token) : Option Nat :=
  if token.kind = .leftBrace then some (depth + 1)
  else if token.kind = .rightBrace then if depth = 0 then none else some (depth - 1)
  else some depth

def through (depth : Nat) (tokens : List Token) : Option Nat := tokens.foldlM step depth

/-- No semicolon stands outside of the braces. -/
def Unended (depth : Nat) (tokens : List Token) : Prop :=
  ∀ front token back, tokens = front ++ token :: back → through depth front = some 0 → token.kind ≠ .semicolon

variable {terminator : Kind} {depth next : Nat} {token : Token} {tokens skipped : List Token}

@[simp] theorem through_nil (depth : Nat) : through depth [] = some depth := rfl

theorem through_cons (depth : Nat) (token : Token) (tokens : List Token) :
    through depth (token :: tokens) = (step depth token).bind (through · tokens) := rfl

theorem through_append (depth : Nat) (front back : List Token) :
    through depth (front ++ back) = (through depth front).bind (through · back) := List.foldlM_append

theorem step_flat (depth : Nat) (opens : token.kind ≠ .leftBrace) (closes : token.kind ≠ .rightBrace) :
    step depth token = some depth := by
  rw [step, if_neg opens, if_neg closes]

theorem step_eq_none_iff : step depth token = none ↔ depth = 0 ∧ token.kind = .rightBrace := by
  unfold step
  grind

theorem step_add (outer : Nat) (stepped : step depth token = some next) :
    step (depth + outer) token = some (next + outer) := by
  unfold step at *
  grind

theorem through_add (outer : Nat) (ends : through depth tokens = some next) :
    through (depth + outer) tokens = some (next + outer) := by
  induction tokens generalizing depth with
  | nil => simpa using ends
  | cons token tokens ih =>
    rw [through_cons] at ends ⊢
    obtain ⟨middle, stepped, ends⟩ := Option.bind_eq_some_iff.mp ends
    rw [step_add outer stepped]
    exact ih ends

theorem unended_cons : Unended depth (token :: tokens) ↔
    (depth = 0 → token.kind ≠ .semicolon) ∧ ∀ next, step depth token = some next → Unended next tokens := by
  constructor
  · intro unended
    constructor
    · intro outside
      exact unended [] token tokens rfl (congrArg some outside)
    · intro next stepped front later back split ends
      refine unended (token :: front) later back (by rw [split]; rfl) ?_
      rw [through_cons, stepped]
      exact ends
  · intro ⟨first, others⟩ front later back split ends
    cases front with
    | nil =>
      obtain ⟨rfl, -⟩ := List.cons.inj split
      exact first (Option.some.inj ends)
    | cons head front =>
      obtain ⟨rfl, rfl⟩ := List.cons.inj split
      rw [through_cons] at ends
      obtain ⟨next, stepped, ends⟩ := Option.bind_eq_some_iff.mp ends
      exact others next stepped front later back rfl ends

/-- The number of tokens of a kind. -/
def count (kind : Kind) (tokens : List Token) : Nat := tokens.countP (·.kind = kind)

/-- No brace is closed that was not opened before, and none is left open. -/
structure Balanced (tokens : List Token) : Prop where
  opened : ∀ front, front <+: tokens → count .rightBrace front ≤ count .leftBrace front
  closed : count .leftBrace tokens = count .rightBrace tokens

@[simp] theorem count_nil (kind : Kind) : count kind [] = 0 := rfl

theorem count_cons (kind : Kind) (token : Token) (tokens : List Token) :
    count kind (token :: tokens) = count kind tokens + if token.kind = kind then 1 else 0 := by
  simp [count, List.countP_cons]

theorem step_eq_some_iff : step depth token = some next ↔
    count .rightBrace [token] ≤ depth ∧ next + count .rightBrace [token] = depth + count .leftBrace [token] := by
  simp only [step, count_cons, count_nil]
  grind

/-- The depth behind tokens is what their braces count up to, and it never falls below zero on the way. -/
theorem through_eq_some_iff : through depth tokens = some next ↔
    (∀ front, front <+: tokens → count .rightBrace front ≤ depth + count .leftBrace front) ∧
      next + count .rightBrace tokens = depth + count .leftBrace tokens := by
  induction tokens generalizing depth with
  | nil => simp [eq_comm]
  | cons token tokens ih =>
    simp only [through_cons, Option.bind_eq_some_iff, ih, step_eq_some_iff, count_cons _ token, count_nil,
      List.prefix_cons_iff]
    constructor
    · rintro ⟨middle, ⟨enough, stepped⟩, opened, total⟩
      refine ⟨?_, by omega⟩
      rintro front (rfl | ⟨others, rfl, inside⟩)
      · simp
      · have here := opened others inside
        simp only [count_cons]
        omega
    · rintro ⟨opened, total⟩
      have first := opened [token] (.inr ⟨[], rfl, List.nil_prefix⟩)
      have apart : ¬(token.kind = .leftBrace ∧ token.kind = .rightBrace) := fun ⟨left, right⟩ => nomatch left ▸ right
      simp only [count_cons, count_nil] at first
      refine ⟨depth + count .leftBrace [token] - count .rightBrace [token], ?_, fun others inside => ?_, ?_⟩
      · simp only [count_cons, count_nil]
        grind
      · have here := opened (token :: others) (.inr ⟨others, rfl, inside⟩)
        simp only [count_cons, count_nil] at here ⊢
        omega
      · simp only [count_cons, count_nil]
        omega

/-- Tokens are balanced where their braces lead back to the depth they start from. -/
theorem balanced_iff : Balanced tokens ↔ through 0 tokens = some 0 := by
  rw [through_eq_some_iff]
  simp only [Nat.zero_add]
  exact ⟨fun balanced => ⟨balanced.opened, balanced.closed.symm⟩, fun ⟨opened, closed⟩ => ⟨opened, closed.symm⟩⟩

instance (tokens : List Token) : Decidable (Balanced tokens) := decidable_of_iff _ balanced_iff.symm

end Nesting

namespace Recovery

open Nesting

/-- Where parsing goes on, some braces deep in a malformed statement: behind the first semicolon outside of the braces;
or, if it comes first, at the brace that closes the block around the statement, behind it if there is no such block;
or at the end of input. -/
inductive Lands (terminator : Kind) (depth : Nat) (tokens : List Token) : List Token → Prop
  | semicolon {skipped : List Token} {token : Token} {others : List Token} : tokens = skipped ++ token :: others →
      through depth skipped = some 0 → Unended depth skipped → token.kind = .semicolon →
      Lands terminator depth tokens others
  | block {skipped : List Token} {token : Token} {others : List Token} : tokens = skipped ++ token :: others →
      through depth skipped = some 0 → Unended depth skipped → token.kind = .rightBrace →
      terminator = .rightBrace → Lands terminator depth tokens (token :: others)
  | stray {skipped : List Token} {token : Token} {others : List Token} : tokens = skipped ++ token :: others →
      through depth skipped = some 0 → Unended depth skipped → token.kind = .rightBrace →
      terminator = .endOfInput → Lands terminator depth tokens others
  | finish {last : Nat} : through depth tokens = some last → Unended depth tokens → Lands terminator depth tokens []

variable {terminator : Kind} {depth next : Nat} {token : Token} {tokens skipped landing : List Token}

theorem Lands.cons (stepped : step depth token = some next) (goesOn : depth = 0 → token.kind ≠ .semicolon)
    (lands : Lands terminator next tokens landing) : Lands terminator depth (token :: tokens) landing := by
  have longer : ∀ {front : List Token} {last : Nat}, through next front = some last →
      through depth (token :: front) = some last := fun ends => by
    rw [through_cons, stepped]
    exact ends
  have still : ∀ {front : List Token}, Unended next front → Unended depth (token :: front) := fun unended =>
    unended_cons.mpr ⟨goesOn, fun other same => Option.some.inj (stepped.symm.trans same) ▸ unended⟩
  cases lands with
  | semicolon split ends unended kind => exact .semicolon (by rw [split]; rfl) (longer ends) (still unended) kind
  | block split ends unended kind inside =>
    exact .block (by rw [split]; rfl) (longer ends) (still unended) kind inside
  | stray split ends unended kind outside =>
    exact .stray (by rw [split]; rfl) (longer ends) (still unended) kind outside
  | finish ends unended => exact .finish (longer ends) (still unended)

theorem skip_block (closing : token.kind = .rightBrace) : skip .rightBrace 0 (token :: tokens) = token :: tokens := by
  rw [skip, if_pos closing]

theorem skip_stray (closing : token.kind = .rightBrace) : skip .endOfInput 0 (token :: tokens) = tokens := by
  simp [skip, closing]

section Lists

variable (list : terminator = .rightBrace ∨ terminator = .endOfInput)
include list

theorem skip_semicolon (semicolon : token.kind = .semicolon) : skip terminator 0 (token :: tokens) = tokens := by
  rcases list with rfl | rfl <;> simp [skip, semicolon]

theorem skip_cons (stepped : step depth token = some next) (goesOn : depth = 0 → token.kind ≠ .semicolon)
    (more : token.kind ≠ .endOfInput) : skip terminator depth (token :: tokens) = skip terminator next tokens := by
  unfold step at stepped
  cases depth with
  | zero =>
    rw [skip]
    rcases list with rfl | rfl <;> grind
  | succ depth =>
    rw [skip]
    grind

/-- Tokens that are neither the end of the statement nor that of its block are skipped. -/
theorem skip_append (ends : through depth skipped = some next) (unended : Unended depth skipped)
    (more : ∀ token ∈ skipped, token.kind ≠ .endOfInput) :
    skip terminator depth (skipped ++ tokens) = skip terminator next tokens := by
  induction skipped generalizing depth with
  | nil =>
    cases ends
    rfl
  | cons token skipped ih =>
    obtain ⟨middle, stepped, ends⟩ := Option.bind_eq_some_iff.mp (through_cons .. ▸ ends)
    obtain ⟨goesOn, unended⟩ := unended_cons.mp unended
    obtain ⟨here, more⟩ := List.forall_mem_cons.mp more
    rw [List.cons_append, skip_cons list stepped goesOn here]
    exact ih ends (unended middle stepped) more

theorem skip_lands (more : ∀ token ∈ tokens, token.kind ≠ .endOfInput) :
    Lands terminator depth tokens (skip terminator depth tokens) := by
  have nothing (depth : Nat) : Unended depth [] := fun front token back split => by simp at split
  induction tokens generalizing depth with
  | nil => cases depth <;> exact .finish rfl (nothing _)
  | cons token tokens ih =>
    obtain ⟨here, more⟩ := List.forall_mem_cons.mp more
    have start : token :: tokens = [] ++ token :: tokens := rfl
    by_cases ended : depth = 0 ∧ token.kind = .semicolon
    · obtain ⟨rfl, semicolon⟩ := ended
      rw [skip_semicolon list semicolon]
      exact .semicolon start rfl (nothing 0) semicolon
    · cases stepped : step depth token with
      | none =>
        obtain ⟨rfl, closing⟩ := step_eq_none_iff.mp stepped
        rcases list with rfl | rfl
        · rw [skip_block closing]
          exact .block start rfl (nothing 0) closing rfl
        · rw [skip_stray closing]
          exact .stray start rfl (nothing 0) closing rfl
      | some next =>
        have goesOn : depth = 0 → token.kind ≠ .semicolon := fun outside semicolon => ended ⟨outside, semicolon⟩
        rw [skip_cons list stepped goesOn here]
        exact (ih more).cons stepped goesOn

/-- The skip finds the one place where parsing goes on. -/
theorem lands_iff (more : ∀ token ∈ tokens, token.kind ≠ .endOfInput) :
    Lands terminator depth tokens landing ↔ landing = skip terminator depth tokens := by
  constructor
  · intro lands
    have passes {skipped : List Token} {token : Token} {others : List Token} (split : tokens = skipped ++ token :: others)
        (ends : through depth skipped = some 0) (unended : Unended depth skipped) :
        skip terminator depth tokens = skip terminator 0 (token :: others) := by
      subst split
      exact skip_append list ends unended fun _ member => more _ (List.mem_append_left _ member)
    cases lands with
    | semicolon split ends unended kind => rw [passes split ends unended, skip_semicolon list kind]
    | block split ends unended kind inside =>
      subst inside
      rw [passes split ends unended, skip_block kind]
    | stray split ends unended kind outside =>
      subst outside
      rw [passes split ends unended, skip_stray kind]
    | @finish last ends unended =>
      have skipped : skip terminator depth (tokens ++ []) = skip terminator last [] := skip_append list ends unended more
      rw [List.append_nil] at skipped
      rw [skipped]
      simp [skip]
  · intro same
    rw [same]
    exact skip_lands list more

/-- Inside of more braces the skip goes further, if there is any further to go. -/
theorem skip_deeper (outer : Nat) (more : ∀ token ∈ tokens, token.kind ≠ .endOfInput) :
    skip terminator depth tokens = [] ∧ skip terminator (depth + (outer + 1)) tokens = [] ∨
      (skip terminator (depth + (outer + 1)) tokens).length < (skip terminator depth tokens).length := by
  -- behind a token that ends the statement outside, at least one more is skipped inside
  have further {depth : Nat} {tokens : List Token} (more : ∀ token ∈ tokens, token.kind ≠ .endOfInput)
      (goesOn : depth = 0 → terminator = .endOfInput) :
      tokens = [] ∧ skip terminator depth tokens = [] ∨ (skip terminator depth tokens).length < tokens.length := by
    cases tokens with
    | nil => exact .inl ⟨rfl, by cases depth <;> simp [skip]⟩
    | cons token tokens =>
      refine .inr (Nat.lt_succ_of_le (skip_lt depth tokens fun outside => ?_))
      rw [goesOn outside]
      exact more token List.mem_cons_self
  induction tokens generalizing depth with
  | nil => exact .inl ⟨by cases depth <;> simp [skip], by simp [skip]⟩
  | cons token tokens ih =>
    obtain ⟨here, more⟩ := List.forall_mem_cons.mp more
    have deep : depth + (outer + 1) = 0 → token.kind ≠ .semicolon := fun wrong => absurd wrong (Nat.succ_ne_zero _)
    by_cases ended : depth = 0 ∧ token.kind = .semicolon
    · obtain ⟨rfl, semicolon⟩ := ended
      have flat : step (0 + (outer + 1)) token = some (0 + (outer + 1)) := step_flat _ (by simp [semicolon]) (by simp [semicolon])
      rw [skip_semicolon list semicolon, skip_cons list flat deep here]
      exact further more fun wrong => absurd wrong (Nat.succ_ne_zero _)
    · cases stepped : step depth token with
      | none =>
        obtain ⟨rfl, closing⟩ := step_eq_none_iff.mp stepped
        have closes : step (0 + (outer + 1)) token = some outer := by simp [step, closing]
        rw [skip_cons list closes deep here]
        rcases list with rfl | rfl
        · rw [skip_block closing]
          exact .inr (Nat.lt_succ_of_le (skip_suffix _ _ _).length_le)
        · rw [skip_stray closing]
          exact further more fun _ => rfl
      | some next =>
        have goesOn : depth = 0 → token.kind ≠ .semicolon := fun outside semicolon => ended ⟨outside, semicolon⟩
        rw [skip_cons list stepped goesOn here, skip_cons list (step_add _ stepped) deep here]
        exact ih more

/-- A skip that starts from the outside finds the right place outside of all braces, or with nothing left. -/
theorem lands_from_outside (more : ∀ token ∈ tokens, token.kind ≠ .endOfInput) :
    Lands terminator depth tokens (skip terminator 0 tokens) ↔ depth = 0 ∨ skip terminator 0 tokens = [] := by
  rw [lands_iff list more]
  cases depth with
  | zero => simp
  | succ outer =>
    have deeper : skip terminator 0 tokens = [] ∧ skip terminator (0 + (outer + 1)) tokens = [] ∨
        (skip terminator (0 + (outer + 1)) tokens).length < (skip terminator 0 tokens).length :=
      skip_deeper list outer more
    rw [Nat.zero_add] at deeper
    constructor
    · intro same
      obtain ⟨nothing, -⟩ | further := deeper
      · exact .inr nothing
      · exact absurd (congrArg List.length same) (Nat.ne_of_gt further)
    · rintro (wrong | nothing)
      · cases wrong
      · obtain ⟨-, nothing'⟩ | further := deeper
        · rw [nothing, nothing']
        · simp [nothing] at further

end Lists

end Recovery

end MonkeyLang
