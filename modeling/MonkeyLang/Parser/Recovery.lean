import MonkeyLang.Parser.State

/-! Recovery from a malformed statement. The rest of the statement is skipped: up to its semicolon, or to the brace
that closes the block around it, whichever comes first outside of nested braces. -/

namespace MonkeyLang

namespace Recovery

/-- The tokens after the rest of a malformed statement, `depth` braces inside of it. The terminator that ends the
list of statements is kept; a semicolon and an unmatched closing brace are skipped. -/
def skip (terminator : Kind) : Nat → List Token → List Token
  | _, [] => []
  | 0, token :: rest =>
    if token.kind = terminator then token :: rest
    else if token.kind = .semicolon then rest
    else if token.kind = .leftBrace then skip terminator 1 rest
    else if token.kind = .rightBrace then rest
    else skip terminator 0 rest
  | depth + 1, token :: rest =>
    if token.kind = .leftBrace then skip terminator (depth + 2) rest
    else if token.kind = .rightBrace then skip terminator depth rest
    else skip terminator (depth + 1) rest

theorem skip_suffix (terminator : Kind) (depth : Nat) (tokens : List Token) :
    skip terminator depth tokens <:+ tokens := by
  fun_induction skip terminator depth tokens <;> grind

/-- Only a terminator outside of braces is not skipped. -/
theorem skip_lt {terminator : Kind} {token : Token} (depth : Nat) (rest : List Token)
    (other : depth = 0 → token.kind ≠ terminator) : (skip terminator depth (token :: rest)).length ≤ rest.length := by
  have shorter (depth : Nat) : (skip terminator depth rest).length ≤ rest.length := (skip_suffix _ _ _).length_le
  cases depth with
  | zero =>
    rw [skip, if_neg (other rfl)]
    split
    · exact Nat.le_refl _
    · split
      · exact shorter 1
      · split
        · exact Nat.le_refl _
        · exact shorter 0
  | succ depth =>
    rw [skip]
    split
    · exact shorter (depth + 2)
    · split
      · exact shorter depth
      · exact shorter (depth + 1)

end Recovery

/-- Skips the rest of the statement in which parsing stopped. -/
def Parser.synchronize (parser : Parser) (terminator : Kind) : Parser :=
  { parser with rest := Recovery.skip terminator 0 parser.rest }

namespace Parse

def synchronize (terminator : Kind) : Parse Unit := modify (·.synchronize terminator)

/-- The result of a step, or nothing if it runs into a syntax error: then the error is recorded and the rest of
the statement skipped. Faults are passed on. -/
def recovering {α : Type} (terminator : Kind) (step : Parse α) : Parse (Option α) :=
  tryCatch (some <$> step) fun
    | .unreadable error => do
      modify (·.record error)
      synchronize terminator
      return none
    | .fault fault => throw (.fault fault)

end Parse

end MonkeyLang
