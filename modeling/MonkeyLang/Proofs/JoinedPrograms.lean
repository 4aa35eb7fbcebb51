import MonkeyLang.Proofs.CleanTokens
import MonkeyLang.Proofs.JoinedTexts
import MonkeyLang.Proofs.SemicolonBarrier

/-! Programs in lines. Where every line is a program by itself and ends in a semicolon, the lines together are the program
with the statements of all of them. It is read at the same limit, and positions apart it is the same tree. -/

namespace MonkeyLang

namespace Parsed

/-- A text that is a program by itself, without syntax errors, and has a semicolon for its last token. -/
structure Line (limit : Nat) (text : String) (statements : List Node) : Prop where
  reads : ofText limit text = ⟨.ok (.program (.sequence statements)), []⟩
  closed : ∃ front semicolon finish, Token.ofText text = front ++ [semicolon, .endAt finish] ∧ semicolon.kind = .semicolon

variable {limit : Nat} {line : String} {statements : List Node} {lines : List String} {blocks : List (List Node)}

theorem Line.cut (read : Line limit line statements) :
    ∃ front semicolon, Token.upToFinish (Token.ofText line) = front ++ [semicolon] ∧ semicolon.kind = .semicolon := by
  obtain ⟨front, semicolon, finish, whole, kind⟩ := read.closed
  obtain ⟨finish', split, -⟩ := Token.ofText_eq line
  have same : front ++ [semicolon] ++ [.endAt finish] = Token.upToFinish (Token.ofText line) ++ [.endAt finish'] := by
    rw [← split, whole, List.append_assoc, List.singleton_append]
  exact ⟨front, semicolon, (List.append_inj' same rfl).1.symm, kind⟩

theorem Line.usable (read : Line limit line statements) :
    ∀ token ∈ Token.upToFinish (Token.ofText line), token.Usable :=
  fun token member => ⟨(Parser.ofTokens_ready (Token.ofText line)).rest token member, plain_of_clean read.reads token member⟩

theorem usable_of_lines (each : List.Forall₂ (Line limit) lines blocks) :
    ∀ token ∈ lines.flatMap fun line => Token.upToFinish (Token.ofText line), token.Usable := by
  induction each with
  | nil => exact List.forall_mem_nil _
  | cons read _ ih => exact List.forall_mem_append.mpr ⟨read.usable, ih⟩

/-- The state of a text is that of what it says. -/
theorem ofText_unplaced (text : String) :
    (Parser.ofTokens (Token.ofText text)).unplaced = ⟨Token.lexemes text, .endAt .nowhere, []⟩ := by
  obtain ⟨finish, split, -⟩ := Token.ofText_eq text
  refine Parser.ofTokens_unplaced fun token found => ?_
  have member := List.mem_of_find?_eq_some found
  have kind : token.kind = .endOfInput := by simpa using List.find?_some found
  rw [split, List.mem_append, List.mem_singleton] at member
  rcases member with inside | rfl
  · exact absurd kind ((Parser.ofTokens_ready (Token.ofText text)).rest token inside)
  · rfl

/-- Without an end of input the state is that of all tokens. -/
theorem ofTokens_unplaced_of_usable {tokens : List Token} (usable : ∀ token ∈ tokens, token.Usable) :
    (Parser.ofTokens tokens).unplaced = ⟨tokens.map Token.unplaced, .endAt .nowhere, []⟩ := by
  have more : ∀ token ∈ tokens, token.kind ≠ .endOfInput := fun token member => (usable token member).more
  have all : tokens.takeWhile (·.kind ≠ .endOfInput) = tokens := Parser.ofTokens_rest more
  rw [Parser.ofTokens_unplaced fun token found => ?_, all]
  have kind : token.kind = .endOfInput := by simpa using List.find?_some found
  exact absurd kind (more token (List.mem_of_find?_eq_some found))

/-- The tokens of the lines, one line after the other, are read as the program of all statements. -/
theorem ofTokens_lines (each : List.Forall₂ (Line limit) lines blocks) : ∃ nodes,
    ofTokens limit (lines.flatMap fun line => Token.upToFinish (Token.ofText line)) =
      ⟨.ok (.program (.sequence nodes)), []⟩ ∧ Node.shapes nodes = Node.shapes blocks.flatten := by
  induction each with
  | nil => exact ⟨[], rfl, rfl⟩
  | @cons line statements lines blocks read each ih =>
    obtain ⟨others, back, shapes⟩ := ih
    obtain ⟨front, semicolon, cut, kind⟩ := read.cut
    have usable := usable_of_lines (.cons read each)
    have same := (ofText_unplaced line).trans (ofTokens_unplaced_of_usable read.usable).symm
    obtain ⟨first, alone, shape⟩ := ofTokens_clean same read.reads
    have level := level_of_clean read.reads
    rw [cut] at level alone
    rw [List.flatMap_cons, cut] at usable ⊢
    cases parted kind (level.balanced (by simp [kind]) (by simp [kind])) (fun token member => (usable token member).more)
      (fun token member => (usable token member).plain) limit with
    | exhausted _ part =>
      rw [Exhausted, alone, Exhausted, back] at part
      rcases part with part | part
      all_goals cases part
    | @read nodes _ _ _ front' back' whole =>
      cases alone.symm.trans front'
      cases back.symm.trans back'
      have same : Node.shapes statements = Node.shapes nodes := by
        simpa only [Node.shape, Node.program.injEq, Node.sequence.injEq] using shape
      rw [Node.shapes_eq_map, Node.shapes_eq_map] at same shapes
      refine ⟨nodes ++ others, whole, ?_⟩
      rw [Node.shapes_eq_map, Node.shapes_eq_map, List.flatten_cons, List.map_append, List.map_append, same, shapes]

/-- Lines that are programs by themselves are one program together. -/
theorem ofText_lines (each : List.Forall₂ (Line limit) lines blocks) : ∃ program,
    ofText limit ("\n".intercalate lines) = ⟨.ok program, []⟩ ∧
      program.shape = (Node.program (.sequence blocks.flatten)).shape := by
  obtain ⟨nodes, read, shapes⟩ := ofTokens_lines each
  have same : (Parser.ofTokens (lines.flatMap fun line => Token.upToFinish (Token.ofText line))).unplaced =
      (Parser.ofTokens (Token.ofText ("\n".intercalate lines))).unplaced := by
    rw [ofText_unplaced, ofTokens_unplaced_of_usable (usable_of_lines each), Token.lexemes_lines, List.map_flatMap]
    rfl
  obtain ⟨program, clean, shape⟩ := ofTokens_clean same read
  refine ⟨program, clean, ?_⟩
  rw [← shape, Node.shape, Node.shape, Node.shape, Node.shape, shapes]

end Parsed

end MonkeyLang
