import MonkeyLang.Proofs.ParsedTrees
import MonkeyLang.Proofs.ParsingSoundness
import MonkeyLang.Proofs.Relexing
import MonkeyLang.Proofs.TreeShapes

/-! What is rendered can be read. The text of a tree that was built from the tokens of some text is cut into tokens
that derive, and the tree that they derive has the shape of the first one. Operands are in parentheses and statements
have their semicolons, so that an expression may be taken for one of the tightest level but for calls. -/

namespace MonkeyLang

open Grammar
open Lexeme (Stops Apart Alone longest signKind? wordKind)

namespace Token.Spelled

variable {token : Token}

private theorem wordKind_word (word : List Char) :
    wordKind word ≠ .integer ∧ wordKind word ≠ .bang ∧ wordKind word ≠ .minus := by
  unfold wordKind
  split <;> decide

theorem digits (spelled : token.Spelled) (kind : token.kind = .integer) :
    token.literal.toList ≠ [] ∧ ∀ c ∈ token.literal.toList, Numeral.IsDigit c := by
  obtain ⟨c, rest, solid, same, text⟩ := spelled
  rw [← text]
  refine ⟨Lexeme.longest_ne_nil c rest, ?_⟩
  rw [kind] at same
  unfold longest at same ⊢
  split at same
  · exact absurd same (wordKind_word _).1
  next letter =>
    split at same
    next digit =>
      simp only [letter, digit, if_false, if_true, Bool.false_eq_true]
      intro d member
      simpa [Lexeme.isDigit, Numeral.IsDigit] using List.mem_takeWhile_imp member
    next digit =>
      unfold Lexeme.operator? signKind? at same
      split at same <;> first | (split at same <;> simp at same) | simp at same

theorem numeral {value : Int} (spelled : token.Spelled) (kind : token.kind = .integer)
    (converted : Numeral.read token.literal = .ok value) : Numeral.Plain token.literal ∧ value = decimal token.literal := by
  obtain ⟨some, digits⟩ := spelled.digits kind
  have plain := Numeral.plain_of_read some digits converted
  rw [Numeral.read_plain plain] at converted
  exact ⟨plain, (Except.ok.inj converted).symm⟩

theorem sign (spelled : token.Spelled) (kind : token.kind = .bang ∨ token.kind = .minus) :
    ∃ c, signKind? c = some token.kind ∧ token.literal.toList = [c] := by
  obtain ⟨c, rest, solid, same, text⟩ := spelled
  rw [← text, ← same]
  rw [← same] at kind
  unfold longest at kind ⊢
  split at kind
  · exact absurd kind (by simp [wordKind_word])
  next letter =>
    split at kind
    · simp at kind
    next digit =>
      simp only [letter, digit, if_false, Bool.false_eq_true]
      unfold Lexeme.operator? at kind ⊢
      split at kind
      · simp at kind
      · simp at kind
      next d others _ _ same =>
        cases found : signKind? d with
        | none => simp [found] at kind
        | some sort => exact ⟨d, by simp [found], by simp⟩
      · simp at kind

theorem of_digits {literal : String} {position : Position} (some : literal.toList ≠ [])
    (digits : ∀ c ∈ literal.toList, Numeral.IsDigit c) : Spelled ⟨.integer, literal, position⟩ := by
  obtain ⟨c, rest, text⟩ := List.exists_cons_of_ne_nil some
  rw [text] at digits
  have all : ∀ d ∈ c :: rest, Lexeme.isDigit d = true := fun d member => by
    simpa [Lexeme.isDigit, Numeral.IsDigit] using digits d member
  obtain ⟨gap, letter⟩ : Lexeme.isGap c = false ∧ Lexeme.isLetter c = false := by
    have digit := digits c List.mem_cons_self
    have least : ∀ {d : Char}, 57 < d.toNat → ¬d ≤ c := fun greater le =>
      absurd (Nat.le_trans le digit.bounds.2) (Nat.not_le.mpr greater)
    constructor
    · simp [Lexeme.isGap, digit.ne (d := ' ') (by decide), digit.ne (d := '\t') (by decide),
        digit.ne (d := '\r') (by decide), digit.ne (d := '\n') (by decide)]
    · simp [Lexeme.isLetter, least (d := 'a') (by decide), least (d := 'A') (by decide),
        digit.ne (d := '_') (by decide)]
  have run : (c :: rest).takeWhile Lexeme.isDigit = c :: rest := List.takeWhile_eq_self_iff.mpr all
  refine ⟨c, rest, gap, ?_, ?_⟩
  · simp [longest, letter, all c List.mem_cons_self]
  · simp only [longest, letter, all c List.mem_cons_self, run, text, if_true, if_false, Bool.false_eq_true]

/-- No token but the two equality signs begins with one. -/
theorem head_ne (spelled : token.Spelled) (kind : token.kind ≠ .assign ∧ token.kind ≠ .equal) :
    token.literal.toList.head? ≠ some '=' := by
  obtain ⟨c, rest, solid, same, text⟩ := spelled
  obtain ⟨more, first, -⟩ := Lexeme.longest_again c rest .nil
  rw [← text, first]
  rintro ⟨⟩
  rw [← same] at kind
  match rest with
  | '=' :: others => exact kind.2 rfl
  | [] => exact kind.1 rfl
  | d :: others =>
    by_cases double : d = '='
    · subst double
      exact kind.2 rfl
    · refine kind.1 ?_
      have single : Alone '=' (d :: others) := .inr (by simpa using double)
      rw [longest, Lexeme.operator?_of_alone single]
      rfl

end Token.Spelled

/-- The tokens derive with a tree of the shape of the node. -/
def Again (phrase : Phrase) (node : Node) (tokens : List Token) : Prop :=
  ∃ again, Derives phrase tokens again ∧ again.shape = node.shape

/-- The same for a list of nodes. -/
def AgainAll (phrase : Phrase) (nodes : List Node) (tokens : List Token) : Prop :=
  ∃ again, Derives phrase tokens (.sequence again) ∧ Node.shapes again = Node.shapes nodes

/-- The text of a node is read as what the node stands for. No expression begins with an equality sign, which an operator
in front of it might take for its own second character. -/
def Node.Reading (node : Node) : Role → Prop
  | .program => Reads node.render.toList (Again .program node)
  | .statement => Reads node.render.toList (Again (.statement true) node)
  | .block => Reads node.render.toList (Again .block node)
  | .name => Reads node.render.toList (fun tokens => ∃ name : Token, tokens = [name] ∧ name.kind = .identifier ∧
      (Node.identifier name name.literal).shape = node.shape)
  | .expression => node.render.toList.head? ≠ some '=' ∧ Reads node.render.toList (Again (.expression callLevel) node)

namespace Reads

theorem word {text : String} (kind : Kind) (spelled : Token.Spelled ⟨kind, text, .start⟩)
    (word : kind ≠ .endOfInput ∧ kind ≠ .integer) :
    Reads text.toList (fun tokens => ∃ token : Token, tokens = [token] ∧ token.kind = kind) := by
  refine (Reads.spelled spelled ⟨word.1, fun same => absurd same word.2⟩).imp fun tokens ⟨token, same, sort, _⟩ => ?_
  exact ⟨token, same, sort⟩

theorem last {c : Char} (kind : Kind) (sort : signKind? c = some kind) :
    Reads [c] (fun tokens => ∃ token : Token, tokens = [token] ∧ token.kind = kind) := by
  refine (Reads.sign _ sort (.inr (by simp)) Reads.nil).imp ?_
  rintro _ ⟨token, _, rfl, ⟨same, _⟩, rfl⟩
  exact ⟨token, rfl, same⟩

end Reads

namespace Node

theorem render_cons_cons {separator : String} {c : Char} {text : List Char} (same : separator.toList = c :: text)
    (first second : Node) (others : List Node) :
    (separator.intercalate (renderAll (first :: second :: others))).toList =
      first.render.toList ++ c :: (text ++ (separator.intercalate (renderAll (second :: others))).toList) := by
  simp [renderAll, String.intercalate_cons_cons, same]

theorem render_one (separator : String) (node : Node) :
    (separator.intercalate (renderAll [node])).toList = node.render.toList := by
  simp [renderAll]

section Lists

variable {nodes : List Node}

theorem statements_read (statements : ∀ node ∈ nodes, node.Reading .statement) :
    Reads (" ".intercalate (renderAll nodes)).toList (AgainAll .statements nodes) := by
  induction nodes with
  | nil => exact Reads.nil.imp fun tokens empty => ⟨[], empty ▸ .noStatements, rfl⟩
  | cons node others ih =>
    obtain ⟨reads, later⟩ := List.forall_mem_cons.mp statements
    cases others with
    | nil =>
      rw [render_one]
      refine reads.imp fun tokens ⟨again, derives, shape⟩ => ⟨[again], ?_, by simp [shapes, shape]⟩
      simpa using Grammar.Derives.statements derives .noStatements nofun
    | cons next others =>
      rw [render_cons_cons rfl]
      refine (Reads.append reads (by decide) (Reads.gap (ih later))).imp ?_
      rintro _ ⟨before, behind, rfl, ⟨again, derives, shape⟩, rest, derives', shapes'⟩
      exact ⟨again :: rest, .statements derives derives' nofun, by simp [shapes, shape, shapes']⟩

theorem expressions_read (some : nodes ≠ []) (expressions : ∀ node ∈ nodes, node.Reading .expression) :
    Reads (", ".intercalate (renderAll nodes)).toList (AgainAll .expressions nodes) := by
  induction nodes with
  | nil => exact absurd rfl some
  | cons node others ih =>
    obtain ⟨reads, later⟩ := List.forall_mem_cons.mp expressions
    cases others with
    | nil =>
      rw [render_one]
      refine reads.2.imp fun tokens ⟨again, derives, shape⟩ => ⟨[again], ?_, by simp [shapes, shape]⟩
      exact .lastExpression (derives.looser_of_le (Nat.zero_le _))
    | cons next others =>
      rw [render_cons_cons rfl]
      refine (Reads.append reads.2 (by decide) (Reads.sign .comma rfl (.inl (by decide))
        (Reads.gap (ih (by simp) later)))).imp ?_
      rintro _ ⟨before, _, rfl, ⟨again, derives, shape⟩, comma, behind, rfl, ⟨isComma, _⟩, rest, derives', shapes'⟩
      exact ⟨again :: rest, .moreExpressions (derives.looser_of_le (Nat.zero_le _)) isComma derives',
        by simp [shapes, shape, shapes']⟩

theorem names_read (some : nodes ≠ []) (names : ∀ node ∈ nodes, node.Reading .name) :
    Reads (", ".intercalate (renderAll nodes)).toList (AgainAll .names nodes) := by
  induction nodes with
  | nil => exact absurd rfl some
  | cons node others ih =>
    obtain ⟨reads, later⟩ := List.forall_mem_cons.mp names
    cases others with
    | nil =>
      rw [render_one]
      refine Reads.imp reads ?_
      rintro _ ⟨name, rfl, kind, shape⟩
      exact ⟨[_], .lastName kind, by simp [shapes, shape]⟩
    | cons next others =>
      rw [render_cons_cons rfl]
      refine (Reads.append reads (by decide) (Reads.sign .comma rfl (.inl (by decide))
        (Reads.gap (ih (by simp) later)))).imp ?_
      rintro _ ⟨_, _, rfl, ⟨name, rfl, kind, shape⟩, comma, behind, rfl, ⟨isComma, _⟩, rest, derives, shapes'⟩
      exact ⟨_ :: rest, .moreNames kind isComma derives, by simp [shapes, shape, shapes']⟩

theorem arguments_read (expressions : ∀ node ∈ nodes, node.Reading .expression) :
    Reads (", ".intercalate (renderAll nodes)).toList (AgainAll .arguments nodes) := by
  cases nodes with
  | nil => exact Reads.nil.imp fun tokens empty => ⟨[], empty ▸ .noArguments, rfl⟩
  | cons node others =>
    refine (expressions_read (by simp) expressions).imp fun tokens ⟨again, derives, shape⟩ => ?_
    exact ⟨again, .arguments derives, shape⟩

theorem parameters_read (names : ∀ node ∈ nodes, node.Reading .name) :
    Reads (", ".intercalate (renderAll nodes)).toList (AgainAll .parameters nodes) := by
  cases nodes with
  | nil => exact Reads.nil.imp fun tokens empty => ⟨[], empty ▸ .noParameters, rfl⟩
  | cons node others =>
    refine (names_read (by simp) names).imp fun tokens ⟨again, derives, shape⟩ => ?_
    exact ⟨again, .parameters derives, shape⟩

end Lists

section Kinds

variable {token : Option Token} {first second third : Node} {nodes : List Node}

theorem letBinding_reads (bound : first.Reading .name) (expression : second.Reading .expression) :
    (letBinding token first second).Reading .statement := by
  have text : (letBinding token first second).render.toList = "let".toList ++ ' ' :: (first.render.toList ++
      ' ' :: '=' :: ' ' :: (second.render.toList ++ [';'])) := by simp [render]
  rw [Reading, text]
  refine (Reads.append (Reads.word .letWord ⟨'l', ['e', 't'], rfl, rfl, rfl⟩ (by decide)) (by decide)
    (Reads.gap (Reads.append bound (by decide) (Reads.gap (Reads.sign .assign rfl (.inr (by simp))
      (Reads.gap (Reads.append expression.2 (by decide) (Reads.last .semicolon rfl)))))))).imp ?_
  rintro _ ⟨_, _, rfl, ⟨word, rfl, letWord⟩, _, _, rfl, ⟨name, rfl, identifier, shape⟩, sign, _, rfl,
    ⟨assign, _⟩, tokens, _, rfl, ⟨value, derives, shape'⟩, semicolon, rfl, closes⟩
  refine ⟨.letBinding word (.identifier name name.literal) value, ?_, ?_⟩
  · simpa using Grammar.Derives.letBinding letWord identifier assign (derives.looser_of_le (Nat.zero_le _)) (.closed closes)
  · simp only [Node.shape, ← shape, shape']

theorem returning_reads (expression : first.Reading .expression) : (returning token first).Reading .statement := by
  have text : (returning token first).render.toList = "return".toList ++ ' ' :: (first.render.toList ++ [';']) := by
    simp [render]
  rw [Reading, text]
  refine (Reads.append (Reads.word .returnWord ⟨'r', ['e', 't', 'u', 'r', 'n'], rfl, rfl, rfl⟩ (by decide))
    (by decide) (Reads.gap (Reads.append expression.2 (by decide) (Reads.last .semicolon rfl)))).imp ?_
  rintro _ ⟨_, _, rfl, ⟨word, rfl, returnWord⟩, tokens, _, rfl, ⟨value, derives, shape⟩, semicolon, rfl, closes⟩
  refine ⟨.returning word value, ?_, by simp only [Node.shape, shape]⟩
  simpa using Grammar.Derives.returning returnWord (derives.looser_of_le (Nat.zero_le _)) (.closed closes)

theorem statement_reads (expression : first.Reading .expression) : (statement token first).Reading .statement := by
  have text : (statement token first).render.toList = first.render.toList ++ [';'] := by simp [render]
  rw [Reading, text]
  refine (Reads.append expression.2 (by decide) (Reads.last .semicolon rfl)).imp ?_
  rintro _ ⟨tokens, _, rfl, ⟨value, derives, shape⟩, semicolon, rfl, closes⟩
  obtain ⟨start, others, rfl⟩ := List.exists_cons_of_ne_nil derives.ne_nil
  refine ⟨.statement start value, ?_, by simp only [Node.shape, shape]⟩
  exact .statement (derives.looser_of_le (Nat.zero_le _)) (.closed closes)

theorem block_reads (statements : ∀ node ∈ nodes, node.Reading .statement) :
    (block token (sequence nodes)).Reading .block := by
  have inner : Reads ((" ".intercalate (renderAll nodes)).toList) (AgainAll .statements nodes) := statements_read statements
  have closing := Reads.gap (Reads.last (c := '\x7d') .rightBrace rfl)
  have body : Reads ((block token (sequence nodes)).render.toList.drop 2) (fun tokens => ∃ before behind,
      tokens = before ++ behind ∧ AgainAll .statements nodes before ∧
        ∃ token : Token, behind = [token] ∧ token.kind = .rightBrace) := by
    cases nodes with
    | nil =>
      have text : (block token (sequence [])).render.toList.drop 2 = ['\x7d'] := by simp [render]
      rw [text]
      refine (Reads.last .rightBrace rfl).imp fun tokens brace => ?_
      exact ⟨[], tokens, rfl, ⟨[], .noStatements, rfl⟩, brace⟩
    | cons node others => simpa [render] using Reads.append inner (by decide) closing
  have text : (block token (sequence nodes)).render.toList =
      '\x7b' :: ' ' :: (block token (sequence nodes)).render.toList.drop 2 := by
    cases nodes <;> simp [render]
  rw [Reading, text]
  refine (Reads.sign .leftBrace rfl (.inl (by decide)) (Reads.gap body)).imp ?_
  rintro _ ⟨opening, _, rfl, ⟨leftBrace, _⟩, tokens, _, rfl, ⟨again, derives, shape⟩, closing, rfl, rightBrace⟩
  refine ⟨.block opening (.sequence again), .block leftBrace derives rightBrace, ?_⟩
  simp only [Node.shape, shape]

theorem program_reads (statements : ∀ node ∈ nodes, node.Reading .statement) :
    (program (sequence nodes)).Reading .program := by
  rw [Reading, render]
  refine (statements_read statements).imp fun tokens ⟨again, derives, shape⟩ => ?_
  exact ⟨.program (.sequence again), .program derives, by simp only [Node.shape, shape]⟩

theorem boolean_reads (value : Bool) : (boolean token value).Reading .expression := by
  cases value with
  | true =>
    have text : (boolean token true).render = "true" := by simp [render]
    rw [Reading, text]
    refine ⟨by simp, (Reads.word .trueWord ⟨'t', ['r', 'u', 'e'], rfl, rfl, rfl⟩ (by decide)).imp ?_⟩
    rintro _ ⟨word, rfl, kind⟩
    exact ⟨.boolean word true, .looser (.trueLiteral kind), rfl⟩
  | false =>
    have text : (boolean token false).render = "false" := by simp [render]
    rw [Reading, text]
    refine ⟨by simp, (Reads.word .falseWord ⟨'f', ['a', 'l', 's', 'e'], rfl, rfl, rfl⟩ (by decide)).imp ?_⟩
    rintro _ ⟨word, rfl, kind⟩
    exact ⟨.boolean word false, .looser (.falseLiteral kind), rfl⟩

theorem conditional_reads (test : first.Reading .expression) (yes : second.Reading .block) :
    (conditional token first second .missing).Reading .expression := by
  have text : (conditional token first second .missing).render.toList = "if".toList ++ ' ' :: '(' ::
      (first.render.toList ++ ')' :: ' ' :: second.render.toList) := by simp [render]
  rw [Reading, text]
  refine ⟨by simp, (Reads.append (Reads.word .ifWord ⟨'i', ['f'], rfl, rfl, rfl⟩ (by decide)) (by decide)
    (Reads.gap (Reads.sign .leftParen rfl (.inl (by decide)) (Reads.append test.2 (by decide)
      (Reads.sign .rightParen rfl (.inl (by decide)) (Reads.gap yes)))))).imp ?_⟩
  rintro _ ⟨_, _, rfl, ⟨word, rfl, ifWord⟩, opening, _, rfl, ⟨leftParen, _⟩, tokens, _, rfl, ⟨condition, derives, shape⟩,
    closing, behind, rfl, ⟨rightParen, _⟩, consequence, derives', shape'⟩
  have whole := Grammar.Derives.conditional ifWord leftParen (derives.looser_of_le (Nat.zero_le _)) rightParen derives'
  refine ⟨.conditional word condition consequence .missing, by simpa using (Derives.looser whole : Derives (.expression callLevel) _ _), ?_⟩
  simp only [Node.shape, shape, shape']

theorem alternative_reads (test : first.Reading .expression) (yes : second.Reading .block) (no : third.Reading .block)
    (some : third ≠ .missing) : (conditional token first second third).Reading .expression := by
  have text : (conditional token first second third).render.toList = "if".toList ++ ' ' :: '(' ::
      (first.render.toList ++ ')' :: ' ' :: (second.render.toList ++ ' ' :: ("else".toList ++
        ' ' :: third.render.toList))) := by simp [render_alternative some]
  rw [Reading, text]
  refine ⟨by simp, (Reads.append (Reads.word .ifWord ⟨'i', ['f'], rfl, rfl, rfl⟩ (by decide)) (by decide)
    (Reads.gap (Reads.sign .leftParen rfl (.inl (by decide)) (Reads.append test.2 (by decide)
      (Reads.sign .rightParen rfl (.inl (by decide)) (Reads.gap (Reads.append yes (by decide)
        (Reads.gap (Reads.append (Reads.word .elseWord ⟨'e', ['l', 's', 'e'], rfl, rfl, rfl⟩ (by decide))
          (by decide) (Reads.gap no)))))))))).imp ?_⟩
  rintro _ ⟨_, _, rfl, ⟨word, rfl, ifWord⟩, opening, _, rfl, ⟨leftParen, _⟩, tokens, _, rfl, ⟨condition, derives, shape⟩,
    closing, _, rfl, ⟨rightParen, _⟩, before, _, rfl, ⟨consequence, derives', shape'⟩, _, behind, rfl,
    ⟨other, rfl, elseWord⟩, alternative, derives'', shape''⟩
  have whole := Grammar.Derives.alternative ifWord leftParen (derives.looser_of_le (Nat.zero_le _)) rightParen derives'
    elseWord derives''
  refine ⟨.conditional word condition consequence alternative, by simpa using (Derives.looser whole : Derives (.expression callLevel) _ _), ?_⟩
  simp only [Node.shape, shape, shape', shape'']

theorem function_reads (parameters : ∀ node ∈ nodes, node.Reading .name) (block : first.Reading .block) :
    (function token (sequence nodes) first).Reading .expression := by
  have text : (function token (sequence nodes) first).render.toList = "fn".toList ++ '(' ::
      ((", ".intercalate (renderAll nodes)).toList ++ ')' :: ' ' :: first.render.toList) := by simp [render]
  rw [Reading, text]
  refine ⟨by simp, (Reads.append (Reads.word .functionWord ⟨'f', ['n'], rfl, rfl, rfl⟩ (by decide)) (by decide)
    (Reads.sign .leftParen rfl (.inl (by decide)) (Reads.append (parameters_read parameters) (by decide)
      (Reads.sign .rightParen rfl (.inl (by decide)) (Reads.gap block))))).imp ?_⟩
  rintro _ ⟨_, _, rfl, ⟨word, rfl, functionWord⟩, opening, _, rfl, ⟨leftParen, _⟩, tokens, _, rfl, ⟨names, derives, shape⟩,
    closing, behind, rfl, ⟨rightParen, _⟩, body, derives', shape'⟩
  have whole := Grammar.Derives.function functionWord leftParen derives rightParen derives'
  refine ⟨.function word (.sequence names) body, by simpa using (Derives.looser whole : Derives (.expression callLevel) _ _), ?_⟩
  simp only [Node.shape, shape, shape']

theorem call_reads (function : first.Reading .expression) (arguments : ∀ node ∈ nodes, node.Reading .expression) :
    (call token first (sequence nodes)).Reading .expression := by
  have text : (call token first (sequence nodes)).render.toList = first.render.toList ++ '(' ::
      ((", ".intercalate (renderAll nodes)).toList ++ [')']) := by simp [render]
  rw [Reading, text]
  constructor
  · cases rest : first.render.toList with
    | nil => simp
    | cons d others => simpa [rest] using function.1
  · refine (Reads.append function.2 (by decide) (Reads.sign .leftParen rfl (.inl (by decide))
      (Reads.append (arguments_read arguments) (by decide) (Reads.last .rightParen rfl)))).imp ?_
    rintro _ ⟨before, _, rfl, ⟨callee, derives, shape⟩, opening, _, rfl, ⟨leftParen, _⟩, tokens, _, rfl,
      ⟨values, derives', shape'⟩, closing, rfl, rightParen⟩
    have whole := Grammar.Derives.call derives leftParen derives' rightParen
    refine ⟨.call opening callee (.sequence values), by simpa using whole, ?_⟩
    simp only [Node.shape, shape, shape']

end Kinds

section Tokens

variable {token : Token} {first second : Node}

theorem name_reads (spelled : token.Spelled) (kind : token.kind = .identifier) :
    Reads token.literal.toList (fun tokens => ∃ name : Token, tokens = [name] ∧ name.kind = .identifier ∧
      (identifier name name.literal).shape = (identifier token token.literal).shape) := by
  refine (Reads.spelled spelled ⟨by simp [kind], by simp [kind]⟩).imp ?_
  rintro _ ⟨name, rfl, sort, literal⟩
  exact ⟨name, rfl, sort.trans kind, by simp only [shape, literal]⟩

theorem identifier_reads (spelled : token.Spelled) (kind : token.kind = .identifier) :
    (identifier token token.literal).Reading .expression := by
  refine ⟨spelled.head_ne (by simp [kind]), (name_reads spelled kind).imp ?_⟩
  rintro _ ⟨name, rfl, same, shape⟩
  exact ⟨identifier name name.literal, .looser (.identifier same), shape⟩

theorem integer_reads {value : Int} (spelled : token.Spelled) (kind : token.kind = .integer)
    (numeral : Numeral.read token.literal = .ok value) (inRange : value ≤ Signed64.greatest) :
    (integer token value).Reading .expression := by
  obtain ⟨-, rfl⟩ := spelled.numeral kind numeral
  have plain := Numeral.plain_of_le_greatest inRange
  have again : Token.Spelled ⟨.integer, toString (decimal token.literal : Int), .start⟩ := .of_digits plain.ne_nil plain.digits
  refine ⟨again.head_ne ⟨nofun, nofun⟩, (Reads.spelled again ⟨nofun, fun _ => plain⟩).imp ?_⟩
  rintro _ ⟨numeral, rfl, sort, literal⟩
  have same : decimal numeral.literal = decimal token.literal := by rw [literal, Numeral.decimal_toString]
  refine ⟨.integer numeral (decimal numeral.literal), .looser (.integer sort (same ▸ inRange)), ?_⟩
  simp only [Node.shape, same]

theorem unary_reads (spelled : token.Spelled) (kind : token.kind = .bang ∨ token.kind = .minus)
    (operand : first.Reading .expression) : (unary token token.literal first).Reading .expression := by
  obtain ⟨c, sort, literal⟩ := spelled.sign kind
  have text : (unary token token.literal first).render.toList = '(' :: c :: (first.render.toList ++ [')']) := by
    simp [render, literal]
  have alone : Alone c (first.render.toList ++ [')']) := by
    cases rest : first.render.toList with
    | nil => exact .inr (by simp)
    | cons d others => exact .inr (by simpa [rest] using operand.1)
  rw [Reading, text]
  refine ⟨by simp, (Reads.sign .leftParen rfl (.inl (by decide)) (Reads.sign _ sort alone
    (Reads.append operand.2 (by decide) (Reads.last .rightParen rfl)))).imp ?_⟩
  rintro _ ⟨opening, _, rfl, ⟨leftParen, _⟩, operator, _, rfl, ⟨sort', literal'⟩, tokens, _, rfl, ⟨right, derives, shape⟩,
    closing, rfl, rightParen⟩
  have inner := Grammar.Derives.unary (sort' ▸ kind) derives.looser
  refine ⟨.unary operator operator.literal right,
    .looser (.grouped leftParen (inner.looser_of_le (Nat.zero_le _)) rightParen), ?_⟩
  simp only [Node.shape, shape, literal', ← literal, String.ofList_toList]

theorem binary_reads (spelled : token.Spelled) (kind : token.kind.isBinary = true)
    (leftSide : first.Reading .expression) (rightSide : second.Reading .expression) :
    (binary token first token.literal second).Reading .expression := by
  have text : (binary token first token.literal second).render.toList = '(' :: (first.render.toList ++
      ' ' :: (token.literal.toList ++ ' ' :: (second.render.toList ++ [')']))) := by simp [render]
  obtain ⟨level, within, ofLevel, -, more⟩ := Kind.exists_level kind
  have usable : token.Usable := ⟨more, fun same => by simp [same, Kind.isBinary] at kind⟩
  rw [Reading, text]
  refine ⟨by simp, (Reads.sign .leftParen rfl (.inl (by decide)) (Reads.append leftSide.2 (by decide)
    (Reads.gap (Reads.append (Reads.spelled spelled usable) (by decide) (Reads.gap (Reads.append rightSide.2 (by decide)
      (Reads.last .rightParen rfl))))))).imp ?_⟩
  rintro _ ⟨opening, _, rfl, ⟨leftParen, _⟩, before, _, rfl, ⟨left, derives, shape⟩, _, _, rfl, ⟨operator, rfl, sort, literal⟩,
    behind, _, rfl, ⟨right, derives', shape'⟩, closing, rfl, rightParen⟩
  have inner := Grammar.Derives.binary (derives.looser_of_le (Nat.le_trans within (by decide))) (sort ▸ ofLevel)
    (derives'.looser_of_le (Nat.le_trans (Nat.succ_le_succ within) (by decide)))
  have grouped := Grammar.Derives.grouped leftParen (inner.looser_of_le (Nat.zero_le _)) rightParen
  refine ⟨.binary operator left operator.literal right, by simpa using (Derives.looser grouped : Derives (.expression callLevel) _ _), ?_⟩
  simp only [Node.shape, shape, shape', literal]

end Tokens

/-- Every tree built from the tokens of a text is rendered as a text that is read as a tree of its shape. -/
theorem Built.reading {role : Role} {node : Node} (built : Built Token.Spelled role node) : node.Reading role := by
  induction built with
  | program _ statements => exact program_reads statements
  | letBinding _ _ bound expression => exact letBinding_reads bound expression
  | returning _ expression => exact returning_reads expression
  | statement _ expression => exact statement_reads expression
  | block _ statements => exact block_reads statements
  | name fit =>
    obtain ⟨token, rfl, spelled, kind, rfl⟩ := fit
    simpa only [Reading, render] using name_reads spelled kind
  | identifier fit =>
    obtain ⟨token, rfl, spelled, kind, rfl⟩ := fit
    exact identifier_reads spelled kind
  | integer fit =>
    obtain ⟨token, rfl, spelled, kind, numeral, inRange⟩ := fit
    exact integer_reads spelled kind numeral inRange
  | boolean => exact boolean_reads _
  | unary fit _ operand =>
    obtain ⟨token, rfl, spelled, kind, rfl⟩ := fit
    exact unary_reads spelled kind operand
  | binary fit _ _ leftSide rightSide =>
    obtain ⟨token, rfl, spelled, kind, rfl⟩ := fit
    exact binary_reads spelled kind leftSide rightSide
  | conditional _ _ test yes => exact conditional_reads test yes
  | alternative _ _ other test yes no => exact alternative_reads test yes no (by rintro rfl; cases other)
  | function _ _ parameters block => exact function_reads parameters block
  | call _ _ function arguments => exact call_reads function arguments

end Node

end MonkeyLang
