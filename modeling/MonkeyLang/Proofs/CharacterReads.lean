import MonkeyLang.Proofs.TokenCoverage

/-! Cutting a text character by character. Here a token is read as a stream of characters lets it be read: one looks one
or two characters ahead and takes one character at a time, which fails at the end of the text. It never does, for what is
taken has been looked at before; and what comes out are the tokens that are cut off in one piece. -/

namespace MonkeyLang.Window

/-- What reading a character did if it did not fail. -/
theorem next_ok {window after : Window} {c : Char} (read : window.next = .ok (c, after)) :
    window.index < window.size ∧ after.source = window.source ∧ after.index = window.index + 1 := by
  unfold next current at read
  split at read
  next found =>
    split at found
    · cases found
    next inside =>
      cases read
      simp only [atEnd, decide_eq_true_eq] at inside
      exact ⟨by omega, rfl, rfl⟩
  · cases read
  · cases read

/-- Reads characters as long as the one ahead passes the test. -/
def readWhile (test : Option Char → Bool) (window : Window) : Except WindowFault (List Char × Window) :=
  if window.atEnd || !test (window.peek 0) then .ok ([], window)
  else
    match _ : window.next with
    | .error fault => .error fault
    | .ok (c, after) => do
      let (others, last) ← readWhile test after
      return (c :: others, last)
termination_by (window.size - window.index).toNat
decreasing_by
  obtain ⟨inside, source, index⟩ := next_ok ‹window.next = .ok (c, after)›
  rw [index, size, source, ← size]
  omega

/-- Reads that many characters. -/
def readMany (window : Window) : Nat → Except WindowFault (List Char × Window)
  | 0 => .ok ([], window)
  | count + 1 => do
    let (c, after) ← window.next
    let (others, last) ← after.readMany count
    return (c :: others, last)

/-- The two characters ahead, as far as there are any. -/
def ahead (window : Window) : List Char :=
  match window.peek 0 with
  | none => []
  | some c => c :: (window.peek 1).toList

/-- Reads, by the character ahead, a word, a number, an operator or the character by itself. -/
def readLexeme (window : Window) : Except WindowFault (Token × Window) := do
  if (window.peek 0).any Lexeme.isLetter then
    let (word, after) ← window.readWhile fun first => first.any Lexeme.isLetter
    return (⟨Lexeme.wordKind word, String.ofList word, window.position⟩, after)
  else if (window.peek 0).any Lexeme.isDigit then
    let (number, after) ← window.readWhile fun first => first.any Lexeme.isDigit
    return (⟨.integer, String.ofList number, window.position⟩, after)
  else
    match Lexeme.operator? window.ahead with
    | some lexeme =>
      let (sign, after) ← window.readMany lexeme.text.length
      return (⟨lexeme.kind, String.ofList sign, window.position⟩, after)
    | none =>
      let (c, after) ← window.next
      return (⟨.illegal, String.ofList [c], window.position⟩, after)

/-- Reads the next token, if there is one after the gap. -/
def readToken (window : Window) : Except WindowFault (Token × Window) := do
  let (_, start) ← window.readWhile fun first => first.all Lexeme.isGap
  if start.atEnd then return (.endAt start.position, start) else start.readLexeme

/-- The tokens that a number of calls in a row read, and the window after them. -/
def readTokens (window : Window) : Nat → Except WindowFault (List Token × Window)
  | 0 => .ok ([], window)
  | count + 1 => do
    let (token, after) ← window.readToken
    let (others, last) ← after.readTokens count
    return (token :: others, last)

/-! A window over a text in front of which the taken characters stand. -/

variable {taken rest : List Char} {position : Position} {c : Char}

theorem atEnd_past : (past taken ⟨rest, position⟩).atEnd = rest.isEmpty := by
  cases rest with
  | nil => simp [past, atEnd, size]
  | cons c rest =>
    have more : ¬(((taken ++ c :: rest).length : Int) ≤ taken.length) := by
      rw [List.length_append, List.length_cons]
      omega
    exact decide_eq_false more

theorem peek_past (taken rest : List Char) (position : Position) (ahead : Nat) :
    (past taken ⟨rest, position⟩).peek ahead = rest[ahead]? := by
  have inside : ¬((taken.length : Int) + ahead < 0) := by omega
  have place : ((taken.length : Int) + ahead).toNat = taken.length + ahead := by omega
  simp only [peek, charAt?, past, if_neg inside, place]
  rw [List.getElem?_append_right (Nat.le_add_right ..), Nat.add_sub_cancel_left]

theorem next_past : (past taken ⟨c :: rest, position⟩).next = .ok (c, past (taken ++ [c]) ⟨rest, position.after c⟩) := by
  have more : (past taken ⟨c :: rest, position⟩).atEnd = false := atEnd_past
  have inside : ¬((past taken ⟨c :: rest, position⟩).index < 0) := by simp [past]
  have found : (past taken ⟨c :: rest, position⟩).charAt? (past taken ⟨c :: rest, position⟩).index = some c := by
    have ahead := peek_past taken (c :: rest) position 0
    simpa [peek] using ahead
  rw [next, current, more, if_neg Bool.false_ne_true, if_neg inside, found]
  simp [past]

theorem readWhile_past (holds : Char → Bool) {test : Option Char → Bool} (same : ∀ c, test (some c) = holds c)
    (taken rest : List Char) (position : Position) : (past taken ⟨rest, position⟩).readWhile test =
      .ok (rest.takeWhile holds, past (taken ++ rest.takeWhile holds)
        ⟨rest.dropWhile holds, position.afterAll (rest.takeWhile holds)⟩) := by
  induction rest generalizing taken position with
  | nil =>
    rw [readWhile, atEnd_past]
    simp
  | cons c rest ih =>
    have first := peek_past taken (c :: rest) position 0
    rw [readWhile, atEnd_past]
    simp only [Int.ofNat_zero, List.getElem?_cons_zero] at first
    by_cases passes : holds c = true
    · have goes : ¬((c :: rest).isEmpty || !test ((past taken ⟨c :: rest, position⟩).peek 0)) = true := by
        simp [first, same, passes]
      rw [if_neg goes]
      split
      next read =>
        rw [next_past] at read
        cases read
      next read =>
        rw [next_past] at read
        cases read
        rw [ih, List.takeWhile_cons_of_pos passes, List.dropWhile_cons_of_pos passes]
        simp only [bind, Except.bind, pure, Except.pure, List.append_assoc, List.singleton_append, Position.afterAll_cons]
    · have stays : ((c :: rest).isEmpty || !test ((past taken ⟨c :: rest, position⟩).peek 0)) = true := by
        simp [first, same, passes]
      rw [if_pos stays, List.takeWhile_cons_of_neg passes, List.dropWhile_cons_of_neg passes, List.append_nil,
        Position.afterAll_nil]

theorem readMany_past (text : List Char) : (past taken ⟨text ++ rest, position⟩).readMany text.length =
    .ok (text, past (taken ++ text) ⟨rest, position.afterAll text⟩) := by
  induction text generalizing taken position with
  | nil => simp [readMany]
  | cons c text ih =>
    rw [List.length_cons, readMany, List.cons_append, next_past]
    simp only [bind, Except.bind, ih, pure, Except.pure, List.append_assoc, List.singleton_append, Position.afterAll_cons]

/-- Two characters are all that an operator can be told by. -/
theorem operator?_ahead (taken rest : List Char) (position : Position) :
    (Lexeme.operator? (past taken ⟨rest, position⟩).ahead).map (fun lexeme => (lexeme.kind, lexeme.text)) =
    (Lexeme.operator? rest).map fun lexeme => (lexeme.kind, lexeme.text) := by
  have first := peek_past taken rest position 0
  have second := peek_past taken rest position 1
  simp only [Int.ofNat_zero] at first
  rw [ahead, first]
  match rest with
  | [] => rfl
  | [c] =>
    simp only [Int.ofNat_one, List.getElem?_cons_succ, List.getElem?_nil] at second
    simp only [List.getElem?_cons_zero, second, Option.toList_none]
  | c :: d :: more =>
    simp only [Int.ofNat_one, List.getElem?_cons_succ, List.getElem?_cons_zero] at second
    simp only [List.getElem?_cons_zero, second, Option.toList_some]
    by_cases alone : Lexeme.Alone c (d :: more)
    · have alone' : Lexeme.Alone c [d] := alone
      rw [Lexeme.operator?_of_alone alone, Lexeme.operator?_of_alone alone', Option.map_map, Option.map_map]
      rfl
    · obtain ⟨double, follows⟩ := not_or.mp alone
      have equal : d = '=' := by simpa using follows
      have sign : c = '=' ∨ c = '!' := by
        by_contra other
        exact double (not_or.mp other)
      subst equal
      rcases sign with rfl | rfl
      · rfl
      · rfl

theorem readLexeme_past (taken : List Char) (c : Char) (rest : List Char) (position : Position) :
    (past taken ⟨c :: rest, position⟩).readLexeme =
      .ok (⟨(Lexeme.longest c rest).kind, String.ofList (Lexeme.longest c rest).text, position⟩,
        past (taken ++ (Lexeme.longest c rest).text)
          ⟨(Lexeme.longest c rest).rest, position.afterAll (Lexeme.longest c rest).text⟩) := by
  have first := peek_past taken (c :: rest) position 0
  have place : (past taken ⟨c :: rest, position⟩).position = position := rfl
  simp only [Int.ofNat_zero, List.getElem?_cons_zero] at first
  rw [readLexeme, Lexeme.longest, first, place, Option.any_some, Option.any_some]
  by_cases letter : Lexeme.isLetter c = true
  · rw [if_pos letter, if_pos letter, readWhile_past Lexeme.isLetter fun _ => rfl]
    rfl
  · rw [if_neg letter, if_neg letter]
    by_cases digit : Lexeme.isDigit c = true
    · rw [if_pos digit, if_pos digit, readWhile_past Lexeme.isDigit fun _ => rfl]
      rfl
    · rw [if_neg digit, if_neg digit]
      have seen := operator?_ahead taken (c :: rest) position
      cases found : Lexeme.operator? (c :: rest) with
      | none =>
        rw [found, Option.map_none, Option.map_eq_none_iff] at seen
        rw [seen, next_past]
        rfl
      | some lexeme =>
        obtain ⟨short, ahead, same⟩ := Option.map_eq_some_iff.mp (seen.trans (congrArg _ found))
        obtain ⟨kind, text⟩ := Prod.mk.inj same
        have whole := Lexeme.append_of_operator? found
        rw [ahead]
        dsimp only
        rw [kind, text, ← whole, readMany_past]
        rfl

/-- Reading character by character comes to the token that is cut off in one piece, and to the text behind it. -/
theorem readToken_past (taken : List Char) (cursor : Cursor) : (past taken cursor).readToken = (past taken cursor).nextToken := by
  obtain ⟨rest, position⟩ := cursor
  obtain ⟨read, whole, cut⟩ := nextToken_past taken ⟨rest, position⟩
  have parts := List.takeWhile_append_dropWhile (p := Lexeme.isGap) (l := rest)
  rw [cut, readToken, readWhile_past Lexeme.isGap fun _ => rfl]
  dsimp only [bind, Except.bind]
  rw [atEnd_past]
  cases left : rest.dropWhile Lexeme.isGap with
  | nil =>
    have gap : (Cursor.skipGap ⟨rest, position⟩).rest = [] := left
    rw [Cursor.nextToken_of_gap gap] at whole ⊢
    have all : read = rest := (List.append_nil read).symm.trans whole.symm
    rw [left, List.append_nil] at parts
    rw [parts, all]
    rfl
  | cons c more =>
    have token := Cursor.nextToken_of_lexeme position left
    rw [token] at whole ⊢
    have all : read = rest.takeWhile Lexeme.isGap ++ (Lexeme.longest c more).text := by
      have same : read ++ (Lexeme.longest c more).rest =
          rest.takeWhile Lexeme.isGap ++ (Lexeme.longest c more).text ++ (Lexeme.longest c more).rest := by
        rw [List.append_assoc _ (Lexeme.longest c more).text, Lexeme.longest_append, ← left, parts]
        exact whole.symm
      exact List.append_cancel_right same
    rw [if_neg (by simp), readLexeme_past, all, ← List.append_assoc, Position.afterAll_append]

theorem readTokens_past (taken : List Char) (cursor : Cursor) (calls : Nat) :
    (past taken cursor).readTokens calls = (past taken cursor).nextTokens calls := by
  induction calls generalizing taken cursor with
  | zero => rfl
  | succ calls ih =>
    obtain ⟨read, -, cut⟩ := nextToken_past taken cursor
    rw [readTokens, nextTokens, readToken_past, cut]
    dsimp only [bind, Except.bind]
    rw [ih]

/-- However often a token is asked for, no character is read past the end of the text. -/
theorem readTokens_ofText (text : List Char) (calls : Nat) : (ofText text).readTokens calls = (ofText text).nextTokens calls :=
  readTokens_past [] (.ofText text) calls

end MonkeyLang.Window
