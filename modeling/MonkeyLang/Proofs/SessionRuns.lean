import MonkeyLang.Session

/-! Sessions as a whole. A session that no fault ends answers its lines one after the other, each in the session that the
line before it has left; what is shown, logged and kept is put together from these answers. -/

namespace MonkeyLang.Session

variable {limit : Nat} {session : Session} {shown : String}

/-- A line without the blanks around it. -/
def stripped (text : String) : String := String.ofList (Text.trim text.toList)

/-- The lines that are answered, without the blanks around them, up to the reading that ends the session. -/
def heard : List Input → List String
  | [] | .interrupt :: _ => []
  | .line text :: rest =>
    if stripped text = "exit" || stripped text = "quit" then [] else stripped text :: heard rest

/-- What is shown at the end: only after a line the cursor is on a line of its own already. -/
def parting : List Input → String
  | [] | .interrupt :: _ => "\n" ++ farewell
  | .line text :: rest =>
    if stripped text = "exit" || stripped text = "quit" then farewell else parting rest

/-- The answers to lines, each from the session after the line before it. -/
def replies (limit : Nat) (session : Session) : List String → List Reply
  | [] => []
  | line :: rest =>
    let reply := session.respondTo limit line
    reply :: replies limit reply.session rest

/-- The session after lines. -/
def after (limit : Nat) (session : Session) (lines : List String) : Session :=
  lines.foldl (fun before line => (before.respondTo limit line).session) session

/-- The transcript that answers make up. -/
def transcript (shown : String) (inputs : List Input) (answers : List Reply) (last : Session) : Transcript :=
  ⟨(shown ++ prompt) :: answers.map (fun reply => reply.output ++ prompt) ++ [parting inputs],
    answers.flatMap Reply.log, last, none⟩

theorem after_append (earlier later : List String) :
    session.after limit (earlier ++ later) = (session.after limit earlier).after limit later :=
  List.foldl_append

theorem replies_append (earlier later : List String) : replies limit session (earlier ++ later) =
    replies limit session earlier ++ replies limit (session.after limit earlier) later := by
  induction earlier generalizing session with
  | nil => rfl
  | cons line earlier ih => exact congrArg (_ :: ·) ih

theorem length_replies (lines : List String) : (replies limit session lines).length = lines.length := by
  induction lines generalizing session with
  | nil => rfl
  | cons line lines ih => exact congrArg (· + 1) ih

/-- Each answer is shown before the next reading. -/
theorem transcript_shown (inputs : List Input) (last : Session) (earlier : List String) (line : String) (later : List String) :
    (transcript shown inputs (replies limit session (earlier ++ line :: later)) last).shown[earlier.length + 1]? =
      some (((session.after limit earlier).respondTo limit line).output ++ prompt) := by
  have reached := @replies_append limit session earlier (line :: later)
  have count := @length_replies limit session earlier
  rw [transcript, reached, replies]
  simp [← count]

theorem showing_next (log : List LogEntry) (text : Except Fault String) : (session.showing log text).next ≠ .close := by
  cases text with
  | ok text => exact Next.noConfusion
  | error fault => exact Next.noConfusion

theorem evaluate_next (log : List LogEntry) (program : Node) : (session.evaluate limit log program).next ≠ .close := by
  unfold evaluate
  dsimp only
  split
  · exact showing_next _ _
  · exact Next.noConfusion
  · exact Next.noConfusion
  · exact Next.noConfusion

theorem interpret_next (line : String) : (session.interpret limit line).next ≠ .close := by
  unfold interpret
  dsimp only
  split
  · exact Next.noConfusion
  · split
    · exact Next.noConfusion
    · split
      · exact showing_next _ _
      · exact evaluate_next _ _

/-- Only the words for it close a session. -/
theorem respondTo_next {line : String} (stays : ¬(line = "exit" || line = "quit")) :
    (session.respondTo limit line).next ≠ .close := by
  unfold respondTo
  rw [if_neg stays]
  split
  · exact Next.noConfusion
  · split
    · exact Next.noConfusion
    · exact Next.noConfusion
    · split
      · exact Next.noConfusion
      · exact interpret_next line

theorem respondTo_of_closing {line : String} (closing : line = "exit" || line = "quit") :
    session.respondTo limit line = ⟨session, farewell, [], .close⟩ := by
  have some : line ≠ "" := by
    rintro rfl
    cases closing
  rw [respondTo, if_neg some, if_pos closing]

section Readings

variable {text : String} (rest : List Input)

theorem run_closing (closing : stripped text = "exit" || stripped text = "quit") :
    session.run limit shown (.line text :: rest) = transcript shown (.line text :: rest) [] session := by
  have reply := @respondTo_of_closing limit session _ closing
  rw [run, respond, ← stripped, reply, transcript, parting, if_pos closing]
  rfl

theorem run_goOn (goes : (session.respondTo limit (stripped text)).next = .goOn) :
    session.run limit shown (.line text :: rest) =
      let reply := session.respondTo limit (stripped text)
      let later := run limit reply.session reply.output rest
      { later with shown := (shown ++ prompt) :: later.shown, log := reply.log ++ later.log } := by
  rw [run, respond, ← stripped]
  dsimp only
  rw [goes]

end Readings

/-- Unless an answer fails, the transcript is made up of the answers. -/
theorem run_eq {inputs : List Input} (goes : ∀ reply ∈ replies limit session (heard inputs), reply.next = .goOn) :
    session.run limit shown inputs =
      transcript shown inputs (replies limit session (heard inputs)) (session.after limit (heard inputs)) := by
  induction inputs generalizing session shown with
  | nil => rfl
  | cons input rest ih =>
    cases input with
    | interrupt => rfl
    | line text =>
      by_cases closing : stripped text = "exit" || stripped text = "quit"
      · rw [run_closing rest closing, heard, if_pos closing]
        rfl
      · rw [heard, if_neg closing, replies, List.forall_mem_cons] at goes
        rw [run_goOn rest goes.1]
        dsimp only
        rw [ih goes.2, heard, if_neg closing]
        simp [transcript, replies, after, parting, closing]

theorem goes_of_survives {inputs : List Input} (survives : (session.run limit shown inputs).failure = none) :
    ∀ reply ∈ replies limit session (heard inputs), reply.next = .goOn := by
  induction inputs generalizing session shown with
  | nil => exact List.forall_mem_nil _
  | cons input rest ih =>
    cases input with
    | interrupt => exact List.forall_mem_nil _
    | line text =>
      rw [heard]
      by_cases closing : stripped text = "exit" || stripped text = "quit"
      · rw [if_pos closing]
        exact List.forall_mem_nil _
      · rw [if_neg closing, replies, List.forall_mem_cons]
        cases next : (session.respondTo limit (stripped text)).next with
        | goOn =>
          rw [run_goOn rest next] at survives
          exact ⟨rfl, ih survives⟩
        | close => exact absurd next (respondTo_next closing)
        | fail failure =>
          rw [run, respond, ← stripped] at survives
          dsimp only at survives
          rw [next] at survives
          cases survives

end MonkeyLang.Session
