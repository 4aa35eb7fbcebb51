import MonkeyLang.Program

/-! The room that a text needs. What keeps a text from being had in some room keeps it from being had in more, unless it
is that there is too little room; and there is never too little for what is no higher than the room. -/

namespace MonkeyLang

namespace Fault

variable {first second first' second' : Option Fault}

/-- Two parts, one after the other, of which each is settled if there is room for it. -/
theorem or_higher (one : first ≠ some .exhausted → first' = first) (other : second ≠ some .exhausted → second' = second)
    (settled : first.or second ≠ some .exhausted) : first'.or second' = first.or second := by
  cases first with
  | some cause => rw [one settled, Option.some_or, Option.some_or]
  | none => rw [one nofun, other settled]

theorem or_ne_exhausted (one : first ≠ some .exhausted) (other : second ≠ some .exhausted) :
    first.or second ≠ some .exhausted := by
  cases first with
  | some cause => exact one
  | none => exact other

theorem ofInteger?_ne_exhausted (value : Int) : ofInteger? value ≠ some .exhausted := by
  unfold ofInteger?
  split
  · exact nofun
  · exact nofun

end Fault

namespace Outline

mutual

theorem describeFault_higher (more : Nat) : ∀ (outline : Outline) (room : Nat),
    outline.describeFault? room ≠ some .exhausted → outline.describeFault? (more + room) = outline.describeFault? room
  | nothing, _, _ | text _, _, _ | truth _, _, _ | number _, _, _ => rfl
  | list items, room, settled => describeFaultOfAll_higher more items room settled
  | node _ _ _, 0, settled => absurd rfl settled
  | node _ _ fields, room + 1, settled => describeFaultOfFields_higher more fields room settled
termination_by structural outline => outline

theorem describeFaultOfAll_higher (more : Nat) : ∀ (items : List Outline) (room : Nat),
    describeFaultOfAll? items room ≠ some .exhausted → describeFaultOfAll? items (more + room) = describeFaultOfAll? items room
  | [], 0, settled | _ :: _, 0, settled => absurd rfl settled
  | [], _ + 1, _ => rfl
  | item :: rest, room + 1, settled =>
    Fault.or_higher (describeFault_higher more item room) (describeFaultOfAll_higher more rest (room + 1)) settled
termination_by structural items => items

theorem describeFaultOfFields_higher (more : Nat) : ∀ (fields : List (String × Outline)) (room : Nat),
    describeFaultOfFields? fields room ≠ some .exhausted →
      describeFaultOfFields? fields (more + room) = describeFaultOfFields? fields room
  | [], _, _ => rfl
  | (_, value) :: rest, room, settled =>
    Fault.or_higher (describeFault_higher more value room) (describeFaultOfFields_higher more rest room) settled
termination_by structural fields => fields

end

end Outline

namespace Node

mutual

theorem renderFault_higher (more : Nat) : ∀ (node : Node) (room : Nat),
    node.renderFault? room ≠ some .exhausted → node.renderFault? (more + room) = node.renderFault? room
  | node, 0, settled => absurd (by cases node <;> rfl) settled
  | bare _, _ + 1, _ | identifier _ _, _ + 1, _ | integer _ _, _ + 1, _ | boolean _ _, _ + 1, _ | missing, _ + 1, _ => rfl
  | sequence nodes, room + 1, settled => (sequence nodes).outline.describeFault_higher more (room + 1) settled
  | returning _ child, room + 1, settled | statement _ child, room + 1, settled | unary _ _ child, room + 1, settled =>
    renderFault_higher more child room settled
  | letBinding _ first second, room + 1, settled | binary _ first _ second, room + 1, settled =>
    Fault.or_higher (renderFault_higher more first room) (renderFault_higher more second room) settled
  | conditional _ condition consequence alternative, room + 1, settled =>
    Fault.or_higher (renderFault_higher more condition room)
      (Fault.or_higher (renderFault_higher more consequence room) (renderFault_higher more alternative room)) settled
  | program child, room + 1, settled | block _ child, room + 1, settled => by
    cases child with
    | sequence nodes => exact renderFaultOfAll_higher more nodes room settled
    | _ => rfl
  | function _ child other, room + 1, settled | call _ other child, room + 1, settled => by
    cases child with
    | sequence nodes =>
      exact Fault.or_higher (renderFaultOfAll_higher more nodes room) (renderFault_higher more other room) settled
    | _ => rfl
termination_by structural node => node

theorem renderFaultOfAll_higher (more : Nat) : ∀ (nodes : List Node) (room : Nat),
    renderFaultOfAll? nodes room ≠ some .exhausted → renderFaultOfAll? nodes (more + room) = renderFaultOfAll? nodes room
  | [], 0, settled | _ :: _, 0, settled => absurd rfl settled
  | [], _ + 1, _ => rfl
  | node :: rest, room + 1, settled =>
    Fault.or_higher (renderFault_higher more node room) (renderFaultOfAll_higher more rest (room + 1)) settled
termination_by structural nodes => nodes

end

/-- A text that is had, or cannot be had for another reason, is the same in more room. -/
theorem text_higher {node : Node} {room : Nat} (settled : node.text? room ≠ .error .exhausted) (more : Nat) :
    node.text? (more + room) = node.text? room := by
  have other : node.renderFault? room ≠ some .exhausted := by
    intro exhausted
    rw [text?, exhausted] at settled
    exact settled rfl
  rw [text?, text?, renderFault_higher more node room other]

mutual

theorem describeFault_low : ∀ (node : Node) (room : Nat), node.height ≤ room →
    node.outline.describeFault? room ≠ some .exhausted
  | node, 0, low => absurd low (Nat.not_le.mpr node.height_pos)
  | missing, _ + 1, _ | bare _, _ + 1, _ | identifier _ _, _ + 1, _ | boolean _ _, _ + 1, _ => nofun
  | integer _ value, _ + 1, _ => Fault.or_ne_exhausted (Fault.ofInteger?_ne_exhausted value) nofun
  | sequence nodes, room + 1, low => describeFaultOfAll_low nodes room (Nat.le_of_succ_le_succ low)
  | program child, room + 1, low | block _ child, room + 1, low | returning _ child, room + 1, low
  | statement _ child, room + 1, low | unary _ _ child, room + 1, low =>
    Fault.or_ne_exhausted (describeFault_low child room (Nat.le_of_succ_le_succ low)) nofun
  | letBinding _ first second, room + 1, low | function _ first second, room + 1, low
  | call _ first second, room + 1, low => by
    obtain ⟨one, other⟩ := Nat.max_le.mp (Nat.le_of_succ_le_succ low)
    exact Fault.or_ne_exhausted (describeFault_low first room one)
      (Fault.or_ne_exhausted (describeFault_low second room other) nofun)
  | binary _ first _ second, room + 1, low => by
    obtain ⟨one, other⟩ := Nat.max_le.mp (Nat.le_of_succ_le_succ low)
    exact Fault.or_ne_exhausted (describeFault_low first room one)
      (Fault.or_ne_exhausted nofun (Fault.or_ne_exhausted (describeFault_low second room other) nofun))
  | conditional _ condition consequence alternative, room + 1, low => by
    obtain ⟨test, branches⟩ := Nat.max_le.mp (Nat.le_of_succ_le_succ low)
    obtain ⟨yes, no⟩ := Nat.max_le.mp branches
    exact Fault.or_ne_exhausted (describeFault_low condition room test) (Fault.or_ne_exhausted
      (describeFault_low consequence room yes) (Fault.or_ne_exhausted (describeFault_low alternative room no) nofun))
termination_by structural node => node

theorem describeFaultOfAll_low : ∀ (nodes : List Node) (room : Nat), heightOfAll nodes ≤ room →
    Outline.describeFaultOfAll? (outlines nodes) (room + 1) ≠ some .exhausted
  | [], _, _ => nofun
  | node :: rest, room, low => by
    obtain ⟨first, others⟩ := Nat.max_le.mp low
    exact Fault.or_ne_exhausted (describeFault_low node room first) (describeFaultOfAll_low rest room others)
termination_by structural nodes => nodes

end

mutual

theorem renderFault_low : ∀ (node : Node) (room : Nat), node.height ≤ room → node.renderFault? room ≠ some .exhausted
  | node, 0, low => absurd low (Nat.not_le.mpr node.height_pos)
  | bare _, _ + 1, _ | identifier _ _, _ + 1, _ | boolean _ _, _ + 1, _ | missing, _ + 1, _ => nofun
  | integer _ value, _ + 1, _ => Fault.ofInteger?_ne_exhausted value
  | sequence nodes, room + 1, low => describeFault_low (sequence nodes) (room + 1) low
  | returning _ child, room + 1, low | statement _ child, room + 1, low | unary _ _ child, room + 1, low =>
    renderFault_low child room (Nat.le_of_succ_le_succ low)
  | letBinding _ first second, room + 1, low | binary _ first _ second, room + 1, low => by
    obtain ⟨one, other⟩ := Nat.max_le.mp (Nat.le_of_succ_le_succ low)
    exact Fault.or_ne_exhausted (renderFault_low first room one) (renderFault_low second room other)
  | conditional _ condition consequence alternative, room + 1, low => by
    obtain ⟨test, branches⟩ := Nat.max_le.mp (Nat.le_of_succ_le_succ low)
    obtain ⟨yes, no⟩ := Nat.max_le.mp branches
    exact Fault.or_ne_exhausted (renderFault_low condition room test)
      (Fault.or_ne_exhausted (renderFault_low consequence room yes) (renderFault_low alternative room no))
  | program child, room + 1, low | block _ child, room + 1, low => by
    cases child with
    | sequence nodes => exact renderFaultOfAll_low nodes room (Nat.le_of_succ_le_succ low)
    | _ => exact nofun
  | function _ child other, room + 1, low => by
    obtain ⟨list, body⟩ := Nat.max_le.mp (Nat.le_of_succ_le_succ low)
    cases child with
    | sequence nodes => exact Fault.or_ne_exhausted (renderFaultOfAll_low nodes room list) (renderFault_low other room body)
    | _ => exact nofun
  | call _ other child, room + 1, low => by
    obtain ⟨callee, list⟩ := Nat.max_le.mp (Nat.le_of_succ_le_succ low)
    cases child with
    | sequence nodes => exact Fault.or_ne_exhausted (renderFaultOfAll_low nodes room list) (renderFault_low other room callee)
    | _ => exact nofun
termination_by structural node => node

theorem renderFaultOfAll_low : ∀ (nodes : List Node) (room : Nat), heightOfAll nodes < room →
    renderFaultOfAll? nodes room ≠ some .exhausted
  | _, 0, low => absurd low (Nat.not_lt_zero _)
  | [], _ + 1, _ => nofun
  | node :: rest, room + 1, low => by
    obtain ⟨first, others⟩ := Nat.max_le.mp (Nat.le_of_lt_succ low)
    exact Fault.or_ne_exhausted (renderFault_low node room first)
      (renderFaultOfAll_low rest (room + 1) (Nat.lt_succ_of_le others))
termination_by structural nodes => nodes

end

end Node

/-- A value whose text there is too little room for is higher than the room. -/
theorem Value.height_of_exhausted {value : Value} {room : Nat} (exhausted : value.text? room = .error .exhausted) :
    room < value.height := by
  have found : value.inspectFault? room = some .exhausted := by
    unfold text? at exhausted
    split at exhausted
    next fault found => rw [found, Except.error.inj exhausted]
    next => cases exhausted
  clear exhausted
  induction value generalizing room with
  | returned value ih =>
    cases room with
    | zero => exact Nat.succ_pos _
    | succ room => exact Nat.succ_lt_succ (ih found)
  | function parameters body scope =>
    refine Nat.lt_of_not_le fun low => ?_
    cases room with
    | zero => exact absurd low (Nat.not_le.mpr (Node.height_pos _))
    | succ room => exact Node.renderFault_low (.function none parameters body) (room + 1) low found
  | integer value =>
    cases room with
    | zero => exact Nat.succ_pos _
    | succ room => exact absurd found (Fault.ofInteger?_ne_exhausted value)
  | null | boolean | error | returnedNothing =>
    cases room with
    | zero => exact Nat.succ_pos _
    | succ room => cases found

end MonkeyLang
