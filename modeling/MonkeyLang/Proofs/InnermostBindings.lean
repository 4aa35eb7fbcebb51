import MonkeyLang.Proofs.SoundScopes

/-! What names mean after any history of scopes that were made and names that were set. What counts is the latest setting
of the name in the nearest scope, from the inside out, in which it was ever set; and a further setting is seen from the
scopes that it is the nearest one for, and from nowhere else. -/

namespace MonkeyLang

/-- How so many scopes came about, step by step: a scope was made, outermost or inside of one there was, or a name was set
in one of them, maybe to nothing. -/
inductive History : Nat → Type
  | nothing : History 0
  | enclose {count : Nat} (earlier : History count) (outer : Option Nat) (around : ∀ scope ∈ outer, scope < count) :
      History (count + 1)
  | set {count : Nat} (earlier : History count) (scope : Nat) (there : scope < count) (name : String)
      (value : Option Value) : History count

namespace History

/-- The world that the steps leave. -/
def world {count : Nat} : History count → World
  | nothing => .empty
  | enclose earlier outer _ => (earlier.world.enclose outer).2
  | set earlier scope _ name value => earlier.world.set scope name value

/-- What a name was set to last in a scope itself, if it was ever set there. -/
def latest {count : Nat} (scope : Nat) (name : String) : History count → Option (Option Value)
  | nothing => none
  | enclose earlier _ _ => earlier.latest scope name
  | set earlier changed _ word value => if changed = scope ∧ word = name then some value else earlier.latest scope name

/-- A scope and those around it, the innermost first. Around a scope lies what it was made inside of. -/
def outward {count : Nat} : History count → Nat → List Nat
  | nothing, _ => []
  | @enclose made earlier outer _, scope =>
    if scope = made then scope :: outer.elim [] earlier.outward else earlier.outward scope
  | set earlier _ _ _ _, scope => earlier.outward scope

/-- What a name means in a scope: what it was set to last in the nearest scope in which it was set. -/
def meaning {count : Nat} (history : History count) (scope : Nat) (name : String) : Option Value :=
  ((history.outward scope).findSome? fun inside => history.latest inside name).join

variable {count : Nat}

theorem size_world (history : History count) : history.world.scopes.size = count := by
  induction history with
  | nothing => rfl
  | enclose earlier outer around ih => simp only [world, World.enclose, Array.size_push, ih]
  | set earlier scope there name value ih => simp only [world, World.set, Array.size_modify, ih]

/-- A scope as it should be after a history: it binds what was set in it, and the scope around it is one made before. -/
structure Records (history : History count) (index : Nat) (scope : Scope) : Prop where
  binds : ∀ name, scope.find? name = history.latest index name
  around : history.outward index = index :: scope.outer.elim [] history.outward
  earlier : ∀ outer, scope.outer = some outer → outer < index

variable {earlier : History count} {index : Nat} {scope : Scope}

/-- A new scope lies around no scope there was. -/
theorem Records.enclose {outer : Option Nat} {around : ∀ scope ∈ outer, scope < count}
    (records : earlier.Records index scope) (there : index < count) :
    (earlier.enclose outer around).Records index scope where
  binds := records.binds
  around := by
    rw [outward, if_neg (Nat.ne_of_lt there), records.around]
    cases inside : scope.outer with
    | none => rfl
    | some other =>
      have before : other < count := Nat.lt_trans (records.earlier other inside) there
      simp only [Option.elim_some, outward, if_neg (Nat.ne_of_lt before)]
  earlier := records.earlier

theorem records_new {outer : Option Nat} (around : ∀ scope ∈ outer, scope < count)
    (unset : ∀ name, earlier.latest count name = none) :
    (earlier.enclose outer around).Records count ⟨[], [], outer⟩ where
  binds name := (unset name).symm
  around := by
    rw [outward, if_pos rfl]
    cases outer with
    | none => rfl
    | some other => simp only [Option.elim_some, outward, if_neg (Nat.ne_of_lt (around other rfl))]
  earlier := around

theorem Records.set {changed : Nat} (there : changed < count) (records : earlier.Records index scope) {name : String}
    {value : Option Value} :
    (earlier.set changed there name value).Records index (if changed = index then scope.set name value else scope) where
  binds other := by
    rw [latest]
    by_cases here : changed = index
    · rw [if_pos here, Scope.find?_set, records.binds]
      simp only [here, true_and, eq_comm]
    · rw [if_neg here, records.binds]
      simp only [here, false_and, if_false]
  around := by
    rw [outward, records.around]
    split <;> rfl
  earlier := by
    split
    · exact records.earlier
    · exact records.earlier

/-- Nothing was set in a scope that was not made yet. -/
theorem latest_eq_none (history : History count) {scope : Nat} (later : count ≤ scope) (name : String) :
    history.latest scope name = none := by
  induction history with
  | nothing => rfl
  | enclose earlier outer around ih => exact ih (Nat.le_of_succ_le later)
  | set earlier changed there word value ih =>
    have other : ¬(changed = scope ∧ word = name) := fun ⟨same, _⟩ => absurd (same ▸ there) (Nat.not_lt_of_le later)
    rw [latest, if_neg other]
    exact ih later

theorem records (history : History count) : AtEach history.world.scopes history.Records := by
  induction history with
  | nothing => exact fun index scope place => nomatch place
  | @enclose made earlier outer around ih =>
    have size := earlier.size_world
    have kept : AtEach earlier.world.scopes (earlier.enclose outer around).Records := by
      intro index scope place
      have there := (Array.getElem?_eq_some_iff.mp place).1
      exact (ih index scope place).enclose (size ▸ there)
    refine kept.push ?_
    rw [size]
    exact records_new around fun name => earlier.latest_eq_none (Nat.le_refl made) name
  | set earlier changed there name value ih =>
    intro index scope place
    rw [world, World.set, Array.getElem?_modify] at place
    split at place
    next here =>
      obtain ⟨old, before, rfl⟩ := Option.map_eq_some_iff.mp place
      simpa only [if_pos here] using (ih index old before).set there
    next elsewhere =>
      simpa only [if_neg elsewhere] using (ih index scope place).set there

/-- A lookup that ends has found the meaning. -/
theorem meaning_of_finds {history : History count} {scope : Nat} {name : String} {result : Option Value}
    (finds : Finds history.world.scopes name scope result) : history.meaning scope name = result := by
  induction finds with
  | bound place binds =>
    have records := history.records _ _ place
    rw [meaning, records.around, List.findSome?_cons, ← records.binds, binds]
    rfl
  | unbound place free last =>
    have records := history.records _ _ place
    rw [meaning, records.around, List.findSome?_cons, ← records.binds, free, last]
    rfl
  | outward place free around later ih =>
    have records := history.records _ _ place
    rw [meaning, records.around, List.findSome?_cons, ← records.binds, free, around]
    exact ih

/-- Every lookup ends, wherever the scopes lead, and finds the meaning. -/
theorem finds_meaning (history : History count) {scope : Nat} (there : scope < count) (name : String) :
    Finds history.world.scopes name scope (history.meaning scope name) ∧
      history.world.get scope name = history.meaning scope name := by
  have earlier : ∀ (index : Nat) inside, history.world.scopes[index]? = some inside →
      ∀ outer, inside.outer = some outer → outer < index :=
    fun index inside place => (history.records index inside place).earlier
  have finds := World.finds earlier (history.size_world.symm ▸ there) name
  have meant := meaning_of_finds finds
  exact ⟨meant ▸ finds, meant.symm⟩

/-- Where two searches differ at one place only and in what they come to, they reach that place. -/
theorem findSome?_changed {α β : Type} {search search' : α → Option β} {place : α} {items : List α}
    (others : ∀ item, item ≠ place → search' item = search item)
    (differs : items.findSome? search' ≠ items.findSome? search) :
    ∃ nearer farther, items = nearer ++ place :: farther ∧ ∀ item ∈ nearer, search item = none := by
  induction items with
  | nil => exact absurd rfl differs
  | cons item items ih =>
    by_cases here : item = place
    · exact ⟨[], items, by rw [here, List.nil_append], nofun⟩
    · rw [List.findSome?_cons, List.findSome?_cons, others item here] at differs
      cases found : search item with
      | some value => simp only [found, ne_eq, not_true_eq_false] at differs
      | none =>
        rw [found] at differs
        obtain ⟨nearer, farther, rfl, free⟩ := ih differs
        exact ⟨item :: nearer, farther, rfl, List.forall_mem_cons.mpr ⟨found, free⟩⟩

/-- After any history, a lookup ends and gives what the name was set to last in the nearest scope in which it was ever
set, from the scope outward; without such a scope, or if it was set to nothing there, the name is not contained. One more
setting changes what is found for its own name only, from scopes outward of which its scope lies, with none nearer that
has the name. -/
theorem innermost_binding_found (history : History count) :
    (∀ scope < count, ∀ name,
      Finds history.world.scopes name scope (history.world.get scope name) ∧
      history.world.get scope name = history.meaning scope name ∧
      (history.world.contains scope name = true ↔ history.meaning scope name ≠ none)) ∧
    ∀ changed, (there : changed < count) → ∀ name value, ∀ scope < count, ∀ other,
      (history.set changed there name value).world.get scope other ≠ history.world.get scope other →
      other = name ∧ ∃ nearer farther, history.outward scope = nearer ++ changed :: farther ∧
        ∀ inside ∈ nearer, history.latest inside name = none := by
  constructor
  · intro scope there name
    obtain ⟨finds, meant⟩ := history.finds_meaning there name
    refine ⟨meant ▸ finds, meant, ?_⟩
    rw [World.contains, meant, Option.isSome_iff_ne_none]
  · intro changed there name value scope inside other differs
    rw [(finds_meaning _ inside other).2, (finds_meaning _ inside other).2] at differs
    have searches : (history.outward scope).findSome? (fun place => (history.set changed there name value).latest place other) ≠
        (history.outward scope).findSome? fun place => history.latest place other := fun same => differs (congrArg Option.join same)
    have own : other = name := by
      by_contra foreign
      refine searches (congrArg (List.findSome? · _) (funext fun place => ?_))
      exact if_neg fun ⟨_, same⟩ => foreign same.symm
    subst own
    refine ⟨rfl, findSome?_changed (fun place elsewhere => ?_) searches⟩
    exact if_neg fun ⟨same, _⟩ => elsewhere same.symm

/-- Three scopes, one inside the other: `x` is set in the outermost one and to nothing in the middle one, and `y` is set in
the outermost one after all of them were made. -/
def hidden : History 3 :=
  let outermost := History.nothing.enclose none nofun |>.set 0 (by decide) "x" (some (.integer 1))
  let middle := outermost.enclose (some 0) (by decide) |>.set 1 (by decide) "x" none
  middle.enclose (some 1) (by decide) |>.set 0 (by decide) "y" (some (.integer 5))

theorem hidden_binding_found :
    Finds hidden.world.scopes "x" 2 (hidden.world.get 2 "x") ∧ hidden.world.get 2 "x" = none ∧
    hidden.world.contains 2 "x" = false ∧ hidden.world.get 2 "y" = some (.integer 5) ∧
    (hidden.set 0 (by decide) "y" (some .null)).world.get 2 "y" ≠ hidden.world.get 2 "y" ∧
    ∃ nearer farther, hidden.outward 2 = nearer ++ 0 :: farther ∧ ∀ inside ∈ nearer, hidden.latest inside "y" = none := by
  have found := innermost_binding_found hidden
  obtain ⟨finds, nothing, contained⟩ := found.1 2 (by decide) "x"
  have seen := (found.1 2 (by decide) "y").2.1
  have changed : (hidden.set 0 (by decide) "y" (some .null)).world.get 2 "y" ≠ hidden.world.get 2 "y" := by
    rw [seen, ((innermost_binding_found _).1 2 (by decide) "y").2.1]
    exact nofun
  refine ⟨finds, nothing, Bool.eq_false_iff.mpr fun wrong => contained.mp wrong rfl, seen, changed, ?_⟩
  exact (found.2 0 (by decide) "y" (some .null) 2 (by decide) "y" changed).2

end History

end MonkeyLang
