import BbjAnalysis.Proofs.Ordered.Map
import BbjAnalysis.Workspace.Dependencies
import Mathlib.Data.List.Induction

/-! # The reverse tables of dependencies

What documents depend on is kept in both directions. The reverse tables are exact
(`Exact`): a document stands under a name or target iff that is among what it was last
recorded to depend on, and nothing is without users. Hence `dependents` finds every
document that a change concerns (`Exact.mem_dependents`), after any run of recordings and
removals (`run_reverses`).
-/

namespace BbjAnalysis.Dependencies

section Users

variable {κ : Type} [LT κ] [LE κ] [DecidableLT κ] [DecidableEq κ] [Std.IsLinearOrder κ]
  [Std.LawfulOrderLT κ]

omit [LE κ] [DecidableEq κ] [Std.IsLinearOrder κ] [Std.LawfulOrderLT κ] in
/-- The users under a key, none if the key is not there. -/
def usersOf (users : OrderedMap κ (OrderedSet DocumentId)) (key : κ) : OrderedSet DocumentId :=
  (users.get? key).getD ∅

variable {users : OrderedMap κ (OrderedSet DocumentId)} {d x : DocumentId}

theorem not_mem_emptyCollection (x : DocumentId) : x ∉ (∅ : OrderedSet DocumentId) :=
  List.not_mem_nil

theorem mem_usersOf_addUser {key other : κ} :
    x ∈ usersOf (addUser d users key) other ↔
      x ∈ usersOf users other ∨ other = key ∧ x = d := by
  rw [usersOf, addUser, OrderedMap.get?_insert]
  by_cases same : other = key
  · rw [if_pos same, same, Option.getD_some, OrderedSet.mem_insert]
    simp only [true_and]
    exact or_comm
  · simp only [same, false_and, or_false]
    rfl

theorem mem_usersOf_dropUser {key other : κ} :
    x ∈ usersOf (dropUser d users key) other ↔
      x ∈ usersOf users other ∧ ¬ (other = key ∧ x = d) := by
  unfold dropUser
  cases present : users.get? key with
  | none =>
      constructor
      · intro member
        refine ⟨member, ?_⟩
        rintro ⟨rfl, -⟩
        rw [usersOf, present] at member
        exact not_mem_emptyCollection x member
      · exact fun member => member.1
  | some set =>
      by_cases same : other = key
      · subst same
        have before : usersOf users other = set := by rw [usersOf, present]; rfl
        have after : usersOf (if (set.erase d).isEmpty then users.erase other
            else users.insert other (set.erase d)) other = set.erase d := by
          split
          · next empty =>
              rw [usersOf, OrderedMap.get?_erase, if_pos rfl]
              refine (OrderedSet.ext_mem fun y => ?_).symm
              have none : (set.erase d).toList = [] := List.isEmpty_iff.mp empty
              show y ∈ (set.erase d).toList ↔ y ∈ ([] : List DocumentId)
              rw [none]
          · rw [usersOf, OrderedMap.get?_insert, if_pos rfl, Option.getD_some]
        dsimp only
        rw [after, before, OrderedSet.mem_erase]
        simp only [true_and]
        exact and_comm
      · have untouched : usersOf (if (set.erase d).isEmpty then users.erase key
            else users.insert key (set.erase d)) other = usersOf users other := by
          split
          · rw [usersOf, OrderedMap.get?_erase, if_neg same, usersOf]
          · rw [usersOf, OrderedMap.get?_insert, if_neg same, usersOf]
        dsimp only
        rw [untouched]
        simp only [same, false_and, not_false_eq_true, and_true]

theorem mem_usersOf_foldl_addUser {keys : List κ} {other : κ} :
    x ∈ usersOf (keys.foldl (addUser d) users) other ↔
      x ∈ usersOf users other ∨ other ∈ keys ∧ x = d := by
  induction keys generalizing users with
  | nil => simp
  | cons key rest ih =>
      rw [List.foldl_cons, ih, mem_usersOf_addUser, List.mem_cons, or_assoc, or_and_right]

theorem mem_usersOf_foldl_dropUser {keys : List κ} {other : κ} :
    x ∈ usersOf (keys.foldl (dropUser d) users) other ↔
      x ∈ usersOf users other ∧ ¬ (other ∈ keys ∧ x = d) := by
  induction keys generalizing users with
  | nil => simp
  | cons key rest ih =>
      rw [List.foldl_cons, ih, mem_usersOf_dropUser, List.mem_cons, and_assoc, or_and_right,
        not_or]

/-- No key is without users. -/
def Inhabited (users : OrderedMap κ (OrderedSet DocumentId)) : Prop :=
  ∀ key, users.get? key ≠ some ∅

theorem Inhabited.addUser (inhabited : Inhabited users) (d : DocumentId) (key : κ) :
    Inhabited (addUser d users key) := by
  intro other
  rw [Dependencies.addUser, OrderedMap.get?_insert]
  split
  · intro empty
    have member : d ∈ ((users.get? key).getD ∅).insert d := OrderedSet.mem_insert.mpr (.inl rfl)
    rw [Option.some.inj empty] at member
    exact not_mem_emptyCollection d member
  · exact inhabited other

theorem Inhabited.dropUser (inhabited : Inhabited users) (d : DocumentId) (key : κ) :
    Inhabited (dropUser d users key) := by
  intro other
  unfold Dependencies.dropUser
  split
  · exact inhabited other
  · dsimp only
    split
    · rw [OrderedMap.get?_erase]
      split
      · intro empty
        cases empty
      · exact inhabited other
    · next kept =>
        rw [OrderedMap.get?_insert]
        split
        · intro empty
          rw [Option.some.inj empty] at kept
          exact kept rfl
        · exact inhabited other

omit [LE κ] [DecidableEq κ] [Std.IsLinearOrder κ] [Std.LawfulOrderLT κ] in
theorem Inhabited.foldl {step : OrderedMap κ (OrderedSet DocumentId) → κ →
      OrderedMap κ (OrderedSet DocumentId)}
    (keeps : ∀ users key, Inhabited users → Inhabited (step users key)) (keys : List κ)
    (inhabited : Inhabited users) : Inhabited (keys.foldl step users) := by
  induction keys generalizing users with
  | nil => exact inhabited
  | cons key rest ih => exact ih (keeps _ _ inhabited)

/-- A reverse table says which keys are recorded of which documents, and nothing else. -/
structure Reverses (keysOf : Dependence → OrderedSet κ)
    (forward : OrderedMap DocumentId Dependence)
    (users : OrderedMap κ (OrderedSet DocumentId)) : Prop where
  mem_iff : ∀ {x key}, x ∈ usersOf users key ↔ ∃ e, forward.get? x = some e ∧ key ∈ keysOf e
  inhabited : Inhabited users

variable {keysOf : Dependence → OrderedSet κ} {forward : OrderedMap DocumentId Dependence}

omit [LE κ] [DecidableEq κ] [Std.IsLinearOrder κ] [Std.LawfulOrderLT κ] in
theorem reverses_empty : Reverses keysOf ∅ ∅ where
  mem_iff {x key} := by
    constructor
    · intro member
      exact absurd member (not_mem_emptyCollection x)
    · rintro ⟨d, present, -⟩
      cases present
  inhabited _ := nofun

theorem Reverses.erase (reverses : Reverses keysOf forward users) {e : Dependence}
    (present : forward.get? d = some e) :
    Reverses keysOf (forward.erase d)
      ((keysOf e).toList.foldl (Dependencies.dropUser d) users) where
  mem_iff {x key} := by
    rw [mem_usersOf_foldl_dropUser, reverses.mem_iff, OrderedMap.get?_erase]
    by_cases same : x = d
    · subst same
      simp only [present, Option.some.injEq, exists_eq_left', if_true, and_true, reduceCtorEq,
        false_and, exists_false, iff_false]
      exact fun member => member.2 member.1
    · simp only [same, if_false, and_false, not_false_eq_true, and_true]
  inhabited := reverses.inhabited.foldl (fun _ key kept => kept.dropUser d key) _

theorem Reverses.insert (reverses : Reverses keysOf forward users)
    (absent : forward.get? d = none) (e : Dependence) :
    Reverses keysOf (forward.insert d e)
      ((keysOf e).toList.foldl (Dependencies.addUser d) users) where
  mem_iff {x key} := by
    rw [mem_usersOf_foldl_addUser, reverses.mem_iff, OrderedMap.get?_insert]
    by_cases same : x = d
    · subst same
      simp only [absent, reduceCtorEq, false_and, exists_false, false_or, and_true, if_true,
        Option.some.injEq, exists_eq_left']
      rfl
    · simp only [same, and_false, or_false, if_false]
  inhabited := reverses.inhabited.foldl (fun _ key kept => kept.addUser d key) _

end Users

/-- Both reverse tables say what is recorded, and nothing else. -/
structure Exact (g : Dependencies) : Prop where
  byName : Reverses Dependence.names g.forward g.byName
  byTarget : Reverses Dependence.targets g.forward g.byTarget

theorem exact_empty : empty.Exact := ⟨reverses_empty, reverses_empty⟩

theorem get?_remove (g : Dependencies) (document x : DocumentId) :
    (g.remove document).forward.get? x =
      if x = document then none else g.forward.get? x := by
  unfold remove
  split
  · next absent =>
      split
      · next same => rw [same, absent]
      · rfl
  · rw [OrderedMap.get?_erase]

theorem get?_record (g : Dependencies) (document x : DocumentId) (d : Dependence) :
    (g.record document d).forward.get? x =
      if x = document then some d else g.forward.get? x := by
  rw [record, OrderedMap.get?_insert]
  split
  · rfl
  · next other => rw [get?_remove, if_neg other]

theorem Exact.remove {g : Dependencies} (exact_ : g.Exact) (document : DocumentId) :
    (g.remove document).Exact := by
  unfold Dependencies.remove
  split
  · exact exact_
  · next d present => exact ⟨exact_.byName.erase present, exact_.byTarget.erase present⟩

theorem Exact.record {g : Dependencies} (exact_ : g.Exact) (document : DocumentId)
    (d : Dependence) : (g.record document d).Exact := by
  have removed := exact_.remove document
  have absent : (g.remove document).forward.get? document = none := by
    rw [get?_remove, if_pos rfl]
  exact ⟨removed.byName.insert absent d, removed.byTarget.insert absent d⟩

theorem mem_dependents {g : Dependencies} {changed x : DocumentId} {names : List String} :
    x ∈ g.dependents changed names ↔
      x ≠ changed ∧
        (x ∈ usersOf g.byTarget changed ∨ ∃ name ∈ names, x ∈ usersOf g.byName name) := by
  have folded (l : List String) (s : OrderedSet DocumentId) :
      x ∈ l.foldl (fun s name => s.union ((g.byName.get? name).getD ∅)) s ↔
        x ∈ s ∨ ∃ name ∈ l, x ∈ usersOf g.byName name := by
    induction l generalizing s with
    | nil => simp
    | cons name rest ih =>
        rw [List.foldl_cons, ih, OrderedSet.mem_union, or_assoc]
        simp only [List.mem_cons, exists_eq_or_imp]
        rfl
  simp only [dependents]
  rw [OrderedSet.mem_erase, folded]
  rfl

/-- The dependents of a change are the other documents that last were bound into the document or
looked up one of the names. -/
theorem Exact.mem_dependents {g : Dependencies} (exact_ : g.Exact) {changed x : DocumentId}
    {names : List String} :
    x ∈ g.dependents changed names ↔
      x ≠ changed ∧ ∃ d, g.forward.get? x = some d ∧
        (changed ∈ d.targets ∨ ∃ name ∈ names, name ∈ d.names) := by
  rw [Dependencies.mem_dependents, exact_.byTarget.mem_iff]
  simp only [exact_.byName.mem_iff]
  grind

/-! ## Runs -/

/-- What can be done with dependencies. -/
inductive Operation where
  | record (document : DocumentId) (d : Dependence)
  | remove (document : DocumentId)

namespace Operation

/-- The document that an operation is about. -/
def document : Operation → DocumentId
  | .record document _ | .remove document => document

/-- What is recorded of its document after an operation. -/
def outcome : Operation → Option Dependence
  | .record _ d => some d
  | .remove _ => none

end Operation

def perform (g : Dependencies) : Operation → Dependencies
  | .record document d => g.record document d
  | .remove document => g.remove document

def run (g : Dependencies) (ops : List Operation) : Dependencies := ops.foldl perform g

/-- What a document was last recorded to depend on, unless it was removed since. -/
def lastRecorded (document : DocumentId) (ops : List Operation) : Option Dependence :=
  (ops.reverse.find? (·.document == document)).bind Operation.outcome

theorem lastRecorded_concat (document : DocumentId) (ops : List Operation) (op : Operation) :
    lastRecorded document (ops ++ [op]) =
      if document = op.document then op.outcome else lastRecorded document ops := by
  unfold lastRecorded
  rw [List.reverse_concat, List.find?_cons]
  by_cases same : document = op.document
  · subst same
    simp
  · have other : (op.document == document) = false := beq_false_of_ne (Ne.symm same)
    simp [same, other]

theorem get?_perform (g : Dependencies) (op : Operation) (x : DocumentId) :
    (g.perform op).forward.get? x =
      if x = op.document then op.outcome else g.forward.get? x := by
  cases op with
  | record document d => exact get?_record g document x d
  | remove document => exact get?_remove g document x

theorem Exact.perform {g : Dependencies} (exact_ : g.Exact) (op : Operation) :
    (g.perform op).Exact := by
  cases op with
  | record document d => exact exact_.record document d
  | remove document => exact exact_.remove document

theorem Exact.run {g : Dependencies} (exact_ : g.Exact) (ops : List Operation) :
    (g.run ops).Exact := by
  induction ops generalizing g with
  | nil => exact exact_
  | cons op rest ih => exact ih (exact_.perform op)

/-- A run leaves of each document what was recorded of it last. -/
theorem get?_run (ops : List Operation) (x : DocumentId) :
    (empty.run ops).forward.get? x = lastRecorded x ops := by
  induction ops using List.reverseRecOn with
  | nil => rfl
  | append_singleton ops op ih =>
      have last : empty.run (ops ++ [op]) = (empty.run ops).perform op := by
        simp only [run, List.foldl_append, List.foldl_cons, List.foldl_nil]
      rw [last, get?_perform, lastRecorded_concat, ih]

/-- After any run of recordings and removals, the reverse tables say what is recorded and nothing
else, no name and no target is without users, and what is recorded of a document is what was
recorded of it last, unless it was removed since. The dependents of a change are then the other
documents whose last record has the document as a target or one of the names, whether or not the
document itself is still there. -/
theorem run_reverses (ops : List Operation) :
    (∀ d name, d ∈ usersOf (empty.run ops).byName name ↔
      ∃ e, (empty.run ops).forward.get? d = some e ∧ name ∈ e.names) ∧
      (∀ d target, d ∈ usersOf (empty.run ops).byTarget target ↔
        ∃ e, (empty.run ops).forward.get? d = some e ∧ target ∈ e.targets) ∧
      (∀ name, (empty.run ops).byName.get? name ≠ some ∅) ∧
      (∀ target, (empty.run ops).byTarget.get? target ≠ some ∅) ∧
      (∀ d, (empty.run ops).forward.get? d = lastRecorded d ops) ∧
      ∀ changed names d, d ∈ (empty.run ops).dependents changed names ↔
        d ≠ changed ∧ ∃ e, lastRecorded d ops = some e ∧
          (changed ∈ e.targets ∨ ∃ name ∈ names, name ∈ e.names) := by
  have exact_ : (empty.run ops).Exact := exact_empty.run ops
  refine ⟨fun d name => exact_.byName.mem_iff, fun d target => exact_.byTarget.mem_iff,
    exact_.byName.inhabited, exact_.byTarget.inhabited, get?_run ops, ?_⟩
  intro changed names d
  rw [exact_.mem_dependents, get?_run]

/-- A document that depends on itself and on a document that is removed afterwards. -/
example :
    let ops : List Operation := [.record 1 ⟨.ofList ["a"], .ofList [1, 2]⟩,
      .record 2 ⟨.ofList ["a", "b"], ∅⟩, .record 2 ⟨.ofList ["c"], ∅⟩, .remove 2]
    (empty.run ops).byName.keys = ["a"] ∧
      ((empty.run ops).dependents 2 []).toList = [1] ∧
      ((empty.run ops).dependents 1 ["a"]).toList = [] := by
  decide +kernel

end BbjAnalysis.Dependencies
