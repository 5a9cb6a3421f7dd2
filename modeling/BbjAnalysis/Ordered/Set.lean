import BbjAnalysis.Ordered.Map

/-! # Sets in ascending order

The members are a strictly ascending list: a set has one form, and two sets with the
same members are equal (`ext_mem`).
-/

namespace BbjAnalysis

/-- Members in strictly ascending order. -/
structure OrderedSet (α : Type) [LT α] where
  toList : List α
  ascending : toList.Pairwise (· < ·)

namespace OrderedSet

variable {α : Type} [LT α]

/-- The set without members. -/
def empty : OrderedSet α := ⟨[], .nil⟩

instance : EmptyCollection (OrderedSet α) := ⟨empty⟩

instance : Membership α (OrderedSet α) := ⟨fun s a => a ∈ s.toList⟩

instance [DecidableEq α] : DecidableEq (OrderedSet α) := fun a b =>
  decidable_of_iff (a.toList = b.toList)
    ⟨fun h => by cases a; cases b; simp_all, fun h => h ▸ rfl⟩

instance [DecidableEq α] (a : α) (s : OrderedSet α) : Decidable (a ∈ s) :=
  inferInstanceAs (Decidable (a ∈ s.toList))

def size (s : OrderedSet α) : Nat := s.toList.length

def isEmpty (s : OrderedSet α) : Bool := s.toList.isEmpty

/-- The members that pass a test. -/
def filter (p : α → Bool) (s : OrderedSet α) : OrderedSet α :=
  ⟨s.toList.filter p, s.ascending.filter p⟩

@[simp] theorem not_mem_empty (a : α) : a ∉ (empty : OrderedSet α) := List.not_mem_nil

variable [DecidableLT α]

/-- Puts `a` into an ascending list that may have it already. -/
def insertIn (a : α) : List α → List α
  | [] => [a]
  | b :: rest => if a < b then a :: b :: rest else if b < a then b :: insertIn a rest else b :: rest

section Linear

variable [LE α] [Std.IsLinearOrder α] [Std.LawfulOrderLT α]

theorem mem_insertIn {a b : α} {l : List α} : b ∈ insertIn a l ↔ b = a ∨ b ∈ l := by
  fun_induction insertIn a l with
  | case1 => simp
  | case2 => simp
  | case3 c rest _ _ ih => simp [ih, or_left_comm]
  | case4 c rest h h' =>
      obtain rfl := OrderedMap.eq_of_not_lt h h'
      simp

theorem ascending_insertIn (a : α) {l : List α} (h : l.Pairwise (· < ·)) :
    (insertIn a l).Pairwise (· < ·) := by
  fun_induction insertIn a l with
  | case1 => simp
  | case2 b rest hb =>
      refine .cons (fun c hc => ?_) h
      rcases List.mem_cons.1 hc with rfl | hc
      · exact hb
      · exact Std.lt_trans hb (List.rel_of_pairwise_cons h hc)
  | case3 b rest _ hb ih =>
      refine .cons (fun c hc => ?_) (ih h.of_cons)
      rcases mem_insertIn.1 hc with rfl | hc
      · exact hb
      · exact List.rel_of_pairwise_cons h hc
  | case4 => exact h

/-- The set with `a` among its members. -/
def insert (s : OrderedSet α) (a : α) : OrderedSet α :=
  ⟨insertIn a s.toList, ascending_insertIn a s.ascending⟩

/-- The set without `a`. -/
def erase (s : OrderedSet α) (a : α) : OrderedSet α := s.filter fun b => b < a || a < b

/-- The set with all members of a list added. -/
def insertMany (s : OrderedSet α) (l : List α) : OrderedSet α := l.foldl insert s

/-- The set of the members of a list. -/
def ofList (l : List α) : OrderedSet α := empty.insertMany l

def union (s t : OrderedSet α) : OrderedSet α := s.insertMany t.toList

/-- The members of `s` that are not in `t`. -/
def diff [DecidableEq α] (s t : OrderedSet α) : OrderedSet α := s.filter fun a => a ∉ t

@[simp] theorem mem_insert {s : OrderedSet α} {a b : α} : b ∈ s.insert a ↔ b = a ∨ b ∈ s :=
  mem_insertIn

theorem mem_insertMany {s : OrderedSet α} {l : List α} {a : α} :
    a ∈ s.insertMany l ↔ a ∈ s ∨ a ∈ l := by
  induction l generalizing s with
  | nil => simp [insertMany]
  | cons b rest ih =>
      have := ih (s := s.insert b)
      rw [insertMany, List.foldl_cons, ← insertMany, this, mem_insert, List.mem_cons]
      exact ⟨fun h => by rcases h with (h | h) | h <;> simp [h],
        fun h => by rcases h with h | h | h <;> simp [h]⟩

@[simp] theorem mem_ofList {l : List α} {a : α} : a ∈ ofList l ↔ a ∈ l := by
  rw [ofList, mem_insertMany]
  exact ⟨fun h => h.resolve_left (not_mem_empty a), .inr⟩

@[simp] theorem mem_union {s t : OrderedSet α} {a : α} : a ∈ s.union t ↔ a ∈ s ∨ a ∈ t :=
  mem_insertMany

@[simp] theorem mem_erase {s : OrderedSet α} {a b : α} : b ∈ s.erase a ↔ b ≠ a ∧ b ∈ s := by
  show b ∈ s.toList.filter _ ↔ _ ∧ b ∈ s.toList
  rw [List.mem_filter, and_comm]
  refine and_congr_left fun _ => ⟨fun h e => ?_, fun h => ?_⟩
  · subst e; simp [Std.lt_irrefl] at h
  · rcases Std.lt_trichotomy b a with c | c | c <;> simp_all

omit [DecidableLT α] in
theorem ext_mem {s t : OrderedSet α} (e : ∀ a, a ∈ s ↔ a ∈ t) : s = t := by
  have same : s.toList = t.toList :=
    OrderedMap.eq_of_mem_iff (fun _ => Std.lt_irrefl) (fun _ _ _ => Std.lt_trans)
      s.ascending t.ascending e
  cases s
  cases t
  simp_all

end Linear

end OrderedSet

end BbjAnalysis
