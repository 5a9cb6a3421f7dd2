/-! # Maps in ascending order of their keys

The entries are a list with strictly ascending keys, so that equal maps are equal
lists and every listing of a map has one order. `get?_insert` and `get?_erase` say
what the two changing operations do to the look-up, and `ext_get?` that the look-up
is all there is.
-/

namespace BbjAnalysis

/-- Entries with strictly ascending keys. -/
structure OrderedMap (κ ν : Type) [LT κ] where
  entries : List (κ × ν)
  ascending : entries.Pairwise fun a b => a.1 < b.1

namespace OrderedMap

variable {κ ν : Type} [LT κ]

/-- The map without entries. -/
def empty : OrderedMap κ ν := ⟨[], .nil⟩

instance : EmptyCollection (OrderedMap κ ν) := ⟨empty⟩

instance [DecidableEq κ] [DecidableEq ν] : DecidableEq (OrderedMap κ ν) := fun a b =>
  decidable_of_iff (a.entries = b.entries)
    ⟨fun h => by cases a; cases b; simp_all, fun h => h ▸ rfl⟩

def keys (m : OrderedMap κ ν) : List κ := m.entries.map (·.1)

def values (m : OrderedMap κ ν) : List ν := m.entries.map (·.2)

def size (m : OrderedMap κ ν) : Nat := m.entries.length

def isEmpty (m : OrderedMap κ ν) : Bool := m.entries.isEmpty

variable [DecidableLT κ]

/-- The value in a list of entries under the first key that is neither below nor above `k`. -/
def lookupIn (k : κ) : List (κ × ν) → Option ν
  | [] => none
  | (k', v) :: rest => if k < k' then none else if k' < k then lookupIn k rest else some v

/-- Puts `v` under `k` into ascending entries, in place of a value that is there. -/
def insertIn (k : κ) (v : ν) : List (κ × ν) → List (κ × ν)
  | [] => [(k, v)]
  | (k', v') :: rest =>
      if k < k' then (k, v) :: (k', v') :: rest
      else if k' < k then (k', v') :: insertIn k v rest
      else (k, v) :: rest

/-- The value under `k`. -/
def get? (m : OrderedMap κ ν) (k : κ) : Option ν := lookupIn k m.entries

def contains (m : OrderedMap κ ν) (k : κ) : Bool := (m.get? k).isSome

theorem mem_insertIn {k : κ} {v : ν} {l : List (κ × ν)} {e : κ × ν}
    (h : e ∈ insertIn k v l) : e = (k, v) ∨ e ∈ l := by
  fun_induction insertIn k v l with
  | case1 => simpa using h
  | case2 => simpa using h
  | case3 _ _ rest _ _ ih =>
      rcases List.mem_cons.1 h with h | h
      · exact .inr (by simp [h])
      · exact (ih h).imp id (fun h => by simp [h])
  | case4 =>
      rcases List.mem_cons.1 h with h | h
      · exact .inl h
      · exact .inr (by simp [h])

theorem lookupIn_eq_none_of_lt {k : κ} {l : List (κ × ν)} (h : ∀ e ∈ l, k < e.1) :
    lookupIn k l = none := by
  cases l with
  | nil => rfl
  | cons e rest => simp [lookupIn, h e (by simp)]

@[simp] theorem get?_empty (k : κ) : (empty : OrderedMap κ ν).get? k = none := rfl

section Linear

variable [LE κ] [Std.IsLinearOrder κ] [Std.LawfulOrderLT κ]

omit [DecidableLT κ] in
/-- Neither below nor above means equal. -/
theorem eq_of_not_lt {a b : κ} (h : ¬ a < b) (h' : ¬ b < a) : a = b :=
  (Std.lt_trichotomy a b).resolve_left h |>.resolve_right h'

theorem ascending_insertIn (k : κ) (v : ν) {l : List (κ × ν)}
    (h : l.Pairwise fun a b => a.1 < b.1) :
    (insertIn k v l).Pairwise fun a b => a.1 < b.1 := by
  fun_induction insertIn k v l with
  | case1 => simp
  | case2 k' v' rest hk =>
      refine .cons (fun e he => ?_) h
      rcases List.mem_cons.1 he with rfl | he
      · exact hk
      · exact Std.lt_trans hk (List.rel_of_pairwise_cons h he)
  | case3 k' v' rest _ hk ih =>
      refine .cons (fun e he => ?_) (ih h.of_cons)
      rcases mem_insertIn he with rfl | he
      · exact hk
      · exact List.rel_of_pairwise_cons h he
  | case4 k' v' rest hk hk' =>
      obtain rfl := eq_of_not_lt hk hk'
      exact .cons (fun e he => List.rel_of_pairwise_cons h he) h.of_cons

/-- The map with `v` under `k`. -/
def insert (m : OrderedMap κ ν) (k : κ) (v : ν) : OrderedMap κ ν :=
  ⟨insertIn k v m.entries, ascending_insertIn k v m.ascending⟩

/-- The map without the key `k`. -/
def erase (m : OrderedMap κ ν) (k : κ) : OrderedMap κ ν :=
  ⟨m.entries.filter fun e => e.1 < k || k < e.1, m.ascending.filter _⟩

/-- The map with `f` applied to the value under `k`, if there is one. -/
def adjust (m : OrderedMap κ ν) (k : κ) (f : ν → ν) : OrderedMap κ ν :=
  match m.get? k with
  | some v => m.insert k (f v)
  | none => m

/-- The map that arises when the entries are put in one after the other. -/
def ofList (l : List (κ × ν)) : OrderedMap κ ν :=
  l.foldl (fun m e => m.insert e.1 e.2) empty

theorem lookupIn_insertIn (k j : κ) (v : ν) (l : List (κ × ν)) :
    lookupIn j (insertIn k v l) =
      if j < k ∨ k < j then lookupIn j l else some v := by
  fun_induction insertIn k v l with
  | case1 => by_cases h : j < k <;> by_cases h' : k < j <;> simp [lookupIn, h, h']
  | case2 k' v' rest hk =>
      by_cases h : j < k
      · simp [lookupIn, h, Std.lt_trans h hk]
      · by_cases h' : k < j <;> simp [lookupIn, h, h']
  | case3 k' v' rest hk hk' ih =>
      rw [lookupIn, ih]
      by_cases h : j < k
      · simp [lookupIn, h]
      · by_cases h' : k < j
        · simp [lookupIn, h']
        · obtain rfl := eq_of_not_lt h h'
          simp [hk, hk', Std.lt_irrefl]
  | case4 k' v' rest hk hk' =>
      obtain rfl := eq_of_not_lt hk hk'
      by_cases h : j < k <;> by_cases h' : k < j <;> simp [lookupIn, h, h']

theorem lookupIn_erased (k j : κ) (l : List (κ × ν)) (h : l.Pairwise fun a b => a.1 < b.1) :
    lookupIn j (l.filter fun e => e.1 < k || k < e.1) =
      if j < k ∨ k < j then lookupIn j l else none := by
  induction l with
  | nil => simp [lookupIn]
  | cons e rest ih =>
      obtain ⟨k', v'⟩ := e
      have later : ∀ e ∈ rest, k' < e.1 := fun e he => List.rel_of_pairwise_cons h he
      by_cases hk : k' < k ∨ k < k'
      · have kept : (k' < k || k < k') = true := by simpa using hk
        rw [List.filter_cons_of_pos (by simpa using hk), lookupIn, lookupIn, ih h.of_cons]
        by_cases hj : j < k ∨ k < j
        · simp [hj]
        · obtain rfl := eq_of_not_lt (fun c => hj (.inl c)) (fun c => hj (.inr c))
          rcases hk with hk | hk <;> simp [hk, Std.lt_irrefl]
      · obtain rfl := eq_of_not_lt (fun c => hk (.inl c)) (fun c => hk (.inr c))
        rw [List.filter_cons_of_neg (by simpa using hk), ih h.of_cons]
        by_cases hj : j < k' ∨ k' < j
        · rw [if_pos hj, if_pos hj, lookupIn]
          rcases hj with hj | hj
          · rw [if_pos hj]
            exact lookupIn_eq_none_of_lt fun e he => Std.lt_trans hj (later e he)
          · rw [if_neg (fun c => Std.lt_irrefl (Std.lt_trans c hj)), if_pos hj]
        · rw [if_neg hj, if_neg hj]

theorem get?_insert [DecidableEq κ] (m : OrderedMap κ ν) (k j : κ) (v : ν) :
    (m.insert k v).get? j = if j = k then some v else m.get? j := by
  rw [get?, insert, lookupIn_insertIn]
  by_cases h : j = k
  · subst h; simp [Std.lt_irrefl]
  · have : j < k ∨ k < j := (Std.lt_trichotomy j k).elim .inl fun c => c.elim (absurd · h) .inr
    rw [if_pos this, if_neg h, get?]

theorem get?_erase [DecidableEq κ] (m : OrderedMap κ ν) (k j : κ) :
    (m.erase k).get? j = if j = k then none else m.get? j := by
  rw [get?, erase, lookupIn_erased _ _ _ m.ascending]
  by_cases h : j = k
  · subst h; simp [Std.lt_irrefl]
  · have : j < k ∨ k < j := (Std.lt_trichotomy j k).elim .inl fun c => c.elim (absurd · h) .inr
    rw [if_pos this, if_neg h, get?]

theorem lookupIn_eq_some_iff {k : κ} {v : ν} {l : List (κ × ν)}
    (h : l.Pairwise fun a b => a.1 < b.1) : lookupIn k l = some v ↔ (k, v) ∈ l := by
  induction l with
  | nil => simp [lookupIn]
  | cons e rest ih =>
      obtain ⟨k', v'⟩ := e
      have later : ∀ e ∈ rest, k' < e.1 := fun e he => List.rel_of_pairwise_cons h he
      rw [lookupIn, List.mem_cons]
      by_cases hk : k < k'
      · rw [if_pos hk]
        refine ⟨nofun, fun c => ?_⟩
        rcases c with c | c
        · rw [show k = k' from congrArg Prod.fst c] at hk
          exact absurd hk Std.lt_irrefl
        · exact absurd (Std.lt_trans hk (later _ c)) Std.lt_irrefl
      · rw [if_neg hk]
        by_cases hk' : k' < k
        · rw [if_pos hk', ih h.of_cons]
          refine ⟨.inr, fun c => c.resolve_left fun c => ?_⟩
          rw [show k = k' from congrArg Prod.fst c] at hk'
          exact absurd hk' Std.lt_irrefl
        · obtain rfl := eq_of_not_lt hk hk'
          rw [if_neg hk']
          refine ⟨fun c => .inl (by rw [Option.some.inj c]), fun c => ?_⟩
          rcases c with c | c
          · rw [(Prod.mk.inj c).2]
          · exact absurd (later _ c) Std.lt_irrefl

theorem get?_eq_some_iff {m : OrderedMap κ ν} {k : κ} {v : ν} :
    m.get? k = some v ↔ (k, v) ∈ m.entries :=
  lookupIn_eq_some_iff m.ascending

omit [DecidableLT κ] in
/-- A list that ascends strictly in some order is known by its members. -/
theorem eq_of_mem_iff {α : Type} {R : α → α → Prop} (irrefl : ∀ a, ¬ R a a)
    (trans : ∀ a b c, R a b → R b c → R a c) {l l' : List α} (h : l.Pairwise R)
    (h' : l'.Pairwise R) (e : ∀ a, a ∈ l ↔ a ∈ l') : l = l' := by
  induction l generalizing l' with
  | nil =>
      cases l' with
      | nil => rfl
      | cons b _ => exact absurd ((e b).2 (by simp)) List.not_mem_nil
  | cons a rest ih =>
      cases l' with
      | nil => exact absurd ((e a).1 (by simp)) List.not_mem_nil
      | cons b rest' =>
          have heads : a = b := by
            rcases List.mem_cons.1 ((e a).1 (by simp)) with c | c
            · exact c
            · rcases List.mem_cons.1 ((e b).2 (by simp)) with d | d
              · exact d.symm
              · exact absurd (trans _ _ _ (List.rel_of_pairwise_cons h d)
                  (List.rel_of_pairwise_cons h' c)) (irrefl _)
          subst heads
          refine congrArg _ (ih h.of_cons h'.of_cons fun c => ⟨fun m => ?_, fun m => ?_⟩)
          · refine (List.mem_cons.1 ((e c).1 (.tail _ m))).resolve_left fun c => ?_
            exact irrefl _ (c ▸ List.rel_of_pairwise_cons h m)
          · refine (List.mem_cons.1 ((e c).2 (.tail _ m))).resolve_left fun c => ?_
            exact irrefl _ (c ▸ List.rel_of_pairwise_cons h' m)

theorem ext_get? {m n : OrderedMap κ ν} (e : ∀ k, m.get? k = n.get? k) : m = n := by
  have same : m.entries = n.entries :=
    eq_of_mem_iff (R := fun a b => a.1 < b.1) (fun _ => Std.lt_irrefl)
      (fun _ _ _ => Std.lt_trans) m.ascending n.ascending
      fun (k, v) => by rw [← get?_eq_some_iff, ← get?_eq_some_iff, e]
  cases m
  cases n
  simp_all

end Linear

end OrderedMap

end BbjAnalysis
