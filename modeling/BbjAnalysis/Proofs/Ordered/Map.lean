import BbjAnalysis.Ordered.Set
import Mathlib.Data.Nat.Basic
import Mathlib.Order.Monotone.Basic

/-! # Looking into changed maps and sets

What the remaining operations of ordered maps do to the look-up, and what becomes of
maps and sets when their keys, members or values are replaced along a function. A
function that keeps the order of the keys keeps the order of the entries.
-/

namespace BbjAnalysis

namespace OrderedMap

section Keys

variable {κ ν : Type} [LT κ]

/-- The map with `f` applied to every value. -/
def mapValues {ν' : Type} (f : ν → ν') (m : OrderedMap κ ν) : OrderedMap κ ν' :=
  ⟨m.entries.map fun e => (e.1, f e.2), List.pairwise_map.mpr m.ascending⟩

variable [DecidableLT κ]

theorem get?_mapValues {ν' : Type} (f : ν → ν') (m : OrderedMap κ ν) (k : κ) :
    (m.mapValues f).get? k = (m.get? k).map f := by
  obtain ⟨entries, ascending⟩ := m
  simp only [get?, mapValues]
  clear ascending
  induction entries with
  | nil => rfl
  | cons e rest ih =>
      simp only [List.map_cons, lookupIn]
      split
      · rfl
      · split
        · exact ih
        · rfl

variable [LE κ] [Std.IsLinearOrder κ] [Std.LawfulOrderLT κ]

theorem mem_keys {m : OrderedMap κ ν} {k : κ} : k ∈ m.keys ↔ ∃ v, m.get? k = some v := by
  simp only [keys, List.mem_map, Prod.exists, get?_eq_some_iff]
  constructor
  · rintro ⟨k', v, member, rfl⟩
    exact ⟨v, member⟩
  · rintro ⟨v, member⟩
    exact ⟨k, v, member, rfl⟩

theorem mapValues_of_fixed {f : ν → ν} (fixed : ∀ v, f v = v) (m : OrderedMap κ ν) :
    m.mapValues f = m := by
  apply ext_get?
  intro k
  rw [get?_mapValues, funext fixed, Option.map_id']

omit [DecidableLT κ] [Std.IsLinearOrder κ] in
theorem nodup_keys (m : OrderedMap κ ν) : m.keys.Nodup := by
  refine List.pairwise_map.mpr (m.ascending.imp ?_)
  intro a b less same
  rw [same] at less
  exact Std.lt_irrefl less

variable [DecidableEq κ]

/-- A new key joins the others. -/
theorem keys_insert {m : OrderedMap κ ν} {k : κ} (fresh : m.get? k = none) (v : ν) :
    (m.insert k v).keys.Perm (k :: m.keys) := by
  have new : k ∉ m.keys := by
    rw [mem_keys, fresh]
    simp
  refine (List.perm_ext_iff_of_nodup (nodup_keys _)
    (List.nodup_cons.mpr ⟨new, nodup_keys m⟩)).mpr ?_
  intro j
  rw [List.mem_cons, mem_keys, mem_keys, get?_insert]
  by_cases same : j = k
  · simp [same]
  · simp [same]

theorem get?_adjust (m : OrderedMap κ ν) (k j : κ) (f : ν → ν) :
    (m.adjust k f).get? j = if j = k then (m.get? k).map f else m.get? j := by
  unfold adjust
  cases present : m.get? k with
  | none =>
      by_cases same : j = k
      · rw [if_pos same, same]
        exact present
      · rw [if_neg same]
  | some v =>
      dsimp only
      rw [get?_insert]
      rfl

theorem insert_mapValues {ν' : Type} (f : ν → ν') (m : OrderedMap κ ν) (k : κ) (v : ν) :
    (m.insert k v).mapValues f = (m.mapValues f).insert k (f v) := by
  apply ext_get?
  intro j
  simp only [get?_mapValues, get?_insert]
  split <;> rfl

end Keys

section Along

variable {ν ν' : Type}

/-- Two maps whose keys correspond along an order-preserving function list their entries in the
same order. -/
theorem entries_eq_map {σ : Nat → Nat} (mono : StrictMono σ) {f : ν → ν'}
    {m : OrderedMap Nat ν} {m' : OrderedMap Nat ν'}
    (forth : ∀ k, m'.get? (σ k) = (m.get? k).map f)
    (back : ∀ k' v, m'.get? k' = some v → ∃ k, k' = σ k) :
    m'.entries = m.entries.map fun e => (σ e.1, f e.2) := by
  have images : (m.entries.map fun e => (σ e.1, f e.2)).Pairwise fun a b => a.1 < b.1 :=
    List.pairwise_map.mpr (m.ascending.imp fun less => mono less)
  refine eq_of_mem_iff (R := fun a b => a.1 < b.1) (fun _ => Nat.lt_irrefl _)
    (fun _ _ _ => Nat.lt_trans) m'.ascending images ?_
  rintro ⟨k', v'⟩
  rw [← get?_eq_some_iff, List.mem_map]
  constructor
  · intro present
    obtain ⟨k, rfl⟩ := back k' v' present
    rw [forth k] at present
    obtain ⟨v, found, rfl⟩ := Option.map_eq_some_iff.mp present
    exact ⟨(k, v), get?_eq_some_iff.mp found, rfl⟩
  · rintro ⟨⟨k, v⟩, member, same⟩
    cases same
    rw [forth k, get?_eq_some_iff.mpr member]
    rfl

end Along

end OrderedMap

namespace OrderedSet

section Members

variable {α : Type} [LT α] [LE α] [Std.LawfulOrderLT α]

theorem nodup_toList (s : OrderedSet α) : s.toList.Nodup := by
  refine s.ascending.imp ?_
  rintro a _ less rfl
  exact Std.lt_irrefl less

/-- A new member joins the others. -/
theorem perm_insert [Std.IsLinearOrder α] [DecidableLT α] {s : OrderedSet α} {a : α}
    (fresh : a ∉ s) :
    (s.insert a).toList.Perm (a :: s.toList) := by
  refine (List.perm_ext_iff_of_nodup (nodup_toList _)
    (List.nodup_cons.mpr ⟨fresh, nodup_toList s⟩)).mpr ?_
  intro b
  rw [List.mem_cons]
  exact mem_insert

end Members

/-- The images of all members. -/
def image (σ : Nat → Nat) (s : OrderedSet Nat) : OrderedSet Nat := .ofList (s.toList.map σ)

theorem mem_image {σ : Nat → Nat} {s : OrderedSet Nat} {b : Nat} :
    b ∈ s.image σ ↔ ∃ a ∈ s, σ a = b := by
  rw [image, mem_ofList, List.mem_map]
  rfl

theorem image_insert (σ : Nat → Nat) (s : OrderedSet Nat) (a : Nat) :
    (s.insert a).image σ = (s.image σ).insert (σ a) := by
  apply ext_mem
  intro b
  simp only [mem_image, mem_insert]
  constructor
  · rintro ⟨c, rfl | member, rfl⟩
    · exact .inl rfl
    · exact .inr ⟨c, member, rfl⟩
  · rintro (rfl | ⟨c, member, rfl⟩)
    · exact ⟨a, .inl rfl, rfl⟩
    · exact ⟨c, .inr member, rfl⟩

theorem image_of_fixed {σ : Nat → Nat} (fixed : ∀ a, σ a = a) (s : OrderedSet Nat) :
    s.image σ = s := by
  apply ext_mem
  intro b
  simp [mem_image, fixed]

theorem toList_image {σ : Nat → Nat} (mono : StrictMono σ) (s : OrderedSet Nat) :
    (s.image σ).toList = s.toList.map σ := by
  refine OrderedMap.eq_of_mem_iff (R := (· < ·)) (fun _ => Nat.lt_irrefl _)
    (fun _ _ _ => Nat.lt_trans) (s.image σ).ascending
    (List.pairwise_map.mpr (s.ascending.imp fun less => mono less)) ?_
  intro b
  rw [List.mem_map]
  exact mem_image

end OrderedSet

end BbjAnalysis
