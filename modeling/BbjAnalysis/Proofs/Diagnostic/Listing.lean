import BbjAnalysis.Diagnostic.Basic
import Mathlib.Data.List.Chain
import Mathlib.Data.List.Nodup

/-! # Listing diagnostics

The order of listing looks at the span, the code, the text and the node of a diagnostic, and not at
the rest of it. Where that tells apart all that differ (`ToldApart`), a listing holds each
diagnostic once, and depends on nothing but which diagnostics there are (`finish_congr`). Where it
does not, only neighbours are compared, and what comes again behind something else of its place in
the order is listed again (`finish_repeats`).
-/

namespace BbjAnalysis.Diagnostic

instance : Std.TransCmp order :=
  inferInstanceAs (Std.TransCmp (compareLex (compareOn fun d : Diagnostic => d.span.start) <|
    compareLex (compareOn fun d => d.span.stop) <|
      compareLex (compareOn fun d => d.code) <|
        compareLex (compareOn fun d => d.message) (compareOn fun d => d.node)))

/-- What the order of listing looks at. -/
theorem order_eq_iff {a b : Diagnostic} : a.order b = .eq ↔
    a.span = b.span ∧ a.code = b.code ∧ a.message = b.message ∧ a.node = b.node := by
  obtain ⟨_, _, _, ⟨start, stop⟩, _, _, _, _⟩ := a
  obtain ⟨_, _, _, ⟨start', stop'⟩, _, _, _, _⟩ := b
  simp only [order, Ordering.then_eq_eq, Std.compare_eq_iff_eq, Span.mk.injEq, and_assoc]

/-- Diagnostics that differ are told apart by the order of listing. -/
def ToldApart (l : List Diagnostic) : Prop := ∀ a ∈ l, ∀ b ∈ l, a.order b = .eq → a = b

theorem dropRepeats_cons (a : Diagnostic) (l : List Diagnostic) : dropRepeats (a :: l) =
    if (dropRepeats l).head? = some a then dropRepeats l else a :: dropRepeats l := by
  rw [dropRepeats]
  cases dropRepeats l with
  | nil => rfl
  | cons b kept => simp only [List.head?_cons, Option.some.injEq, eq_comm]

theorem dropRepeats_sublist (l : List Diagnostic) : (dropRepeats l).Sublist l := by
  induction l with
  | nil => exact .slnil
  | cons a l ih =>
      rw [dropRepeats_cons]
      split
      · exact ih.cons a
      · exact ih.cons_cons a

theorem mem_dropRepeats {d : Diagnostic} {l : List Diagnostic} : d ∈ dropRepeats l ↔ d ∈ l := by
  induction l with
  | nil => rfl
  | cons a l ih =>
      rw [dropRepeats_cons, List.mem_cons, ← ih]
      split
      · next first =>
        constructor
        · exact .inr
        · rintro (rfl | member)
          · exact List.mem_of_head? first
          · exact member
      · exact List.mem_cons

theorem dropRepeats_of_nodup {l : List Diagnostic} (distinct : l.Nodup) : dropRepeats l = l := by
  induction l with
  | nil => rfl
  | cons a rest ih =>
      obtain ⟨first, others⟩ := List.nodup_cons.mp distinct
      rw [dropRepeats_cons, ih others, if_neg]
      exact fun again => first (List.mem_of_head? again)

theorem nodup_dropRepeats {l : List Diagnostic} (ordered : l.Pairwise fun a b => (a.order b).isLE)
    (told : ToldApart l) : (dropRepeats l).Nodup := by
  induction l with
  | nil => exact .nil
  | cons a l ih =>
      obtain ⟨least, ordered⟩ := List.pairwise_cons.mp ordered
      have distinct := ih ordered fun b here c there =>
        told b (List.mem_cons_of_mem a here) c (List.mem_cons_of_mem a there)
      rw [dropRepeats_cons]
      split
      · exact distinct
      · next first =>
        refine List.nodup_cons.mpr ⟨fun again => first ?_, distinct⟩
        -- what stands at the front is not above `a`, which stands behind it, and not below `a`
        obtain ⟨b, kept, rest⟩ := List.exists_cons_of_ne_nil (List.ne_nil_of_mem again)
        have among : b ∈ l := mem_dropRepeats.mp (rest ▸ List.mem_cons_self)
        have above : (b.order a).isLE := by
          have behind := ordered.sublist (dropRepeats_sublist l)
          rw [rest] at behind again
          rcases List.mem_cons.mp again with rfl | again
          · exact least a among
          · exact List.rel_of_pairwise_cons behind again
        have same := Std.OrientedCmp.isLE_antisymm (least b among) above
        rw [rest, List.head?_cons, told a List.mem_cons_self b (List.mem_cons_of_mem a among) same]

theorem isLE_or_isLE (a b : Diagnostic) : ((a.order b).isLE || (b.order a).isLE) = true := by
  rw [← Std.OrientedCmp.isGE_eq_isLE (a := a), Bool.or_eq_true]
  cases a.order b <;> simp

theorem pairwise_sort (l : List Diagnostic) :
    (sort l).Pairwise fun a b => (a.order b).isLE :=
  List.pairwise_mergeSort (fun _ _ _ => Std.TransCmp.isLE_trans) isLE_or_isLE l

/-- What is in order already keeps its order. -/
theorem sublist_sort {c l : List Diagnostic} (ordered : c.Pairwise fun a b => (a.order b).isLE)
    (among : c.Sublist l) : c.Sublist (sort l) :=
  List.sublist_mergeSort (fun _ _ _ => Std.TransCmp.isLE_trans) isLE_or_isLE ordered among

theorem mem_finish {d : Diagnostic} {l : List Diagnostic} : d ∈ finish l ↔ d ∈ l :=
  mem_dropRepeats.trans (List.mergeSort_perm l _).mem_iff

/-- Where no diagnostic stands twice, all are listed. -/
theorem finish_perm {l : List Diagnostic} (distinct : l.Nodup) : (finish l).Perm l := by
  have sorted : (sort l).Perm l := List.mergeSort_perm l _
  rw [finish, dropRepeats_of_nodup (sorted.nodup_iff.mpr distinct)]
  exact sorted

theorem pairwise_finish (l : List Diagnostic) :
    (finish l).Pairwise fun a b => (a.order b).isLE :=
  (pairwise_sort l).sublist (dropRepeats_sublist _)

theorem nodup_finish {l : List Diagnostic} (told : ToldApart l) : (finish l).Nodup := by
  apply nodup_dropRepeats (pairwise_sort l)
  have perm := List.mergeSort_perm l fun a b => (a.order b).isLE
  exact fun a here b there => told a (perm.mem_iff.mp here) b (perm.mem_iff.mp there)

/-- A listing depends only on what is listed. -/
theorem finish_congr {l l' : List Diagnostic} (told : ToldApart l) (same : ∀ d, d ∈ l ↔ d ∈ l') :
    finish l = finish l' := by
  have told' : ToldApart l' :=
    fun a here b there => told a ((same a).mpr here) b ((same b).mpr there)
  have perm : (finish l).Perm (finish l') := by
    rw [List.perm_ext_iff_of_nodup (nodup_finish told) (nodup_finish told')]
    exact fun d => mem_finish.trans ((same d).trans mem_finish.symm)
  refine List.Perm.eq_of_pairwise ?_ (pairwise_finish l) (pairwise_finish l') perm
  intro a b here there below above
  refine told a (mem_finish.mp here) b ?_ (Std.OrientedCmp.isLE_antisymm below above)
  exact (same b).mpr (mem_finish.mp there)

/-! ## What is listed more than once -/

theorem dropRepeats_sublist_cons (a : Diagnostic) (l : List Diagnostic) :
    (dropRepeats l).Sublist (dropRepeats (a :: l)) := by
  rw [dropRepeats_cons]
  split
  · exact .refl _
  · exact List.sublist_cons_self a _

/-- No two neighbours are equal. -/
theorem isChain_dropRepeats (l : List Diagnostic) : (dropRepeats l).IsChain (· ≠ ·) := by
  induction l with
  | nil => exact .nil
  | cons a l ih =>
      rw [dropRepeats_cons]
      split
      · exact ih
      · next first =>
        refine List.isChain_cons.mpr ⟨fun b here same => first ?_, ih⟩
        rw [same]
        exact here

/-- What has no equal neighbours itself is kept. -/
theorem sublist_dropRepeats {c l : List Diagnostic} (chain : c.IsChain (· ≠ ·))
    (among : c.Sublist l) : c.Sublist (dropRepeats l) := by
  induction among with
  | slnil => exact .refl _
  | cons a _ ih => exact (ih chain).trans (dropRepeats_sublist_cons a _)
  | @cons_cons c l a _ ih =>
      obtain ⟨next, chain⟩ := List.isChain_cons.mp chain
      rw [dropRepeats_cons]
      split
      · next first =>
        -- `a` stands at the front already, and what follows it in `c` is not `a`
        obtain ⟨kept, rest⟩ := List.head?_eq_some_iff.mp first
        have inside := ih chain
        rw [rest] at inside ⊢
        refine List.cons_sublist_cons.mpr ?_
        cases inside with
        | cons _ behind => exact behind
        | cons_cons _ _ => exact absurd rfl (next a rfl)
      · exact (ih chain).cons_cons a

/-- What stands twice in a list without equal neighbours has something else in between. -/
theorem exists_between {a : Diagnostic} {m : List Diagnostic} (chain : m.IsChain (· ≠ ·))
    (twice : [a, a].Sublist m) : ∃ b, a ≠ b ∧ [a, b, a].Sublist m := by
  induction m with
  | nil => cases twice
  | cons c m ih =>
      obtain ⟨next, chain⟩ := List.isChain_cons.mp chain
      cases twice with
      | cons _ behind =>
          obtain ⟨b, different, found⟩ := ih chain behind
          exact ⟨b, different, found.cons c⟩
      | cons_cons _ again =>
          have later : a ∈ m := List.singleton_sublist.mp again
          obtain ⟨b, rest, rfl⟩ := List.exists_cons_of_ne_nil (List.ne_nil_of_mem later)
          have different : a ≠ b := next b rfl
          have behind : a ∈ rest := (List.mem_cons.mp later).resolve_left different
          exact ⟨b, different, ((List.singleton_sublist.mpr behind).cons_cons b).cons_cons a⟩

/-- Diagnostics that the order of listing does not tell apart are listed as they came. -/
theorem filter_sort (d : Diagnostic) (l : List Diagnostic) :
    (sort l).filter (fun e => e.order d = .eq) = l.filter (fun e => e.order d = .eq) := by
  have perm : (sort l).Perm l := List.mergeSort_perm l _
  have alike : (l.filter (fun e => e.order d = .eq)).Pairwise fun a b => (a.order b).isLE := by
    refine List.pairwise_of_forall_mem_list fun a here b there => ?_
    have first : a.order d = .eq := of_decide_eq_true (List.mem_filter.mp here).2
    have second : b.order d = .eq := of_decide_eq_true (List.mem_filter.mp there).2
    rw [Std.TransCmp.congr_right (Std.OrientedCmp.eq_symm second)] at first
    rw [first]
    rfl
  have inside := (sublist_sort alike List.filter_sublist).filter (fun e => e.order d = .eq)
  rw [List.filter_filter] at inside
  simp only [Bool.and_self] at inside
  exact (inside.eq_of_length (perm.filter _).length_eq.symm).symm

theorem sublist_of_sublist_sort {d : Diagnostic} {c l : List Diagnostic}
    (alike : ∀ e ∈ c, e.order d = .eq) (among : c.Sublist (sort l)) : c.Sublist l := by
  have inside := among.filter (fun e => e.order d = .eq)
  have all : c.filter (fun e => e.order d = .eq) = c :=
    List.filter_eq_self.mpr fun e member => decide_eq_true (alike e member)
  rw [filter_sort, all] at inside
  exact inside.trans List.filter_sublist

/-- A listing is in order and holds just what there is to list, without equal neighbours. It holds
something twice just where two equal diagnostics come with another one between them that the order
of listing does not tell apart from them. -/
theorem finish_repeats (l : List Diagnostic) :
    ((finish l).Pairwise fun a b => (a.order b).isLE) ∧ (∀ d, d ∈ finish l ↔ d ∈ l) ∧
      (finish l).IsChain (· ≠ ·) ∧
      ((finish l).Nodup ↔ ¬ ∃ a b, a ≠ b ∧ a.order b = .eq ∧ [a, b, a].Sublist l) := by
  refine ⟨pairwise_finish l, fun d => mem_finish, isChain_dropRepeats _, ?_⟩
  rw [← not_iff_not, not_not]
  constructor
  · intro repeated
    obtain ⟨a, twice⟩ : ∃ a, [a, a].Sublist (finish l) := by
      simpa [List.nodup_iff_sublist] using repeated
    obtain ⟨b, different, between⟩ := exists_between (isChain_dropRepeats _) twice
    have ordered := (pairwise_finish l).sublist between
    simp only [List.pairwise_cons, List.mem_cons, List.not_mem_nil, or_false] at ordered
    have below := ordered.1 b (.inl rfl)
    have above := ordered.2.1 a rfl
    have same := Std.OrientedCmp.isLE_antisymm below above
    refine ⟨a, b, different, same, ?_⟩
    refine sublist_of_sublist_sort (d := b) ?_ (between.trans (dropRepeats_sublist _))
    simp [same, Std.ReflCmp.compare_self]
  · rintro ⟨a, b, different, same, between⟩ distinct
    have alike : [a, b, a].Pairwise fun a b => (a.order b).isLE := by
      simp [same, Std.OrientedCmp.eq_symm same, Std.ReflCmp.compare_self]
    have chain : [a, b, a].IsChain (· ≠ ·) := by
      simp [different, different.symm]
    have kept := distinct.sublist (sublist_dropRepeats chain (sublist_sort alike between))
    simp at kept

/-- A warning of the same place and text stands between two equal errors. -/
example : let a : Diagnostic := ⟨0, 0, none, .empty 0, .error, none, "m", []⟩
    finish [a, { a with severity := .warning }, a] =
      [a, { a with severity := .warning }, a] := by cbv

end BbjAnalysis.Diagnostic
