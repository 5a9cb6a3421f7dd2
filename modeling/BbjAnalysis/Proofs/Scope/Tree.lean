import BbjAnalysis.Scope.Tree
import Mathlib.Data.List.Nodup
import Mathlib.Data.List.Pairwise

/-! # Trees of scopes

A tree of scopes grows: a scope keeps its kind, its parent and its owner, and symbols are declared
behind those that are there (`Grows`). Since every scope but the module's comes behind its parent,
the scopes around it are told by its place (`ancestors_eq_cons`), and so are the procedures around
it (`bodies`). These are all there is to know of two scopes that labels belong to: which of them
sees the other (`mem_ancestors_iff`) and whether they are one (`hoistTarget_unique`).
-/

namespace BbjAnalysis

/-! ## Tables of names -/

namespace Scope

variable {name : String} {id : SymbolId}

theorem lookup_declareIn (other : String) (names : List (String × List SymbolId)) :
    ((declareIn name id names).lookup other).getD [] =
      (names.lookup other).getD [] ++ if other = name then [id] else [] := by
  induction names with
  | nil =>
      simp only [declareIn, List.lookup_cons, List.lookup_nil, Option.getD_none, List.nil_append]
      by_cases same : other = name
      · simp [same]
      · simp [beq_false_of_ne same, same]
  | cons entry rest ih =>
      obtain ⟨first, ids⟩ := entry
      simp only [declareIn]
      by_cases same : first = name
      · subst same
        by_cases here : other = first
        · simp [here]
        · simp [List.lookup_cons, beq_false_of_ne here, here]
      · rw [if_neg same]
        by_cases here : other = first
        · simp [here, same]
        · simp only [List.lookup_cons, beq_false_of_ne here]
          exact ih

theorem keys_declareIn_subset (names : List (String × List SymbolId)) :
    ∀ key ∈ (declareIn name id names).map (·.1), key = name ∨ key ∈ names.map (·.1) := by
  induction names with
  | nil => simp [declareIn]
  | cons entry rest ih =>
      obtain ⟨first, ids⟩ := entry
      simp only [declareIn]
      split
      · exact fun key member => .inr member
      · intro key member
        rcases List.mem_cons.mp member with rfl | member
        · exact .inr List.mem_cons_self
        · exact (ih key member).imp_right (List.mem_cons_of_mem _)

theorem keys_declareIn_nodup {names : List (String × List SymbolId)}
    (distinct : (names.map (·.1)).Nodup) : ((declareIn name id names).map (·.1)).Nodup := by
  induction names with
  | nil => exact List.nodup_singleton _
  | cons entry rest ih =>
      obtain ⟨first, ids⟩ := entry
      obtain ⟨fresh, distinct⟩ := List.nodup_cons.mp distinct
      simp only [declareIn]
      split
      · exact List.nodup_cons.mpr ⟨fresh, distinct⟩
      · next other =>
        refine List.nodup_cons.mpr ⟨fun again => ?_, ih distinct⟩
        exact (keys_declareIn_subset rest _ again).elim other fresh

theorem mem_declareIn {names : List (String × List SymbolId)} {entry : String × List SymbolId}
    (member : entry ∈ declareIn name id names) {i : SymbolId} (inside : i ∈ entry.2) :
    i = id ∨ ∃ entry ∈ names, i ∈ entry.2 := by
  induction names with
  | nil =>
      rw [List.mem_singleton.mp member] at inside
      exact .inl (List.mem_singleton.mp inside)
  | cons first rest ih =>
      obtain ⟨other, ids⟩ := first
      simp only [declareIn] at member
      split at member
      · rcases List.mem_cons.mp member with rfl | member
        · rcases List.mem_append.mp inside with inside | inside
          · exact .inr ⟨_, List.mem_cons_self, inside⟩
          · exact .inl (List.mem_singleton.mp inside)
        · exact .inr ⟨entry, List.mem_cons_of_mem _ member, inside⟩
      · rcases List.mem_cons.mp member with rfl | member
        · exact .inr ⟨_, List.mem_cons_self, inside⟩
        · refine (ih member).imp_right ?_
          rintro ⟨entry, among, inside⟩
          exact ⟨entry, List.mem_cons_of_mem _ among, inside⟩

theorem mem_of_mem_lookup {s : Scope} (found : id ∈ s.lookup name) :
    ∃ entry ∈ s.names, entry.1 = name ∧ id ∈ entry.2 := by
  rw [lookup] at found
  cases entry : s.names.lookup name with
  | none =>
      rw [entry] at found
      cases found
  | some ids =>
      rw [entry] at found
      obtain ⟨before, behind, names, -⟩ := List.lookup_eq_some_iff.mp entry
      exact ⟨(name, ids), by simp [names], rfl, found⟩

theorem lookup_of_mem {s : Scope} (distinct : (s.names.map (·.1)).Nodup)
    {entry : String × List SymbolId} (member : entry ∈ s.names) : s.lookup entry.1 = entry.2 := by
  obtain ⟨before, behind, names⟩ := List.append_of_mem member
  have first : s.names.lookup entry.1 = some entry.2 := by
    refine List.lookup_eq_some_iff.mpr ⟨before, behind, names, fun other among => ?_⟩
    rw [names, List.map_append] at distinct
    refine bne_iff_ne.mpr fun same => (List.nodup_append'.mp distinct).2.2 ?_ List.mem_cons_self
    exact List.mem_map.mpr ⟨other, among, same.symm⟩
  rw [lookup, first, Option.getD_some]

/-- The procedure that opens a scope. -/
def procedure? (s : Scope) : Option NodeId := if s.kind = .procedure then some s.owner else none

end Scope

namespace ScopeTree

/-! ## Growth -/

/-- The first scope is that of the module, and no other one is; all others come behind their
parents. Names are listed once in each scope, with symbols that are there. -/
structure WellFormed (t : ScopeTree) : Prop where
  root : ∃ s, t.scopes[0]? = some s ∧ s.kind = .module ∧ s.parent = none
  inner : ∀ i s, t.scopes[i]? = some s → i ≠ 0 →
    s.kind ≠ .module ∧ ∃ p, s.parent = some p ∧ p < i
  symbols : ∀ (i : ScopeId) s, t.scopes[i]? = some s → ∀ entry ∈ s.names, ∀ id ∈ entry.2,
    id < t.symbols.size
  names : ∀ (i : ScopeId) s, t.scopes[i]? = some s → (s.names.map (·.1)).Nodup

theorem wellFormed_ofModule (document : DocumentId) (owner : NodeId) (span : Span) :
    (ofModule document owner span).WellFormed where
  root := ⟨_, rfl, rfl, rfl⟩
  inner i s found inner := by
    have small := (Array.getElem?_eq_some_iff.mp found).1
    exact absurd (Nat.lt_one_iff.mp small) inner
  symbols i s found := by
    cases i with
    | zero =>
        cases found
        nofun
    | succ i => cases found
  names i s found := by
    cases i with
    | zero =>
        cases found
        exact .nil
    | succ i => cases found

/-- Scopes stay where they are, and what they are. -/
structure Grows (t t' : ScopeTree) : Prop where
  document : t'.document = t.document
  scopes : ∀ (i : ScopeId) s, t.scopes[i]? = some s → ∃ s', t'.scopes[i]? = some s' ∧
    s'.kind = s.kind ∧ s'.parent = s.parent ∧ s'.owner = s.owner ∧ s'.span = s.span

namespace Grows

variable {t t' t'' : ScopeTree}

theorem refl (t : ScopeTree) : t.Grows t :=
  ⟨rfl, fun _ s found => ⟨s, found, rfl, rfl, rfl, rfl⟩⟩

theorem trans (first : t.Grows t') (second : t'.Grows t'') : t.Grows t'' where
  document := second.document.trans first.document
  scopes i s found := by
    obtain ⟨s', found', kind, parent, owner, span⟩ := first.scopes i s found
    obtain ⟨s'', found'', kind', parent', owner', span'⟩ := second.scopes i s' found'
    exact ⟨s'', found'', kind'.trans kind, parent'.trans parent, owner'.trans owner,
      span'.trans span⟩

theorem lt (grows : t.Grows t') {i : ScopeId} (small : i < t.scopes.size) :
    i < t'.scopes.size := by
  obtain ⟨s', found, -⟩ := grows.scopes i _ (Array.getElem?_eq_getElem small)
  exact (Array.getElem?_eq_some_iff.mp found).1

end Grows

section Declare

variable {t : ScopeTree} {scope : ScopeId} {symbol : Symbol}

theorem getElem?_scopes_declare (i : ScopeId) : (t.declare scope symbol).scopes[i]? =
    if scope = i then t.scopes[i]?.map (·.declare symbol.name t.symbols.size)
    else t.scopes[i]? :=
  Array.getElem?_modify

theorem grows_declare : t.Grows (t.declare scope symbol) where
  document := rfl
  scopes i s found := by
    rw [getElem?_scopes_declare]
    split
    · exact ⟨_, congrArg _ found, rfl, rfl, rfl, rfl⟩
    · exact ⟨s, found, rfl, rfl, rfl, rfl⟩

theorem WellFormed.declare (wf : t.WellFormed) (scope : ScopeId) (symbol : Symbol) :
    (t.declare scope symbol).WellFormed := by
  have before (i : ScopeId) (s : Scope) (found : (t.declare scope symbol).scopes[i]? = some s) :
      ∃ s', t.scopes[i]? = some s' ∧ s.kind = s'.kind ∧ s.parent = s'.parent ∧
        (s.names = s'.names ∨ s.names = Scope.declareIn symbol.name t.symbols.size s'.names) := by
    rw [getElem?_scopes_declare] at found
    split at found
    · obtain ⟨s', found', rfl⟩ := Option.map_eq_some_iff.mp found
      exact ⟨s', found', rfl, rfl, .inr rfl⟩
    · exact ⟨s, found, rfl, rfl, .inl rfl⟩
  have more : (t.declare scope symbol).symbols.size = t.symbols.size + 1 := Array.size_push ..
  constructor
  · obtain ⟨s, found, kind, parent⟩ := wf.root
    obtain ⟨s', found', kind', parent', -⟩ := grows_declare.scopes 0 s found
    exact ⟨s', found', kind'.trans kind, parent'.trans parent⟩
  · intro i s found inner
    obtain ⟨s', found', kind, parent, -⟩ := before i s found
    rw [kind, parent]
    exact wf.inner i s' found' inner
  · intro i s found entry member id inside
    obtain ⟨s', found', -, -, names⟩ := before i s found
    rw [more]
    rcases names with same | declared
    · exact Nat.lt_succ_of_lt (wf.symbols i s' found' entry (same ▸ member) id inside)
    · rw [declared] at member
      rcases Scope.mem_declareIn member inside with rfl | ⟨entry, among, inside⟩
      · exact Nat.lt_succ_self _
      · exact Nat.lt_succ_of_lt (wf.symbols i s' found' entry among id inside)
  · intro i s found
    obtain ⟨s', found', -, -, names⟩ := before i s found
    rcases names with same | declared
    · rw [same]
      exact wf.names i s' found'
    · rw [declared]
      exact Scope.keys_declareIn_nodup (wf.names i s' found')

/-- A declared symbol comes last under its name in its scope. -/
theorem lookupLocal_declare (wf : t.WellFormed) (small : scope < t.scopes.size) (i : ScopeId)
    (name : String) : (t.declare scope symbol).lookupLocal i name =
      t.lookupLocal i name ++ if scope = i ∧ name = symbol.name then [symbol] else [] := by
  have old (s : Scope) (found : t.scopes[i]? = some s) :
      (s.lookup name).filterMap ((t.declare scope symbol).symbols[·]?) =
        (s.lookup name).filterMap (t.symbols[·]?) := by
    refine List.filterMap_congr fun id member => ?_
    obtain ⟨entry, among, -, inside⟩ := Scope.mem_of_mem_lookup member
    have listed := wf.symbols i s found entry among id inside
    exact Array.getElem?_push.trans (if_neg (Nat.ne_of_lt listed))
  have last : (t.declare scope symbol).symbols[t.symbols.size]? = some symbol :=
    Array.getElem?_push_size
  rw [lookupLocal, lookupLocal, getElem?_scopes_declare]
  cases found : t.scopes[i]? with
  | none =>
      have big : scope ≠ i := by
        rintro rfl
        exact absurd small (Nat.not_lt.mpr (Array.getElem?_eq_none_iff.mp found))
      simp [big]
  | some s =>
      by_cases here : scope = i
      · subst here
        have names : (s.declare symbol.name t.symbols.size).lookup name =
            s.lookup name ++ if name = symbol.name then [t.symbols.size] else [] :=
          Scope.lookup_declareIn name s.names
        simp only [if_true, Option.map_some, names, List.filterMap_append, old s found, true_and]
        congr 1
        split
        · simp only [List.filterMap_cons, last, List.filterMap_nil]
        · rfl
      · simp only [here, if_false, old s found, false_and, List.append_nil]

end Declare

section OpenScope

variable {t : ScopeTree} {kind : ScopeKind} {parent : ScopeId} {owner : NodeId} {span : Span}

theorem getElem?_scopes_openScope (i : ScopeId) :
    (t.openScope kind parent owner span).scopes[i]? =
      if i = t.scopes.size then some ⟨kind, some parent, owner, span, []⟩ else t.scopes[i]? :=
  Array.getElem?_push

theorem grows_openScope : t.Grows (t.openScope kind parent owner span) where
  document := rfl
  scopes i s found := by
    have old : i ≠ t.scopes.size := Nat.ne_of_lt (Array.getElem?_eq_some_iff.mp found).1
    exact ⟨s, (getElem?_scopes_openScope i).trans ((if_neg old).trans found), rfl, rfl, rfl, rfl⟩

theorem WellFormed.openScope (wf : t.WellFormed) (small : parent < t.scopes.size)
    (plain : kind ≠ .module) (owner : NodeId) (span : Span) :
    (t.openScope kind parent owner span).WellFormed := by
  have either (i : ScopeId) (s : Scope)
      (found : (t.openScope kind parent owner span).scopes[i]? = some s) :
      (i = t.scopes.size ∧ s = ⟨kind, some parent, owner, span, []⟩) ∨ t.scopes[i]? = some s := by
    rw [getElem?_scopes_openScope] at found
    split at found
    · next last => exact .inl ⟨last, (Option.some.inj found).symm⟩
    · exact .inr found
  constructor
  · obtain ⟨s, found, kind', parent'⟩ := wf.root
    have grows : t.Grows (t.openScope kind parent owner span) := grows_openScope
    obtain ⟨s', found', same, same', -⟩ := grows.scopes 0 s found
    exact ⟨s', found', same.trans kind', same'.trans parent'⟩
  · intro i s found inner
    rcases either i s found with ⟨rfl, rfl⟩ | found
    · exact ⟨plain, parent, rfl, small⟩
    · exact wf.inner i s found inner
  · intro i s found entry member
    rcases either i s found with ⟨-, rfl⟩ | found
    · cases member
    · exact wf.symbols i s found entry member
  · intro i s found
    rcases either i s found with ⟨-, rfl⟩ | found
    · exact .nil
    · exact wf.names i s found

theorem lookupLocal_openScope (i : ScopeId) (name : String) :
    (t.openScope kind parent owner span).lookupLocal i name = t.lookupLocal i name := by
  rw [lookupLocal, lookupLocal, getElem?_scopes_openScope]
  split
  · next found =>
    split at found
    · next last =>
      cases found
      have none : t.scopes[i]? = none :=
        Array.getElem?_eq_none_iff.mpr (Nat.le_of_eq last.symm)
      rw [none]
      rfl
    · rw [found]
      rfl
  · next found =>
    split at found
    · cases found
    · rw [found]

end OpenScope

/-! ## The scopes around a scope -/

section Ancestors

variable {t t' : ScopeTree}

/-- A scope is that of the module, or comes behind its parent. -/
theorem WellFormed.eq_zero_or (wf : t.WellFormed) {i : ScopeId} (small : i < t.scopes.size) :
    i = 0 ∨ ∃ s p, t.scopes[i]? = some s ∧ s.kind ≠ .module ∧ s.parent = some p ∧ p < i := by
  by_cases first : i = 0
  · exact .inl first
  · have found := Array.getElem?_eq_getElem small
    obtain ⟨plain, p, parent, before⟩ := wf.inner i _ found first
    exact .inr ⟨_, p, found, plain, parent, before⟩

theorem WellFormed.pos (wf : t.WellFormed) : 0 < t.scopes.size := by
  obtain ⟨s, found, -⟩ := wf.root
  exact (Array.getElem?_eq_some_iff.mp found).1

/-- There are no more scopes around a scope than its place says. -/
theorem chain_eq_ancestors (wf : t.WellFormed) {i : ScopeId} {fuel : Nat} (enough : i < fuel) :
    t.chain fuel i = t.ancestors i := by
  obtain _ | fuel := fuel
  · exact absurd enough (Nat.not_lt_zero i)
  rw [ancestors, chain, chain]
  cases found : t.scopes[i]? with
  | none => rfl
  | some s =>
      cases parent : s.parent with
      | none => simp only [parent]
      | some p =>
          have inner : i ≠ 0 := by
            rintro rfl
            obtain ⟨s', found', -, top⟩ := wf.root
            cases found.symm.trans found'
            cases parent.symm.trans top
          obtain ⟨-, p', parent', before⟩ := wf.inner i s found inner
          cases parent.symm.trans parent'
          simp only [parent]
          have enough : p < fuel := Nat.lt_of_lt_of_le before (Nat.le_of_lt_succ enough)
          rw [chain_eq_ancestors wf enough, chain_eq_ancestors wf before]
termination_by i

theorem ancestors_zero (wf : t.WellFormed) : t.ancestors 0 = [0] := by
  obtain ⟨s, found, -, top⟩ := wf.root
  simp only [ancestors, chain, found, top]

theorem ancestors_eq_cons (wf : t.WellFormed) {i p : ScopeId} {s : Scope}
    (found : t.scopes[i]? = some s) (parent : s.parent = some p) (before : p < i) :
    t.ancestors i = i :: t.ancestors p := by
  rw [ancestors, chain]
  simp only [found, parent]
  rw [chain_eq_ancestors wf before]

theorem zero_mem_ancestors (wf : t.WellFormed) {i : ScopeId} (small : i < t.scopes.size) :
    0 ∈ t.ancestors i := by
  obtain rfl | ⟨s, p, found, -, parent, before⟩ := wf.eq_zero_or small
  · rw [ancestors_zero wf]
    exact List.mem_cons_self
  · rw [ancestors_eq_cons wf found parent before]
    exact List.mem_cons_of_mem i (zero_mem_ancestors wf (Nat.lt_trans before small))
termination_by i

theorem lt_of_mem_ancestors (wf : t.WellFormed) {i h : ScopeId} (small : i < t.scopes.size)
    (member : h ∈ t.ancestors i) : h < t.scopes.size := by
  obtain rfl | ⟨s, p, found, -, parent, before⟩ := wf.eq_zero_or small
  · rw [ancestors_zero wf] at member
    rwa [List.mem_singleton.mp member]
  · rw [ancestors_eq_cons wf found parent before] at member
    rcases List.mem_cons.mp member with rfl | member
    · exact small
    · exact lt_of_mem_ancestors wf (Nat.lt_trans before small) member
termination_by i

theorem Grows.ancestors (grows : t.Grows t') (wf : t.WellFormed) (wf' : t'.WellFormed)
    {i : ScopeId} (small : i < t.scopes.size) : t'.ancestors i = t.ancestors i := by
  obtain rfl | ⟨s, p, found, -, parent, before⟩ := wf.eq_zero_or small
  · rw [ancestors_zero wf, ancestors_zero wf']
  · obtain ⟨s', found', -, parent', -⟩ := grows.scopes i s found
    rw [ancestors_eq_cons wf found parent before,
      ancestors_eq_cons wf' found' (parent'.trans parent) before,
      grows.ancestors wf wf' (Nat.lt_trans before small)]
termination_by i

end Ancestors

/-! ## Procedures around a scope -/

/-- The procedure that opens the scope at a place. -/
def procedureAt (t : ScopeTree) (i : ScopeId) : Option NodeId := t.scopes[i]?.bind (·.procedure?)

/-- The procedures whose bodies a scope lies in, innermost first. -/
def bodies (t : ScopeTree) (i : ScopeId) : List NodeId := (t.ancestors i).filterMap t.procedureAt

/-- The procedures that open scopes, in the order of the scopes. -/
def procedures (t : ScopeTree) : List NodeId :=
  (List.range t.scopes.size).filterMap t.procedureAt

section Bodies

variable {t t' : ScopeTree}

theorem procedureAt_zero (wf : t.WellFormed) : t.procedureAt 0 = none := by
  obtain ⟨s, found, kind, -⟩ := wf.root
  simp [procedureAt, found, Scope.procedure?, kind]

theorem bodies_zero (wf : t.WellFormed) : t.bodies 0 = [] := by
  rw [bodies, ancestors_zero wf, List.filterMap_cons_none (procedureAt_zero wf),
    List.filterMap_nil]

theorem bodies_eq_append (wf : t.WellFormed) {i p : ScopeId} {s : Scope}
    (found : t.scopes[i]? = some s) (parent : s.parent = some p) (before : p < i) :
    t.bodies i = s.procedure?.toList ++ t.bodies p := by
  have own : t.procedureAt i = s.procedure? := by rw [procedureAt, found, Option.bind_some]
  rw [bodies, ancestors_eq_cons wf found parent before, List.filterMap_cons, own]
  cases s.procedure? <;> rfl

theorem Grows.procedureAt (grows : t.Grows t') {i : ScopeId} (small : i < t.scopes.size) :
    t'.procedureAt i = t.procedureAt i := by
  have found := Array.getElem?_eq_getElem small
  obtain ⟨s', found', kind, -, owner, -⟩ := grows.scopes i _ found
  rw [ScopeTree.procedureAt, ScopeTree.procedureAt, found, found', Option.bind_some,
    Option.bind_some, Scope.procedure?, Scope.procedure?, kind, owner]

theorem Grows.bodies (grows : t.Grows t') (wf : t.WellFormed) (wf' : t'.WellFormed)
    {i : ScopeId} (small : i < t.scopes.size) : t'.bodies i = t.bodies i := by
  rw [ScopeTree.bodies, ScopeTree.bodies, grows.ancestors wf wf' small]
  exact List.filterMap_congr fun j member =>
    grows.procedureAt (lt_of_mem_ancestors wf small member)

theorem Grows.isHoistTarget (grows : t.Grows t') {i : ScopeId} (small : i < t.scopes.size) :
    t'.isHoistTarget i = t.isHoistTarget i := by
  have found := Array.getElem?_eq_getElem small
  obtain ⟨s', found', kind, -⟩ := grows.scopes i _ found
  rw [ScopeTree.isHoistTarget, ScopeTree.isHoistTarget, kindOf, kindOf, found, found',
    Option.map_some, Option.map_some, kind]

theorem procedures_declare (scope : ScopeId) (symbol : Symbol) :
    (t.declare scope symbol).procedures = t.procedures := by
  have size : (t.declare scope symbol).scopes.size = t.scopes.size := Array.size_modify ..
  rw [procedures, procedures, size]
  exact List.filterMap_congr fun j member => grows_declare.procedureAt (List.mem_range.mp member)

theorem procedures_openScope (kind : ScopeKind) (parent : ScopeId) (owner : NodeId)
    (span : Span) : (t.openScope kind parent owner span).procedures =
      t.procedures ++ if kind = .procedure then [owner] else [] := by
  have size : (t.openScope kind parent owner span).scopes.size = t.scopes.size + 1 :=
    Array.size_push ..
  have last : (t.openScope kind parent owner span).procedureAt t.scopes.size =
      if kind = .procedure then some owner else none := by
    rw [procedureAt, getElem?_scopes_openScope, if_pos rfl]
    rfl
  rw [procedures, procedures, size, List.range_succ, List.filterMap_append]
  congr 1
  · exact List.filterMap_congr fun j member =>
      grows_openScope.procedureAt (List.mem_range.mp member)
  · rw [List.filterMap_cons, last, List.filterMap_nil]
    by_cases procedure : kind = .procedure <;> simp only [procedure, if_true, if_false]

theorem bodies_openScope (wf : t.WellFormed) {kind : ScopeKind} {parent : ScopeId}
    (small : parent < t.scopes.size) (plain : kind ≠ .module) (owner : NodeId) (span : Span) :
    (t.openScope kind parent owner span).bodies t.scopes.size =
      (if kind = .procedure then [owner] else []) ++ t.bodies parent := by
  have wf' := wf.openScope small plain owner span
  have found : (t.openScope kind parent owner span).scopes[t.scopes.size]? = _ :=
    (getElem?_scopes_openScope _).trans (if_pos rfl)
  rw [bodies_eq_append wf' found rfl small, grows_openScope.bodies wf wf' small,
    Scope.procedure?]
  split <;> rfl

/-- What is hoisted out of a scope goes to a scope that lies in the same procedures. -/
theorem hoistTarget_spec (wf : t.WellFormed) {i : ScopeId} (small : i < t.scopes.size) :
    t.hoistTarget i < t.scopes.size ∧ t.isHoistTarget (t.hoistTarget i) = true ∧
      t.bodies (t.hoistTarget i) = t.bodies i := by
  obtain rfl | ⟨s, p, found, plain, parent, before⟩ := wf.eq_zero_or small
  · obtain ⟨s, found, kind, -⟩ := wf.root
    have top : t.isHoistTarget 0 = true := by
      simp [isHoistTarget, kindOf, found, kind, ScopeKind.isHoistTarget]
    have here : t.hoistTarget 0 = 0 := by simp [hoistTarget, ancestors_zero wf, top]
    rw [here]
    exact ⟨small, top, rfl⟩
  · have room := Nat.lt_trans before small
    cases target : t.isHoistTarget i with
    | true =>
        have here : t.hoistTarget i = i := by
          simp [hoistTarget, ancestors_eq_cons wf found parent before, target]
        rw [here]
        exact ⟨small, target, rfl⟩
    | false =>
        have there : t.hoistTarget i = t.hoistTarget p := by
          rw [hoistTarget, ancestors_eq_cons wf found parent before,
            List.find?_cons_of_neg (by simp [target]), hoistTarget]
        have none : s.procedure? = none := by
          refine if_neg fun procedure => ?_
          simp [isHoistTarget, kindOf, found, procedure, ScopeKind.isHoistTarget] at target
        rw [there, bodies_eq_append wf found parent before, none]
        exact hoistTarget_spec wf room
termination_by i

/-- The innermost procedure around a scope that labels belong to: it opens that scope, unless the
scope is that of the module. -/
theorem head?_bodies (wf : t.WellFormed) {h : ScopeId} (small : h < t.scopes.size)
    (target : t.isHoistTarget h = true) :
    (h = 0 ∧ t.bodies h = []) ∨ ∃ owner, t.procedureAt h = some owner ∧
      (t.bodies h).head? = some owner := by
  obtain rfl | ⟨s, p, found, plain, parent, before⟩ := wf.eq_zero_or small
  · exact .inl ⟨rfl, bodies_zero wf⟩
  · have kind : s.kind = .procedure := by
      simp only [isHoistTarget, kindOf, found, Option.map_some, Option.any_some] at target
      cases same : s.kind <;> simp_all [ScopeKind.isHoistTarget]
    have own : s.procedure? = some s.owner := if_pos kind
    refine .inr ⟨s.owner, by rw [procedureAt, found, Option.bind_some, own], ?_⟩
    rw [bodies_eq_append wf found parent before, own]
    rfl

/-- Where procedures have different identities, each opens one scope. -/
theorem procedureAt_inj (distinct : t.procedures.Nodup) {owner : NodeId} {i j : ScopeId}
    (first : t.procedureAt i = some owner) (second : t.procedureAt j = some owner) : i = j := by
  have small {i : ScopeId} (opens : t.procedureAt i = some owner) :
      i ∈ List.range t.scopes.size := by
    obtain ⟨s, found, -⟩ := Option.bind_eq_some_iff.mp opens
    exact List.mem_range.mpr (Array.getElem?_eq_some_iff.mp found).1
  have apart := (List.pairwise_filterMap (R := (· ≠ ·))).mp distinct
  have symmetric : Std.Symm fun i j : ScopeId => ∀ owner, t.procedureAt i = some owner →
      ∀ owner', t.procedureAt j = some owner' → owner ≠ owner' :=
    ⟨fun i j apart owner first owner' second => (apart owner' second owner first).symm⟩
  by_contra other
  exact apart.forall (small first) (small second) other owner first owner second rfl

/-- A label is seen from a scope if its innermost procedure is around that scope, too. -/
theorem mem_ancestors_iff (wf : t.WellFormed) (distinct : t.procedures.Nodup) {h i : ScopeId}
    (smallTarget : h < t.scopes.size) (target : t.isHoistTarget h = true)
    (small : i < t.scopes.size) :
    h ∈ t.ancestors i ↔ ∀ owner ∈ (t.bodies h).head?, owner ∈ t.bodies i := by
  rcases head?_bodies wf smallTarget target with ⟨rfl, none⟩ | ⟨owner, opens, innermost⟩
  · simp [none, zero_mem_ancestors wf small]
  · simp only [innermost, Option.mem_some_iff, forall_eq']
    constructor
    · exact fun member => List.mem_filterMap.mpr ⟨h, member, opens⟩
    · intro member
      obtain ⟨j, around, opens'⟩ := List.mem_filterMap.mp member
      rwa [procedureAt_inj distinct opens opens']

/-- Labels with the same innermost procedure belong to one scope. -/
theorem hoistTarget_unique (wf : t.WellFormed) (distinct : t.procedures.Nodup) {h i : ScopeId}
    (small : h < t.scopes.size) (target : t.isHoistTarget h = true)
    (small' : i < t.scopes.size) (target' : t.isHoistTarget i = true) :
    h = i ↔ (t.bodies h).head? = (t.bodies i).head? := by
  constructor
  · rintro rfl
    rfl
  · intro same
    rcases head?_bodies wf small target with ⟨rfl, none⟩ | ⟨owner, opens, innermost⟩
    · rcases head?_bodies wf small' target' with ⟨rfl, -⟩ | ⟨owner', -, innermost'⟩
      · rfl
      · rw [none, innermost'] at same
        cases same
    · rcases head?_bodies wf small' target' with ⟨rfl, none'⟩ | ⟨owner', opens', innermost'⟩
      · rw [none', innermost] at same
        cases same
      · rw [innermost, innermost'] at same
        cases same
        exact procedureAt_inj distinct opens opens'

end Bodies

end ScopeTree

end BbjAnalysis
