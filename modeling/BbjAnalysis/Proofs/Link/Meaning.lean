import BbjAnalysis.Editor.Location
import BbjAnalysis.Proofs.Link.Outcome
import BbjAnalysis.Proofs.Link.Search

/-! # What references mean

Linking notes for each reference what its candidates say (`Links.noted_link`), whatever else is
linked and whatever the Java catalog was asked before, and nothing is bound that is no candidate
(`Links.mem_candidates_of_bindings`). Candidates are symbols of the document itself, symbols that
the index finds, and what the Java catalog knows (`LinkContext.mem_candidates`).
-/

namespace BbjAnalysis

namespace LinkOutcome

/-- What a reference may mean: what it is bound to, or all candidates if it is ambiguous. -/
def symbols : LinkOutcome → List Symbol
  | .bound symbol => [symbol]
  | .ambiguous symbols => symbols
  | .unresolved => []

/-- What is noted of a reference: what it is bound to, its candidates if it is ambiguous, and
whether it is unresolved. -/
def noted : LinkOutcome → Option Symbol × Option (List Symbol) × Prop
  | .bound symbol => (some symbol, none, False)
  | .ambiguous symbols => (none, some symbols, False)
  | .unresolved => (none, none, True)

end LinkOutcome

theorem Candidates.mem_of_mem_outcome {c : Candidates} {s : Symbol}
    (member : s ∈ c.outcome.symbols) : s ∈ c.symbols := by
  unfold Candidates.outcome at member
  split at member
  · cases member
  · next first rest found =>
    rw [found]
    split at member
    · exact member
    · rw [List.mem_singleton.mp member]
      exact List.mem_cons_self

namespace Links

variable {ctx : LinkContext} {reportJava : Bool}

/-- What is noted of a node. -/
def noted (l : Links) (node : NodeId) : Option Symbol × Option (List Symbol) × Prop :=
  (l.bindings.get? node, l.ambiguous.get? node, node ∈ l.unresolved)

theorem noted_empty (node : NodeId) : empty.noted node = (none, none, False) := by
  simp only [noted, Prod.mk.injEq, eq_iff_iff, iff_false]
  exact ⟨rfl, rfl, OrderedSet.not_mem_empty node⟩

/-- Only the reference itself is noted. -/
theorem noted_linkSite_of_ne (state : Links × Java.Resolver) {site : ReferenceSite} {node : NodeId}
    (other : node ≠ site.node) :
    (linkSite ctx reportJava state site).1.noted node = state.1.noted node := by
  have kept (l : Links) (same : l.noted node = state.1.noted node) (outcome : LinkOutcome) :
      (l.note ctx reportJava site outcome).noted node = state.1.noted node := by
    rw [← same]
    cases outcome with
    | bound symbol => simp [note, noted, OrderedMap.get?_insert, other]
    | ambiguous symbols => simp [note, noted, OrderedMap.get?_insert, other]
    | unresolved => simp [note, noted, OrderedSet.mem_insert, other]
  simp only [linkSite]
  apply kept
  split <;> rfl

theorem noted_linkSite_self (state : Links × Java.Resolver) {site : ReferenceSite}
    (fresh : state.1.noted site.node = (none, none, False)) :
    (linkSite ctx reportJava state site).1.noted site.node =
      (ctx.candidates state.2 site).1.outcome.noted := by
  have note (l : Links) (fresh : l.noted site.node = (none, none, False)) (outcome : LinkOutcome) :
      (l.note ctx reportJava site outcome).noted site.node = outcome.noted := by
    simp only [noted, Prod.mk.injEq, eq_iff_iff, iff_false] at fresh
    obtain ⟨unbound, unambiguous, resolved⟩ := fresh
    cases outcome <;>
      simp [Links.note, noted, OrderedMap.get?_insert, OrderedSet.mem_insert, LinkOutcome.noted,
        unbound, unambiguous, resolved]
  simp only [linkSite]
  apply note
  split <;> exact fresh

theorem noted_foldl {sites : List ReferenceSite} (state : Links × Java.Resolver) {node : NodeId}
    (fresh : node ∉ sites.map (·.node)) :
    (sites.foldl (linkSite ctx reportJava) state).1.noted node = state.1.noted node := by
  induction sites generalizing state with
  | nil => rfl
  | cons site sites ih =>
      rw [List.map_cons, List.mem_cons, not_or] at fresh
      rw [List.foldl_cons, ih _ fresh.2, noted_linkSite_of_ne _ fresh.1]

/-- What the Java catalog answers does not depend on what was linked before. -/
theorem answers_foldl (sites : List ReferenceSite) (state : Links × Java.Resolver) (name : String) :
    ((sites.foldl (linkSite ctx reportJava) state).2.resolve name).1 =
      (state.2.resolve name).1 := by
  induction sites generalizing state with
  | nil => rfl
  | cons site sites ih =>
      have asked : ((linkSite ctx reportJava state site).2.resolve name).1 =
          (state.2.resolve name).1 := LinkContext.candidates_answers state.2 name
      rw [List.foldl_cons, ih, asked]

/-- What is noted of a reference is what its candidates say, whatever else is linked. -/
theorem noted_link (ctx : LinkContext) (reportJava : Bool) (r : Java.Resolver)
    {sites : List ReferenceSite} (distinct : (sites.map (·.node)).Nodup) {site : ReferenceSite}
    (member : site ∈ sites) :
    (link ctx reportJava r sites).1.noted site.node =
      (ctx.candidates r site).1.outcome.noted := by
  obtain ⟨front, back, rfl⟩ := List.append_of_mem member
  rw [List.map_append, List.map_cons] at distinct
  obtain ⟨-, others, apart⟩ := List.nodup_append'.mp distinct
  have before : site.node ∉ front.map (·.node) := fun inside => apart inside List.mem_cons_self
  have behind : site.node ∉ back.map (·.node) := (List.nodup_cons.mp others).1
  have all : (link ctx reportJava r (front ++ site :: back)).1.noted site.node =
      ((front ++ site :: back).foldl (linkSite ctx reportJava) (empty, r)).1.noted site.node := rfl
  have fresh : (front.foldl (linkSite ctx reportJava) (empty, r)).1.noted site.node =
      (none, none, False) := (noted_foldl _ before).trans (noted_empty _)
  rw [all, List.foldl_append, List.foldl_cons, noted_foldl _ behind, noted_linkSite_self _ fresh,
    LinkContext.candidates_congr (answers_foldl front (empty, r))]

/-- A reference is bound to one of its candidates at most, and no other reference is. -/
theorem bindings_linkSite {state : Links × Java.Resolver} {site : ReferenceSite} {node : NodeId}
    {s : Symbol} (bound : (linkSite ctx reportJava state site).1.bindings.get? node = some s) :
    state.1.bindings.get? node = some s ∨
      site.node = node ∧ s ∈ (ctx.candidates state.2 site).1.symbols := by
  have note (l : Links) (same : l.bindings = state.1.bindings) {outcome : LinkOutcome}
      (noted : (l.note ctx reportJava site outcome).bindings.get? node = some s) :
      state.1.bindings.get? node = some s ∨ site.node = node ∧ s ∈ outcome.symbols := by
    cases outcome with
    | bound symbol =>
        rw [note, OrderedMap.get?_insert, same] at noted
        split at noted
        · next here =>
          cases noted
          exact .inr ⟨here.symm, List.mem_singleton_self s⟩
        · exact .inl noted
    | ambiguous symbols => exact .inl (same ▸ noted)
    | unresolved => exact .inl (same ▸ noted)
  refine (note _ ?_ bound).imp_right (And.imp_right Candidates.mem_of_mem_outcome)
  exact (apply_ite Links.bindings ..).trans (ite_self _)

theorem bindings_foldl {sites : List ReferenceSite} {state : Links × Java.Resolver} {node : NodeId}
    {s : Symbol}
    (bound : (sites.foldl (linkSite ctx reportJava) state).1.bindings.get? node = some s) :
    state.1.bindings.get? node = some s ∨
      ∃ site ∈ sites, site.node = node ∧ s ∈ (ctx.candidates state.2 site).1.symbols := by
  induction sites generalizing state with
  | nil => exact .inl bound
  | cons site sites ih =>
      rcases ih bound with before | ⟨later, among, here, candidate⟩
      · refine (bindings_linkSite before).imp_right fun ⟨here, candidate⟩ => ?_
        exact ⟨site, List.mem_cons_self, here, candidate⟩
      · rw [linkSite, LinkContext.candidates_congr (LinkContext.candidates_answers _)] at candidate
        exact .inr ⟨later, List.mem_cons_of_mem site among, here, candidate⟩

/-- Whatever is bound is bound to a candidate of a reference. -/
theorem mem_candidates_of_bindings {ctx : LinkContext} {reportJava : Bool} {r : Java.Resolver}
    {sites : List ReferenceSite} {node : NodeId} {s : Symbol}
    (bound : (link ctx reportJava r sites).1.bindings.get? node = some s) :
    ∃ site ∈ sites, site.node = node ∧ s ∈ (ctx.candidates r site).1.symbols := by
  have folded : (sites.foldl (linkSite ctx reportJava) (empty, r)).1.bindings.get? node =
      some s := bound
  rcases bindings_foldl folded with nothing | found
  · cases nothing
  · exact found

end Links

theorem ScopeTree.mem_symbols_of_mem_lookupLocal {t : ScopeTree} {i : ScopeId} {name : String}
    {s : Symbol} (listed : s ∈ t.lookupLocal i name) : s ∈ t.symbols := by
  unfold lookupLocal at listed
  split at listed
  · obtain ⟨k, -, found⟩ := List.mem_filterMap.mp listed
    exact Array.mem_of_getElem? found
  · cases listed

namespace LinkContext

variable {ctx : LinkContext} {site : ReferenceSite} {r : Java.Resolver} {s : Symbol}

theorem mem_symbols_of_mem_lexicalIn {ids : List ScopeId} (member : s ∈ ctx.lexicalIn site ids) :
    s ∈ ctx.tree.symbols := by
  obtain ⟨i, -, legal⟩ := exists_of_mem_lexicalIn member
  exact ScopeTree.mem_symbols_of_mem_lookupLocal (List.mem_filter.mp legal).1

end LinkContext

end BbjAnalysis
