import BbjAnalysis.Proofs.Program.Soundness
import BbjAnalysis.Proofs.Scope.Tree
import BbjAnalysis.Proofs.Scope.Walk

/-! # The shape of the scopes of a document

Whatever a program is, its scopes form a tree with the module at its root, every symbol is listed in
one scope under its name, and references stand in scopes that are there (`Tidy`). Symbols come in
the order of the names that declare them (`Walk.declared`). Where nothing is wrong with the text,
scopes, symbols and references lie one inside the other as the nodes of the program do (`Nested`).
-/

namespace BbjAnalysis

open HasParts BbjAnalysis.Part

namespace ScopeTree

variable {t : ScopeTree} {scope : ScopeId} {symbol : Symbol}

/-! ## Where symbols are listed -/

/-- The symbols that a scope lists under a name. -/
def listed (t : ScopeTree) (i : ScopeId) (name : String) : List SymbolId :=
  (t.scopes[i]?.map (·.lookup name)).getD []

theorem lookupLocal_eq (t : ScopeTree) (i : ScopeId) (name : String) :
    t.lookupLocal i name = (t.listed i name).filterMap (t.symbols[·]?) := by
  rw [lookupLocal, listed]
  cases t.scopes[i]? <;> rfl

theorem listed_declare (small : scope < t.scopes.size) (i : ScopeId) (name : String) :
    (t.declare scope symbol).listed i name =
      t.listed i name ++ if scope = i ∧ name = symbol.name then [t.symbols.size] else [] := by
  rw [listed, listed, getElem?_scopes_declare]
  by_cases here : scope = i
  · subst here
    have names (s : Scope) : (s.declare symbol.name t.symbols.size).lookup name =
        s.lookup name ++ if name = symbol.name then [t.symbols.size] else [] :=
      Scope.lookup_declareIn name s.names
    simp [Array.getElem?_eq_getElem small, names]
  · simp [here]

theorem listed_openScope {kind : ScopeKind} {parent : ScopeId} {owner : NodeId} {span : Span}
    (i : ScopeId) (name : String) :
    (t.openScope kind parent owner span).listed i name = t.listed i name := by
  rw [listed, listed, getElem?_scopes_openScope]
  split
  · next last =>
    rw [Array.getElem?_eq_none (Nat.le_of_eq last.symm)]
    rfl
  · rfl

/-- Every symbol is listed in one scope, its home, under its own name, and nowhere else; and symbols
of one home and one name in their order. -/
structure Lists (t : ScopeTree) (home : SymbolId → ScopeId) : Prop where
  small : ∀ k < t.symbols.size, home k < t.scopes.size
  listed : ∀ i name, t.listed i name = (List.range t.symbols.size).filter fun k =>
    home k = i ∧ t.symbols[k]?.map (·.name) = some name

theorem Lists.declare {home : SymbolId → ScopeId} (lists : t.Lists home)
    (small : scope < t.scopes.size) :
    (t.declare scope symbol).Lists fun k => if k = t.symbols.size then scope else home k := by
  have symbols : (t.declare scope symbol).symbols.size = t.symbols.size + 1 := Array.size_push ..
  have scopes : (t.declare scope symbol).scopes.size = t.scopes.size := Array.size_modify ..
  constructor
  · intro k among
    rw [scopes]
    show (if k = t.symbols.size then scope else home k) < t.scopes.size
    split
    · exact small
    · exact lists.small k (by omega)
  · intro i name
    have last : (t.declare scope symbol).symbols[t.symbols.size]? = some symbol :=
      Array.getElem?_push_size
    rw [listed_declare small, lists.listed, symbols, List.range_succ, List.filter_append]
    congr 1
    · refine List.filter_congr fun k among => ?_
      have old : k ≠ t.symbols.size := Nat.ne_of_lt (List.mem_range.mp among)
      have same : (t.declare scope symbol).symbols[k]? = t.symbols[k]? :=
        Array.getElem?_push.trans (if_neg old)
      simp only [old, if_false, same]
    · simp only [List.filter_cons, List.filter_nil, last, if_true, Option.map_some,
        Option.some.injEq, decide_eq_true_eq, eq_comm (a := symbol.name)]

theorem Lists.openScope {home : SymbolId → ScopeId} (lists : t.Lists home) (kind : ScopeKind)
    (parent : ScopeId) (owner : NodeId) (span : Span) :
    (t.openScope kind parent owner span).Lists home where
  small k among := Nat.lt_of_lt_of_le (lists.small k among) (by simp [ScopeTree.openScope])
  listed i name := (listed_openScope i name).trans (lists.listed i name)

/-! ## The scopes around a scope -/

theorem self_mem_ancestors (wf : t.WellFormed) {i : ScopeId} (small : i < t.scopes.size) :
    i ∈ t.ancestors i := by
  obtain rfl | ⟨s, p, found, -, parent, before⟩ := wf.eq_zero_or small
  · exact zero_mem_ancestors wf small
  · rw [ancestors_eq_cons wf found parent before]
    exact List.mem_cons_self

theorem getLast?_ancestors (wf : t.WellFormed) {i : ScopeId} (small : i < t.scopes.size) :
    (t.ancestors i).getLast? = some moduleId := by
  obtain rfl | ⟨s, p, found, -, parent, before⟩ := wf.eq_zero_or small
  · rw [ancestors_zero wf]
    rfl
  · rw [ancestors_eq_cons wf found parent before, List.getLast?_cons,
      getLast?_ancestors wf (Nat.lt_trans before small)]
    rfl
termination_by i

/-- What is declared goes to a scope around the walk. -/
theorem IsTarget.mem_ancestors {target : ScopeId} (placed : t.IsTarget scope target)
    (wf : t.WellFormed) (small : scope < t.scopes.size) : target ∈ t.ancestors scope := by
  rcases placed with rfl | rfl | rfl
  · exact self_mem_ancestors wf small
  · rw [hoistTarget]
    cases found : (t.ancestors scope).find? t.isHoistTarget with
    | some target => exact List.mem_of_find?_eq_some found
    | none => exact zero_mem_ancestors wf small
  · exact zero_mem_ancestors wf small

theorem IsTarget.lt {target : ScopeId} (placed : t.IsTarget scope target) (wf : t.WellFormed)
    (small : scope < t.scopes.size) : target < t.scopes.size :=
  lt_of_mem_ancestors wf small (placed.mem_ancestors wf small)

end ScopeTree

/-! ## What every step keeps -/

/-- The scopes are a tree, the symbols are listed in it, and the references stand in it. -/
structure Findings.Tidy (f : Findings) : Prop where
  wellFormed : f.tree.WellFormed
  lists : ∃ home, f.tree.Lists home
  references : ∀ site ∈ f.references, site.scope < f.tree.scopes.size

section Steps

variable {f g : Findings} {span : Span} {scope : ScopeId} {ps : List Part}

theorem Mentions.tidy (mentions : Mentions scope ps f g) (tidy : f.Tidy)
    (small : scope < f.tree.scopes.size) : g.Tidy where
  wellFormed := mentions.tree ▸ tidy.wellFormed
  lists := mentions.tree ▸ tidy.lists
  references site member := by
    obtain ⟨sites, references, here, -⟩ := mentions.noted
    rw [references, List.mem_append] at member
    rw [mentions.tree]
    rcases member with old | new
    · exact tidy.references site old
    · rw [here site new]
      exact small

theorem Findings.Tidy.declare (tidy : f.Tidy) {target : ScopeId}
    (small : target < f.tree.scopes.size) (raw : String) (kind : SymbolKind) (node : NodeId)
    (span : Span) (exported : Bool) (detail : Option String) :
    (f.declare target raw kind node span exported detail).Tidy where
  wellFormed := tidy.wellFormed.declare _ _
  lists := by
    obtain ⟨home, lists⟩ := tidy.lists
    exact ⟨_, lists.declare small⟩
  references site member := ScopeTree.grows_declare.lt (tidy.references site member)

theorem Findings.Tidy.openScope (tidy : f.Tidy) (small : scope < f.tree.scopes.size)
    {kind : ScopeKind} (inner : kind ≠ .module) (owner : NodeId) (span : Span) :
    { f with tree := f.tree.openScope kind scope owner span }.Tidy where
  wellFormed := tidy.wellFormed.openScope small inner owner span
  lists := by
    obtain ⟨home, lists⟩ := tidy.lists
    exact ⟨home, lists.openScope _ _ _ _⟩
  references site member := ScopeTree.grows_openScope.lt (tidy.references site member)

theorem ScopeTree.lt_size_openScope (t : ScopeTree) (kind : ScopeKind) (parent : ScopeId)
    (owner : NodeId) (span : Span) :
    t.scopes.size < (t.openScope kind parent owner span).scopes.size := by
  simp [ScopeTree.openScope]

theorem Walk.tidy (walk : Walk span scope ps f g) (tidy : f.Tidy)
    (small : scope < f.tree.scopes.size) : g.Tidy ∧ f.tree.Grows g.tree := by
  induction walk with
  | mention mentions =>
      refine ⟨mentions.tidy tidy small, ?_⟩
      rw [mentions.tree]
      exact .refl _
  | @declare _ _ _ _ _ _ f g _ _ _ _ _ _ placed _ mentions =>
      have noted := mentions.tidy tidy small
      rw [← mentions.tree] at small ⊢
      exact ⟨noted.declare (placed.lt noted.wellFormed small) _ _ _ _ _ _,
        ScopeTree.grows_declare⟩
  | append _ _ first second =>
      obtain ⟨tidy, grows⟩ := first tidy small
      obtain ⟨tidy, grows'⟩ := second tidy (grows.lt small)
      exact ⟨tidy, grows.trans grows'⟩
  | swap _ _ ih => exact ih tidy small
  | inside _ _ _ ih => exact ih tidy small
  | opening inner _ ih =>
      obtain ⟨tidy, grows⟩ := ih (tidy.openScope small inner _ _)
        (ScopeTree.lt_size_openScope _ _ _ _ _)
      exact ⟨tidy, ScopeTree.grows_openScope.trans grows⟩

end Steps

/-! ## What declares the symbols -/

/-- A name declares a symbol of a document. -/
structure Symbol.DeclaredBy (document : DocumentId) (s : Symbol) (i : Ident) : Prop where
  name : s.name = canonicalName i.text s.kind
  origin : s.origin = .declared document i.id
  span : s.span = i.span

/-- Between `f` and `g` symbols are declared by the given names, in their order, though not by each
of them; and what is exported is among these symbols. -/
structure Declares (names : List Ident) (f g : Findings) : Prop where
  document : g.tree.document = f.tree.document
  symbols : ∃ used symbols, used.Sublist names ∧
    List.Forall₂ (Symbol.DeclaredBy f.tree.document) symbols used ∧
    g.tree.symbols.toList = f.tree.symbols.toList ++ symbols ∧
    ∀ e ∈ g.exports, e ∈ f.exports ∨ e ∈ symbols

section Declared

variable {f g h : Findings} {span : Span} {scope : ScopeId} {ps : List Part}

theorem Declares.nothing (names : List Ident) (tree : g.tree = f.tree)
    (exports : g.exports = f.exports) : Declares names f g where
  document := congrArg _ tree
  symbols := ⟨[], [], List.nil_sublist _, .nil, by rw [tree, List.append_nil],
    fun e member => .inl (exports ▸ member)⟩

theorem Declares.append {names names' : List Ident} (first : Declares names f g)
    (second : Declares names' g h) : Declares (names ++ names') f h where
  document := second.document.trans first.document
  symbols := by
    obtain ⟨used, symbols, among, declared, same, exports⟩ := first.symbols
    obtain ⟨used', symbols', among', declared', same', exports'⟩ := second.symbols
    rw [first.document] at declared'
    refine ⟨used ++ used', symbols ++ symbols', among.append among',
      List.rel_append declared declared', by rw [same', same, List.append_assoc], ?_⟩
    intro e member
    rcases exports' e member with old | new
    · exact (exports e old).imp_right (List.mem_append_left _)
    · exact .inr (List.mem_append_right _ new)

theorem declares_declare (f : Findings) (target : ScopeId) (i : Ident) (kind : SymbolKind)
    {exported : Bool} {detail : Option String} (bare : exported = true → detail = none) :
    Declares [i] f (f.declare target i.text kind i.id i.span exported detail) where
  document := rfl
  symbols := by
    refine ⟨[i], _, .refl _, .cons ⟨rfl, rfl, rfl⟩ .nil, Array.toList_push, ?_⟩
    intro e member
    simp only [Findings.declare] at member
    split at member
    · next shared =>
      rw [bare shared]
      exact List.mem_append.mp member
    · exact .inl member

theorem Walk.declares (walk : Walk span scope ps f g) : Declares (ps.flatMap declarables) f g := by
  induction walk with
  | mention mentions => exact .nothing _ mentions.tree mentions.exports
  | declare _ _ own _ bare mentions =>
      have noted := Declares.nothing [] mentions.tree mentions.exports
      rw [List.flatMap_singleton, own]
      exact noted.append (declares_declare _ _ _ _ bare)
  | append _ _ first second =>
      rw [List.flatMap_append]
      exact first.append second
  | swap _ plain ih =>
      rw [List.flatMap_append, flatMap_declarables_of_isPlain plain, List.nil_append] at ih
      rw [List.flatMap_append, flatMap_declarables_of_isPlain plain, List.append_nil]
      exact ih
  | inside _ own _ ih =>
      rw [List.flatMap_singleton, own]
      exact ih
  | opening _ _ ih => exact ⟨ih.document, ih.symbols⟩

end Declared

/-! ## One inside the other -/

/-- A span lies in another one. -/
def Span.Within (s t : Span) : Prop := t.start ≤ s.start ∧ s.stop ≤ t.stop

theorem Span.Within.trans {s t u : Span} (inner : s.Within t) (outer : t.Within u) : s.Within u :=
  ⟨Nat.le_trans outer.1 inner.1, Nat.le_trans inner.2 outer.2⟩

namespace Part

theorem children_eq_nil {p : Part} (none : p.node? = none) : p.children = [] := by
  cases p <;> first | rfl | simp [node?] at none

/-- All that is in a part lies where the part lies. -/
theorem within_of_mem_all {p q : Part} {u : Span} (neat : ∀ q ∈ p.all, q.Neat)
    (place : ∀ n ∈ p.node?, n.span.Within u) (member : q ∈ p.all) :
    ∀ n ∈ q.node?, n.span.Within u := by
  rw [all_eq] at member
  rcases List.mem_cons.mp member with rfl | member
  · exact place
  · obtain ⟨child, inside, member⟩ := List.mem_flatMap.mp member
    have smaller := weight_lt_of_mem_children inside
    have below : ∀ q ∈ child.all, q.Neat := fun q among =>
      neat q (mem_all_of_mem_children inside among)
    refine within_of_mem_all below ?_ member
    intro n node
    cases held : p.node? with
    | none =>
        rw [children_eq_nil held] at inside
        cases inside
    | some m =>
        have inner : n.span.Within m.span :=
          (neat p (mem_all_self p)).inside child inside n node m held
        exact inner.trans (place m held)
termination_by p.weight

/-- All names in several parts lie where the parts lie. -/
theorem name_within {ps : List Part} {u : Span} (neat : ∀ p ∈ allOf ps, p.Neat)
    (place : ∀ p ∈ ps, ∀ n ∈ p.node?, n.span.Within u) {n : Node}
    (member : n ∈ picked name? ps) : n.span.Within u := by
  obtain ⟨q, inside, named⟩ := List.mem_filterMap.mp member
  obtain ⟨p, among, inside⟩ := List.mem_flatMap.mp inside
  have below : ∀ q ∈ p.all, q.Neat := fun q member =>
    neat q ((all_sublist_allOf among).subset member)
  refine within_of_mem_all below (place p among) inside n ?_
  cases q <;> simp_all [name?, node?]

/-- The names that may be declared in a part lie in it. -/
theorem declarable_within {p : Part} {u : Span} {i : Ident} (neat : ∀ q ∈ p.all, q.Neat)
    (place : ∀ n ∈ p.node?, n.span.Within u) (member : i ∈ p.declarables) : i.span.Within u := by
  obtain ⟨-, q, inside, writes⟩ := of_mem_declarables member
  have lies := within_of_mem_all neat place inside
  generalize i.text = text, i.span = span at writes
  cases writes with
  | ident j => exact lies _ rfl
  | type t => exact lies _ rfl

end Part

namespace ScopeTree

/-- A scope is around a span. -/
def Around (t : ScopeTree) (i : ScopeId) (u : Span) : Prop :=
  ∀ s, t.scopes[i]? = some s → u.Within s.span

variable {t t' : ScopeTree} {i : ScopeId} {u : Span}

theorem Grows.back (grows : t.Grows t') (small : i < t.scopes.size) {s : Scope}
    (found : t'.scopes[i]? = some s) :
    ∃ s', t.scopes[i]? = some s' ∧ s.parent = s'.parent ∧ s.span = s'.span := by
  have before := Array.getElem?_eq_getElem small
  obtain ⟨s', after, -, parent, -, span⟩ := grows.scopes i _ before
  cases found.symm.trans after
  exact ⟨_, before, parent, span⟩

theorem Around.grow (around : t.Around i u) (grows : t.Grows t') (small : i < t.scopes.size) :
    t'.Around i u := by
  intro s found
  obtain ⟨s', before, -, span⟩ := grows.back small found
  rw [span]
  exact around s' before

end ScopeTree

/-- Scopes lie in their parents, symbols in the scopes that list them, and references in the scopes
that they stand in. -/
structure Findings.Nested (f : Findings) : Prop where
  scopes : ∀ (i p : ScopeId) s, f.tree.scopes[i]? = some s → s.parent = some p →
    f.tree.Around p s.span
  symbols : ∀ (i : ScopeId) name, ∀ symbol ∈ f.tree.lookupLocal i name,
    f.tree.Around i symbol.span
  references : ∀ site ∈ f.references, f.tree.Around site.scope site.span

namespace Findings.Nested

variable {f g : Findings} {scope target : ScopeId} {u : Span} {ps : List Part}

/-- What lies in a scope lies in all scopes around it. -/
theorem ancestors (nested : f.Nested) (wf : f.tree.WellFormed) {i h : ScopeId}
    (small : i < f.tree.scopes.size) (member : h ∈ f.tree.ancestors i)
    (around : f.tree.Around i u) : f.tree.Around h u := by
  obtain rfl | ⟨s, p, found, -, parent, before⟩ := wf.eq_zero_or small
  · rw [ScopeTree.ancestors_zero wf] at member
    rwa [List.mem_singleton.mp member]
  · rw [ScopeTree.ancestors_eq_cons wf found parent before] at member
    rcases List.mem_cons.mp member with rfl | member
    · exact around
    · refine nested.ancestors wf (Nat.lt_trans before small) member fun s' outer => ?_
      exact (around s found).trans (nested.scopes i p s found parent s' outer)
termination_by i

theorem mentions (nested : f.Nested) (mentions : Mentions scope ps f g)
    (neat : ∀ p ∈ allOf ps, p.Neat) (place : ∀ p ∈ ps, ∀ n ∈ p.node?, n.span.Within u)
    (around : f.tree.Around scope u) : g.Nested := by
  obtain ⟨sites, references, here, names⟩ := mentions.noted
  constructor
  · rw [mentions.tree]
    exact nested.scopes
  · rw [mentions.tree]
    exact nested.symbols
  · intro site member
    rw [references, List.mem_append] at member
    rw [mentions.tree]
    rcases member with old | new
    · exact nested.references site old
    · intro s found
      rw [here site new] at found
      have named := names.subset (List.mem_map_of_mem new)
      exact (name_within neat place named).trans (around s found)

theorem declare (nested : f.Nested) (tidy : f.Tidy) (small : target < f.tree.scopes.size)
    (raw : String) (kind : SymbolKind) (node : NodeId) {span : Span}
    (around : f.tree.Around target span) (exported : Bool) (detail : Option String) :
    (f.declare target raw kind node span exported detail).Nested := by
  have size (scope : ScopeId) (symbol : Symbol) :
      (f.tree.declare scope symbol).scopes.size = f.tree.scopes.size := Array.size_modify ..
  have kept {i : ScopeId} {u : Span} (around : f.tree.Around i u) (symbol : Symbol) :
      (f.tree.declare target symbol).Around i u := by
    intro s found
    have small := (Array.getElem?_eq_some_iff.mp found).1
    rw [size] at small
    exact around.grow ScopeTree.grows_declare small s found
  constructor
  · intro i p s found parent
    have small := (Array.getElem?_eq_some_iff.mp found).1
    rw [Findings.declare, size] at small
    obtain ⟨s', before, parent', span⟩ := ScopeTree.grows_declare.back small found
    rw [span]
    exact kept (nested.scopes i p s' before (parent'.symm.trans parent)) _
  · intro i name symbol member
    rw [Findings.declare, ScopeTree.lookupLocal_declare tidy.wellFormed small] at member
    rcases List.mem_append.mp member with old | new
    · exact kept (nested.symbols i name symbol old) _
    · split at new
      · next here =>
        rw [List.mem_singleton.mp new, ← here.1]
        exact kept around _
      · cases new
  · intro site member
    exact kept (nested.references site member) _

theorem openScope (nested : f.Nested) (tidy : f.Tidy) (small : scope < f.tree.scopes.size)
    (around : f.tree.Around scope u) (kind : ScopeKind) (owner : NodeId) :
    { f with tree := f.tree.openScope kind scope owner u }.Nested := by
  have either (i : ScopeId) (s : Scope)
      (found : (f.tree.openScope kind scope owner u).scopes[i]? = some s) :
      (i = f.tree.scopes.size ∧ s.parent = some scope ∧ s.span = u) ∨
        f.tree.scopes[i]? = some s := by
    rw [ScopeTree.getElem?_scopes_openScope] at found
    split at found
    · next last =>
      cases found
      exact .inl ⟨last, rfl, rfl⟩
    · exact .inr found
  have kept {i : ScopeId} {u' : Span} (small : i < f.tree.scopes.size)
      (around : f.tree.Around i u') : (f.tree.openScope kind scope owner u).Around i u' :=
    around.grow ScopeTree.grows_openScope small
  constructor
  · intro i p s found parent
    rcases either i s found with ⟨rfl, parent', span⟩ | before
    · cases parent.symm.trans parent'
      rw [span]
      exact kept small around
    · have inner := nested.scopes i p s before parent
      have known := (Array.getElem?_eq_some_iff.mp before).1
      rcases tidy.wellFormed.eq_zero_or known with rfl | ⟨s', p', before', -, parent', less⟩
      · obtain ⟨s', root, -, top⟩ := tidy.wellFormed.root
        cases before.symm.trans root
        cases parent.symm.trans top
      · cases before.symm.trans before'
        cases parent.symm.trans parent'
        exact kept (Nat.lt_trans less known) inner
  · intro i name symbol member
    rw [ScopeTree.lookupLocal_openScope] at member
    intro s found
    rcases either i s found with ⟨rfl, -, -⟩ | before
    · rw [ScopeTree.lookupLocal, Array.getElem?_eq_none (Nat.le_refl _)] at member
      cases member
    · exact nested.symbols i name symbol member s before
  · intro site member
    exact kept (tidy.references site member) (nested.references site member)

end Findings.Nested

theorem Walk.nested {span : Span} {scope : ScopeId} {f g : Findings} {ps : List Part}
    (walk : Walk span scope ps f g) (tidy : f.Tidy) (small : scope < f.tree.scopes.size)
    (neat : ∀ p ∈ allOf ps, p.Neat) (place : ∀ p ∈ ps, ∀ n ∈ p.node?, n.span.Within span)
    (around : f.tree.Around scope span) (nested : f.Nested) : g.Nested := by
  induction walk with
  | mention mentions => exact nested.mentions mentions neat place around
  | @declare span scope target p n i f g _ _ _ node id own placed _ mentions =>
      have below : ∀ q ∈ allOf p.children, q.Neat := by
        intro q member
        rw [allOf_singleton] at neat
        exact neat q (List.mem_cons_of_mem p member)
      have whole : p.Neat := neat p (mem_allOf_of_mem List.mem_cons_self)
      have lies := place p List.mem_cons_self n node
      have inner : f.tree.Around scope n.span := fun s found => lies.trans (around s found)
      have noted := nested.mentions mentions below
        (fun q member m held => whole.inside q member m held n node) inner
      have tidy := mentions.tidy tidy small
      rw [← mentions.tree] at small around
      have name : i.span.Within span := by
        refine declarable_within (p := p) (fun q member => neat q ?_)
          (place p List.mem_cons_self) (own ▸ List.mem_cons_self)
        exact (all_sublist_allOf List.mem_cons_self).subset member
      refine noted.declare tidy (placed.lt tidy.wellFormed small) _ _ _ ?_ _ _
      exact noted.ancestors tidy.wellFormed small (placed.mem_ancestors tidy.wellFormed small)
        fun s found => name.trans (around s found)
  | append first _ ih ih' =>
      rw [allOf_append] at neat
      have front := ih tidy small (fun p member => neat p (List.mem_append_left _ member))
        (fun p member => place p (List.mem_append_left _ member)) around nested
      obtain ⟨tidy, grows⟩ := first.tidy tidy small
      exact ih' tidy (grows.lt small) (fun p member => neat p (List.mem_append_right _ member))
        (fun p member => place p (List.mem_append_right _ member)) (around.grow grows small) front
  | swap _ _ ih =>
      refine ih tidy small (fun p member => neat p ?_) (fun p member => place p ?_) around nested
      · exact (allOf_perm List.perm_append_comm).mem_iff.mp member
      · exact List.perm_append_comm.mem_iff.mp member
  | @inside span scope p n f g node _ _ ih =>
      rw [allOf_singleton] at neat
      have whole : p.Neat := neat p List.mem_cons_self
      have lies := place p List.mem_cons_self n node
      exact ih tidy small (fun q member => neat q (List.mem_cons_of_mem p member))
        (fun q member m held => whole.inside q member m held n node)
        (fun s found => lies.trans (around s found)) nested
  | opening inner _ ih =>
      refine ih (tidy.openScope small inner _ _) (ScopeTree.lt_size_openScope _ _ _ _ _) neat place
        ?_ (nested.openScope tidy small around _ _)
      intro s found
      rw [ScopeTree.getElem?_scopes_openScope, if_pos rfl] at found
      cases found
      exact ⟨Nat.le_refl _, Nat.le_refl _⟩

/-! ## Documents -/

/-- The findings ahead of a walk. -/
def Findings.start (document : DocumentId) (span : Span) : Findings :=
  ⟨.ofModule document Program.rootId span, [], [], []⟩

theorem Findings.tidy_start (document : DocumentId) (span : Span) :
    (start document span).Tidy where
  wellFormed := ScopeTree.wellFormed_ofModule document Program.rootId span
  lists := by
    refine ⟨fun _ => ScopeTree.moduleId, nofun, fun i name => ?_⟩
    rw [ScopeTree.listed]
    obtain _ | i := i <;> rfl
  references := nofun

theorem Findings.nested_start (document : DocumentId) (span : Span) :
    (start document span).Nested where
  scopes i p s found parent := by
    obtain _ | i := i
    · cases found
      cases parent
    · cases found
  symbols i name symbol member := by
    obtain _ | i := i <;> cases member
  references := nofun

theorem Findings.tidy_collect (document : DocumentId) (p : Program) :
    (collect document p).Tidy :=
  ((walk_collect document p).tidy (tidy_start document p.span) Nat.zero_lt_one).1

section Documents

variable {document : DocumentId} {uri : String} {p : Program} {s : Symbol}

/-- Every symbol of a document is declared by one of its names. -/
theorem exists_declaredBy (member : s ∈ (computeScopes document uri p).tree.symbols) :
    ∃ i ∈ p.declarables, s.DeclaredBy document i := by
  obtain ⟨-, used, symbols, among, declared, same, -⟩ := (walk_collect document p).declares
  have listed : s ∈ symbols := by
    have all : (computeScopes document uri p).tree.symbols.toList = symbols := same
    rw [← all]
    exact Array.mem_def.mp member
  obtain ⟨k, small, rfl⟩ := List.mem_iff_getElem.mp listed
  have small' : k < used.length := declared.length_eq ▸ small
  exact ⟨used[k], among.subset (List.getElem_mem small'), declared.get small small'⟩

/-- What a document declares belongs to it. -/
theorem document_of_mem_symbols (member : s ∈ (computeScopes document uri p).tree.symbols) :
    s.document = some document := by
  obtain ⟨i, -, declared⟩ := exists_declaredBy member
  rw [Symbol.document, declared.origin]

theorem mem_symbols_of_mem_exports (member : s ∈ (computeScopes document uri p).exports.symbols) :
    s ∈ (computeScopes document uri p).tree.symbols := by
  obtain ⟨-, used, symbols, -, -, same, exports⟩ := (walk_collect document p).declares
  have all : (computeScopes document uri p).tree.symbols.toList = symbols := same
  rw [Array.mem_def, all]
  exact (exports s member).resolve_left List.not_mem_nil

end Documents

/-- A symbol is declared by a node before that of another one, and its name stands before it. -/
structure Symbol.Before (x y : Symbol) : Prop where
  node : ∃ m n, x.node = some m ∧ y.node = some n ∧ m < n
  span : x.span.stop ≤ y.span.start

theorem Symbol.before_of_follows {document : DocumentId} {symbols : List Symbol}
    {names : List Ident} (declared : List.Forall₂ (Symbol.DeclaredBy document) symbols names)
    (follow : names.Pairwise fun i j => Follows i.node j.node) :
    symbols.Pairwise Symbol.Before := by
  have length := declared.length_eq
  rw [List.pairwise_iff_getElem] at follow ⊢
  intro k l small small' less
  have first := declared.get small (length ▸ small)
  have second := declared.get small' (length ▸ small')
  have order := follow k l (length ▸ small) (length ▸ small') less
  refine ⟨⟨_, _, ?_, ?_, order.1⟩, ?_⟩
  · rw [Symbol.node, show symbols[k].origin = _ from first.origin]
    rfl
  · rw [Symbol.node, show symbols[l].origin = _ from second.origin]
    rfl
  · rw [show symbols[k].span = _ from first.span, show symbols[l].span = _ from second.span]
    exact order.2

/-- Symbols of one scope and one name are in the order of all symbols. -/
theorem ScopeTree.Lists.pairwise_lookupLocal {t : ScopeTree} {home : SymbolId → ScopeId}
    (lists : t.Lists home) {R : Symbol → Symbol → Prop} (ordered : t.symbols.toList.Pairwise R)
    (i : ScopeId) (name : String) : (t.lookupLocal i name).Pairwise R := by
  rw [lookupLocal_eq, lists.listed, List.pairwise_filterMap]
  rw [List.pairwise_iff_getElem] at ordered
  refine (List.pairwise_lt_range.filter _).imp fun {k l} less x here y there => ?_
  obtain ⟨small, rfl⟩ := Array.getElem?_eq_some_iff.mp here
  obtain ⟨small', rfl⟩ := Array.getElem?_eq_some_iff.mp there
  exact ordered k l small small' less

/-- Symbols are in the order of their declaring nodes and of the text. -/
theorem symbols_before (text : String) (document : DocumentId) :
    (collect document (parse text).program).tree.symbols.toList.Pairwise Symbol.Before := by
  obtain ⟨-, names, symbols, among, declared, same, -⟩ :=
    (walk_collect document (parse text).program).declares
  have all : (collect document (parse text).program).tree.symbols.toList = symbols := same
  rw [all]
  exact Symbol.before_of_follows declared ((declarables_follow text).sublist among)

theorem lookupLocal_before (text : String) (document : DocumentId) (i : ScopeId) (name : String) :
    ((collect document (parse text).program).tree.lookupLocal i name).Pairwise Symbol.Before := by
  obtain ⟨home, lists⟩ := (Findings.tidy_collect document (parse text).program).lists
  exact lists.pairwise_lookupLocal (symbols_before text document) i name

/-- Scopes are a tree with the module at its root, the only scope of its kind. Every symbol is
listed in one scope, once and under the canonical name of what declares it; symbols come in the
order of their declaring nodes and of the text, also those of one name in one scope. References
stand in scopes that are there. If nothing is wrong with the text, scopes lie in their parents,
symbols in the scopes that list them, and references in the scopes that they stand in. -/
theorem computeScopes_wellFormed (text : String) (document : DocumentId) (uri : String) :
    let p := (parse text).program
    let scopes := computeScopes document uri p
    let t := scopes.tree
    (t.WellFormed ∧ ∀ i < t.scopes.size, (t.ancestors i).getLast? = some ScopeTree.moduleId) ∧
      (∃ home, t.Lists home) ∧
      (∃ names, names.Sublist p.declarables ∧
        List.Forall₂ (Symbol.DeclaredBy document) t.symbols.toList names) ∧
      (t.symbols.toList.Pairwise Symbol.Before ∧
        ∀ i name, (t.lookupLocal i name).Pairwise Symbol.Before) ∧
      (∀ site ∈ scopes.references, site.scope < t.scopes.size) ∧
      ((parse text).isClean = true →
        (∀ (i p : ScopeId) s, t.scopes[i]? = some s → s.parent = some p → t.Around p s.span) ∧
        (∀ (i : ScopeId) name, ∀ symbol ∈ t.lookupLocal i name, t.Around i symbol.span) ∧
        ∀ site ∈ scopes.references, t.Around site.scope site.span) := by
  intro p scopes t
  have walk := walk_collect document p
  have small : ScopeTree.moduleId < (Findings.start document p.span).tree.scopes.size :=
    Nat.zero_lt_one
  obtain ⟨tidy, -⟩ := walk.tidy (Findings.tidy_start document p.span) small
  obtain ⟨-, names, symbols, among, declared, same, -⟩ := walk.declares
  have all : t.symbols.toList = symbols := same
  refine ⟨⟨tidy.wellFormed, fun i => ScopeTree.getLast?_ancestors tidy.wellFormed⟩, tidy.lists,
    ⟨names, among, all ▸ declared⟩,
    ⟨symbols_before text document, lookupLocal_before text document⟩,
    tidy.references, fun clean => ?_⟩
  obtain ⟨_, _, neatly⟩ := neatly_of_clean clean
  have nested := walk.nested (Findings.tidy_start document p.span) small neatly.neat ?_ ?_
    (Findings.nested_start document p.span)
  · exact ⟨nested.scopes, nested.symbols, nested.references⟩
  · intro q member n node
    refine ⟨Nat.zero_le _, (span_within (mem_allOf_of_mem member) (s := n.span) ?_).2⟩
    cases q <;> simp_all [span?, node?]
  · intro s found
    cases found
    exact ⟨Nat.le_refl _, Nat.le_refl _⟩

/-- A label and a variable that are hoisted out of a block to the method around it, and a class that
is imported inside of a procedure. -/
theorem computeScopes_wellFormed_hoisting :
    let text := "class A\nmethod public void m()\nif x then\nl: y = z\nfi\nmethodend\nclassend\n" ++
      "def fnf(a)\nuse ::b.bbj::B\nreturn a\nfnend\n"
    let scopes := computeScopes 0 "a.bbj" (parse text).program
    let t := scopes.tree
    (parse text).isClean = true ∧ t.scopes.size = 5 ∧
      (∀ (i p : ScopeId) s, t.scopes[i]? = some s → s.parent = some p → t.Around p s.span) ∧
      (∀ (i : ScopeId) name, ∀ symbol ∈ t.lookupLocal i name, t.Around i symbol.span) ∧
      ∀ site ∈ scopes.references, t.Around site.scope site.span :=
  ⟨by decide +kernel, by decide +kernel,
    (computeScopes_wellFormed _ 0 "a.bbj").2.2.2.2.2 (by decide +kernel)⟩

end BbjAnalysis
