import BbjAnalysis.Proofs.Link.Meaning
import BbjAnalysis.Proofs.Scope.Labels

/-! # What branch targets are bound to

A branch target is bound to the first label that is found in the scopes around it, and to none if
there is none: neither the other documents nor the Java catalog matter.
-/

namespace BbjAnalysis

namespace Links

/-- The symbol of an outcome. -/
def boundSymbol : LinkOutcome → Option Symbol
  | .bound symbol => some symbol
  | .ambiguous _ | .unresolved => none

theorem boundSymbol_ofOption (symbol : Option Symbol) :
    boundSymbol (.ofOption symbol) = symbol := by
  cases symbol <;> rfl

/-- A reference is bound as its candidates say. -/
theorem get?_bindings_link (ctx : LinkContext) (reportJava : Bool) (r : Java.Resolver)
    {sites : List ReferenceSite} (distinct : (sites.map (·.node)).Nodup) {site : ReferenceSite}
    (member : site ∈ sites) : (link ctx reportJava r sites).1.bindings.get? site.node =
      boundSymbol (ctx.candidates r site).1.outcome := by
  have noted := congrArg Prod.fst (noted_link ctx reportJava r distinct member)
  refine Eq.trans noted ?_
  cases (ctx.candidates r site).1.outcome <;> rfl

end Links

namespace LinkContext

variable (ctx : LinkContext) {site : ReferenceSite} (label : site.kind = .label)

include label

theorem filter_accepts_label (symbols : List Symbol) :
    symbols.filter site.accepts = symbols.filter (·.kind == .label) := by
  congr 1
  funext s
  simp only [ReferenceSite.accepts, label, ReferenceKind.legalKinds, List.contains_cons,
    List.contains_nil, Bool.or_false]

/-- Labels are looked for in all scopes around a branch target. -/
theorem searched_label (ids : List ScopeId) : ctx.tree.searched site.kind ids = ids := by
  rw [label]
  exact ctx.tree.searched_eq_self (fun _ => rfl) fun _ _ => rfl

theorem legalIn_label (i : ScopeId) : ctx.legalIn site i = ctx.tree.labelsAt i site.name :=
  filter_accepts_label label _

theorem boundSymbol_label (r : Java.Resolver) :
    Links.boundSymbol (ctx.candidates r site).1.outcome =
      (ctx.lexical site ++ ctx.ownExports site).head? := by
  rw [outcome_of_staysInDocument (by rw [label]; rfl), Links.boundSymbol_ofOption]

/-- A branch target is bound to a label of a scope around it. What its document exports is in the
scope of the module, which is around everything. -/
theorem exists_of_boundSymbol (wf : ctx.tree.WellFormed) (small : site.scope < ctx.tree.scopes.size)
    (own : ∀ e ∈ ctx.exports.symbols, e.kind = .label →
      e ∈ ctx.tree.labelsAt ScopeTree.moduleId e.name) {r : Java.Resolver} {symbol : Symbol}
    (bound : Links.boundSymbol (ctx.candidates r site).1.outcome = some symbol) :
    ∃ i ∈ ctx.tree.ancestors site.scope, symbol ∈ ctx.tree.labelsAt i site.name := by
  rw [boundSymbol_label ctx label] at bound
  rcases List.mem_append.mp (List.mem_of_head? bound) with found | found
  · obtain ⟨i, among, legal⟩ := exists_of_mem_lexicalIn found
    rw [searched_label ctx label] at among
    rw [legalIn_label ctx label] at legal
    exact ⟨i, among, legal⟩
  · rw [ownExports, filter_accepts_label label] at found
    obtain ⟨found, isLabel⟩ := List.mem_filter.mp found
    obtain ⟨exported, name⟩ := List.mem_filter.mp found
    refine ⟨_, ScopeTree.zero_mem_ancestors wf small, ?_⟩
    rw [← beq_iff_eq.mp name]
    exact own symbol exported (beq_iff_eq.mp isLabel)

/-- A branch target that is not bound has no label in the scopes around it. -/
theorem labelsAt_of_boundSymbol_eq_none {r : Java.Resolver}
    (unbound : Links.boundSymbol (ctx.candidates r site).1.outcome = none) :
    ∀ i ∈ ctx.tree.ancestors site.scope, ctx.tree.labelsAt i site.name = [] := by
  rw [boundSymbol_label ctx label] at unbound
  have nothing := (List.append_eq_nil_iff.mp (List.head?_eq_none_iff.mp unbound)).1
  intro i around
  rw [← legalIn_label ctx label]
  refine lexicalIn_eq_nil.mp nothing i ?_
  rw [searched_label ctx label]
  exact around

end LinkContext

end BbjAnalysis
