import BbjAnalysis.Proofs.Link.Label
import BbjAnalysis.Proofs.Scope.Exports
import BbjAnalysis.Proofs.Scope.Fields
import BbjAnalysis.Proofs.Symbol.Name

/-! # What accesses to fields are bound to

An access to a field is looked for in the nearest class around it and nowhere else, since documents
export no fields. So it is reported as unresolved exactly if that class neither declares the field
nor extends another class, whatever else there is in the workspace (`Links.link_fields`).
-/

namespace BbjAnalysis

open HasParts BbjAnalysis.Part

/-! ## The search for a field -/

/-- Fields are looked for in the nearest class around. -/
theorem ScopeTree.searched_field (t : ScopeTree) (hasSupertype : Bool) (ids : List ScopeId) :
    t.searched (.field hasSupertype) ids =
      (ids.find? fun i => t.kindOf i == some .classBody).toList := by
  induction ids with
  | nil => rfl
  | cons i rest ih =>
      rw [searched, List.find?_cons]
      cases t.kindOf i with
      | none => exact ih
      | some kind => cases kind <;> first | rfl | exact ih

namespace LinkContext

variable {ctx : LinkContext} {site : ReferenceSite} {hasSupertype : Bool}
  (field : site.kind = .field hasSupertype)

include field

theorem accepts_field (s : Symbol) : site.accepts s = (s.kind == .field) := by
  simp only [ReferenceSite.accepts, field, ReferenceKind.legalKinds, List.contains_cons,
    List.contains_nil, Bool.or_false]

theorem lexical_field : ctx.lexical site =
    ((ctx.tree.classScope? site.scope).map (ctx.tree.fieldsAt · site.name)).getD [] := by
  have legal (i : ScopeId) : ctx.legalIn site i = ctx.tree.fieldsAt i site.name :=
    List.filter_congr fun s _ => accepts_field field s
  rw [lexical, lexicalIn_eq, field, ctx.tree.searched_field, ← ScopeTree.classScope?]
  cases ctx.tree.classScope? site.scope with
  | none => rfl
  | some i =>
      rw [Option.toList_some, List.map_singleton, legal, Option.map_some, Option.getD_some]
      cases ctx.tree.fieldsAt i site.name <;> rfl

/-- Where no fields are exported, the class around an access decides. -/
theorem outcome_field (hidden : ∀ e ∈ ctx.exports.symbols, e.kind ≠ .field) (r : Java.Resolver) :
    (ctx.candidates r site).1.outcome = .ofOption (ctx.lexical site).head? := by
  have none : ctx.ownExports site = [] := by
    refine List.filter_eq_nil_iff.mpr fun e exported => ?_
    rw [accepts_field field, beq_iff_eq]
    exact hidden e (List.mem_filter.mp exported).1
  rw [outcome_of_staysInDocument (by rw [field]; rfl), none, List.append_nil]

end LinkContext

theorem Statement.kind_of_mem_shown {place : Standing} {st : Statement}
    {shown : SymbolKind × Ident} (member : shown ∈ st.shown place) : shown.1 ≠ .field := by
  cases st with
  | label node name => grind [Statement.shown]
  | globals node names => grind [Statement.shown]
  | classDecl node head members => grind [Statement.shown]
  | procedure node head | inlineProcedure node head => grind [Statement.shown]
  | _ => cases member

/-- Documents export no fields. -/
theorem kind_of_mem_exports {document : DocumentId} {uri : String} {p : Program} {e : Symbol}
    (member : e ∈ (computeScopes document uri p).exports.symbols) : e.kind ≠ .field := by
  have all : (computeScopes document uri p).exports.symbols =
      [] ++ p.shown.map (exportedSymbol document) := (shows_collect document p).exports
  rw [all] at member
  obtain ⟨shown, among, rfl⟩ := List.mem_map.mp member
  obtain ⟨st, -, among⟩ := List.mem_flatMap.mp among
  exact Statement.kind_of_mem_shown among

/-! ## Names -/

theorem ident_mem_children {q : Part} {name : Ident} (reads : q.access? = some name) :
    .ident name ∈ q.children := by
  cases q with
  | expr e =>
      cases e with
      | field node name' =>
          cases reads
          exact List.mem_cons_self
      | _ => cases reads
  | statement st =>
      cases st with
      | assign node explicitLet target value =>
          cases target with
          | var name' => cases reads
          | field name' =>
              cases reads
              exact List.mem_cons_self
      | _ => cases reads
  | _ => cases reads

section Names

variable {text : String}

/-- Names of accesses are as written. -/
theorem fieldKey_access {a : FieldAccess} (member : a ∈ (parse text).program.accesses) :
    fieldKey a.name = a.name.text := by
  have named : a.name ∈ (parse text).program.parts.filterMap access? := by
    rw [← Program.map_accesses]
    exact List.mem_map_of_mem member
  obtain ⟨q, among, reads⟩ := List.mem_filterMap.mp named
  exact canonicalName_field (Program.mem_parts_of_mem_children among (ident_mem_children reads))

/-- Names of fields are as written. -/
theorem fieldKey_field {a : FieldAccess} (member : a ∈ (parse text).program.accesses)
    {c : ClassDecl} (around : c ∈ a.around) {name : Ident} (declared : name ∈ c.fields) :
    fieldKey name = name.text := by
  obtain ⟨node, among⟩ := Statement.exists_classDecl_list _ member around
  have among : Part.statement (.classDecl node c.head c.members) ∈ (parse text).program.parts :=
    Program.mem_allStatements.mp among
  obtain ⟨st, inside, own⟩ := List.mem_filterMap.mp declared
  have child : Part.statement st ∈ (Statement.classDecl node c.head c.members).children :=
    List.mem_append_right _ (mem_parts_list.mpr ⟨st, inside, List.mem_singleton_self _⟩)
  have among := Program.mem_parts_of_mem_children among child
  cases st with
  | fieldDecl node decl =>
      cases own
      refine canonicalName_field (Program.mem_parts_of_mem_children among ?_)
      exact List.mem_append_right _ (List.mem_append_left _ List.mem_cons_self)
  | _ => cases own

end Names

namespace FieldAccess

/-- The fields of the given name in the innermost class around an access. -/
def targets (a : FieldAccess) : List Ident :=
  ((a.around.map ClassDecl.fields).getD []).filter (·.text == a.name.text)

/-- Whether the field may be inherited: the innermost class around it extends another one. -/
def isInheritable (a : FieldAccess) : Bool := (a.around.map ClassDecl.hasSupertype).getD false

theorem isInheritable_eq_false {a : FieldAccess} :
    a.isInheritable = false ↔ ∀ c ∈ a.around, c.head.supertypes = [] := by
  cases around : a.around <;> simp [isInheritable, around, ClassDecl.hasSupertype]

end FieldAccess

/-- Every access is a reference that means the fields of its name in the innermost class around it,
whatever the other documents are. -/
theorem exists_reference_of_access (text : String) (document : DocumentId) (uri : String)
    {a : FieldAccess} (member : a ∈ (parse text).program.accesses) :
    let scopes := computeScopes document uri (parse text).program
    ∃ site ∈ scopes.references, site.node = a.name.id ∧ site.kind = .field a.isInheritable ∧
      ∀ index packages,
        (LinkContext.mk document scopes.tree scopes.exports index packages).lexical site =
          a.targets.map (fieldSymbol document) := by
  intro scopes
  have walk := fieldWalk_collect document (parse text).program
  have owner : scopes.tree.document = document := walk.grows.document
  obtain ⟨site, among, noted⟩ := walk.accesses a member
  cases around : a.around with
  | none =>
      obtain ⟨kind, place⟩ := noted.outside around
      have outside : scopes.tree.classScope? site.scope = none :=
        place.trans (ScopeTree.classScope?_zero walk.after.wellFormed)
      refine ⟨site, among, noted.node, ?_, fun index packages => ?_⟩
      · rw [kind, FieldAccess.isInheritable, around]
        rfl
      · rw [LinkContext.lexical_field kind, outside, FieldAccess.targets, around]
        rfl
  | some c =>
      obtain ⟨kind, i, place, -, -, all⟩ := noted.inside c around
      have place : scopes.tree.classScope? site.scope = some i := place
      have all : scopes.tree.fieldsAt i site.name =
          fieldSymbols scopes.tree.document c.fields site.name := all site.name
      refine ⟨site, among, noted.node, ?_, fun index packages => ?_⟩
      · rw [kind, FieldAccess.isInheritable, around]
        rfl
      · rw [LinkContext.lexical_field kind, place, Option.map_some, Option.getD_some, all, owner,
          fieldSymbols, FieldAccess.targets, around, Option.map_some, Option.getD_some, noted.name,
          fieldKey_access member]
        refine congrArg (List.map _) (List.filter_congr fun name declared => ?_)
        rw [fieldKey_field member around declared]

/-! ## Reports -/

namespace Links

variable {l : Links} {ctx : LinkContext} {reportJava : Bool} {sites : List ReferenceSite}
  {site : ReferenceSite}

/-- What is reported at the node of a reference is what is to be reported of it. -/
theorem mem_diagnostics_iff
    (reported : l.diagnostics.Perm (sites.filterMap (l.report ctx reportJava)))
    (distinct : (sites.map (·.node)).Nodup) (member : site ∈ sites) (d : Diagnostic) :
    d ∈ l.diagnostics ∧ d.node = site.node ↔ l.report ctx reportJava site = some d := by
  rw [reported.mem_iff, List.mem_filterMap]
  constructor
  · rintro ⟨⟨other, among, found⟩, here⟩
    have same : other = site := List.inj_on_of_nodup_map distinct among member
      ((node_of_report found).symm.trans here)
    rwa [← same]
  · exact fun found => ⟨⟨site, member, found⟩, node_of_report found⟩

/-- A reference to a field that means the given symbol at most. -/
theorem report_field (ctx : LinkContext) (reportJava : Bool) {symbol : Option Symbol}
    {hasSupertype : Bool} (kind : site.kind = .field hasSupertype)
    (noted : l.noted site.node = (LinkOutcome.ofOption symbol).noted) :
    l.report ctx reportJava site =
      if hasSupertype = false ∧ symbol = none then
        some (.unresolved ctx.document site.node site.span site.kind.display site.text)
      else none := by
  simp only [Links.noted, Prod.ext_iff] at noted
  obtain ⟨-, unambiguous, unresolved⟩ := noted
  cases symbol with
  | some symbol =>
      have resolved : site.node ∉ l.unresolved := unresolved.mp
      rw [report_of_resolved unambiguous resolved]
      simp
  | none =>
      have unresolved : site.node ∈ l.unresolved := unresolved.mpr trivial
      rw [report_of_unresolved unambiguous unresolved, unresolvedDiagnostic, kind]
      cases hasSupertype <;> simp

end Links

/-- Every `#name` is reported as unresolved exactly if the innermost class around it, if there is
one, neither extends another class nor has a field of exactly this name among its members, and it is
bound to the first such field. -/
theorem Links.link_fields (text : String) (document : DocumentId) (uri : String)
    (index : WorkspaceIndex) (packages : List String) (resolver : Java.Resolver)
    (reportJava : Bool) :
    let p := (parse text).program
    let scopes := computeScopes document uri p
    let ctx : LinkContext := ⟨document, scopes.tree, scopes.exports, index, packages⟩
    let l := (Links.link ctx reportJava resolver scopes.references).1
    p.accesses.map (·.name) = p.parts.filterMap access? ∧ ∀ a ∈ p.accesses,
      ((∃ d ∈ l.diagnostics, d.node = a.name.id ∧ d.code = some Code.unresolvedReference) ↔
        (∀ c ∈ a.around, c.head.supertypes = []) ∧ a.targets = []) ∧
      l.bindings.get? a.name.id = a.targets.head?.map (fieldSymbol document) := by
  intro p scopes ctx l
  refine ⟨p.map_accesses, fun a member => ?_⟩
  obtain ⟨site, among, node, kind, lexical⟩ := exists_reference_of_access text document uri member
  have distinct := (references_apart text document uri).1
  have diagnostics := (link_noted ctx reportJava resolver distinct).2.1
  have outcome : (ctx.candidates resolver site).1.outcome =
      .ofOption (a.targets.head?.map (fieldSymbol document)) := by
    rw [LinkContext.outcome_field kind (fun e => kind_of_mem_exports), lexical, List.head?_map]
  have noted := noted_link ctx reportJava resolver distinct among
  rw [outcome] at noted
  constructor
  · rw [← FieldAccess.isInheritable_eq_false, ← node]
    have report := report_field ctx reportJava kind noted
    have listed (d : Diagnostic) := mem_diagnostics_iff diagnostics distinct among d
    simp only [Option.map_eq_none_iff, List.head?_eq_none_iff] at report
    constructor
    · rintro ⟨d, reported, here, -⟩
      have found := (listed d).mp ⟨reported, here⟩
      rw [report] at found
      split at found
      · next both => exact both
      · cases found
    · intro both
      rw [if_pos both] at report
      obtain ⟨reported, here⟩ := (listed _).mpr report
      exact ⟨_, reported, here, rfl⟩
  · have bound := get?_bindings_link ctx reportJava resolver distinct among
    rwa [outcome, boundSymbol_ofOption, node] at bound

/-- A class in a class that extends another one. -/
example :
    let text := "class A extends B\nfield T x\n#x = 1\nclass C\nif z then\nfield T x\nfi\n" ++
      "field T y\n#x = #y\nclassend\nclassend\n"
    (parse text).program.accesses.map (fun a =>
        (a.name.text, a.isInheritable, a.targets.map (·.span.start))) =
      [("x", true, [26]), ("x", false, []), ("y", false, [74])] := by
  decide +kernel

end BbjAnalysis
