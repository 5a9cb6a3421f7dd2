import BbjAnalysis.Proofs.Link.Meaning

/-! # Kinds of candidates

What is found in a document or in the workspace is of a kind that the reference may mean, and so is
what the Java catalog has for a dotted name. A type that is found nowhere else is looked for behind
the packages, and there the catalog may have a member instead of a class, which is taken for the
type (`LinkContext.IsMemberForType`). Every other candidate is of a legal kind
(`LinkContext.accepts_candidates_iff`).
-/

namespace BbjAnalysis

namespace LinkContext

variable {ctx : LinkContext} {site : ReferenceSite} {r : Java.Resolver} {s : Symbol}

theorem accepts_of_mem_lexical (member : s ∈ ctx.lexical site) : site.accepts s = true := by
  obtain ⟨i, -, legal⟩ := exists_of_mem_lexicalIn member
  exact (List.mem_filter.mp legal).2

theorem accepts_of_mem_ownExports (member : s ∈ ctx.ownExports site) : site.accepts s = true :=
  (List.mem_filter.mp member).2

theorem accepts_of_mem_inWorkspace {path : Option String} (member : s ∈ ctx.inWorkspace site path) :
    site.accepts s = true :=
  (List.mem_filter.mp (List.mem_filter.mp member).1).2

/-! ## The Java catalog -/

/-- What the catalog has for a name is a class, unless it reads the name as that of a member. -/
theorem kind_of_resolve (faithful : r.Faithful) {name : String}
    (found : (r.resolve name).1.symbol = some s) :
    s.kind = .externalClass ∨ s.kind = .externalMember ∧ r.catalog.ReadsMember name s := by
  obtain ⟨info, -, rfl⟩ | reads := Java.ClassSource.query_found (faithful.query_of_resolve found)
  · exact .inl rfl
  · obtain ⟨-, owner, member, info, -, -, -, rfl⟩ := id reads
    exact .inr ⟨rfl, reads⟩

/-- Both classes and members are legal where a dotted name stands. -/
theorem accepts_of_javaClass (faithful : r.Faithful) (kind : site.kind = .javaClass)
    {name : String} (found : (r.resolve name).1.symbol = some s) : site.accepts s = true := by
  rcases kind_of_resolve faithful found with isClass | ⟨isMember, -⟩
  · simp [ReferenceSite.accepts, kind, ReferenceKind.legalKinds, isClass]
  · simp [ReferenceSite.accepts, kind, ReferenceKind.legalKinds, isMember]

/-- A symbol that is taken for a type although it is a member: neither the document nor another one
has a type of the name, and the catalog has this member behind the first package that it has
anything behind. -/
structure IsMemberForType (ctx : LinkContext) (r : Java.Resolver) (site : ReferenceSite)
    (s : Symbol) : Prop where
  type : site.kind = .type
  lexical : ctx.lexical site = []
  ownExports : ctx.ownExports site = []
  workspace : ctx.inWorkspace site none = []
  first : firstInPackages r site.text ctx.packages = some s
  isMember : s.kind = .externalMember

theorem IsMemberForType.accepts (taken : ctx.IsMemberForType r site s) :
    site.accepts s = false := by
  simp [ReferenceSite.accepts, taken.type, ReferenceKind.legalKinds, taken.isMember]

theorem IsMemberForType.candidates (taken : ctx.IsMemberForType r site s) :
    (ctx.candidates r site).1 = ⟨[s], some .java, true⟩ := by
  have starts : site.kind.startsInDocument = true := by rw [taken.type]; rfl
  have leaves : site.kind.staysInDocument = false := by rw [taken.type]; rfl
  rw [candidates_of_startsInDocument starts, taken.lexical, taken.ownExports, leaves]
  simp [candidatesOutside_eq, taken.workspace, taken.type, taken.first]

/-- The catalog reads the name behind one of the packages as that of the member. -/
theorem IsMemberForType.readsMember (taken : ctx.IsMemberForType r site s)
    (faithful : r.Faithful) : ∃ package ∈ ctx.packages,
      r.catalog.ReadsMember (package ++ "." ++ site.text) s := by
  obtain ⟨package, among, found⟩ := List.exists_of_findSome?_eq_some taken.first
  rcases kind_of_resolve faithful found with isClass | ⟨-, reads⟩
  · rw [taken.isMember] at isClass
    cases isClass
  · exact ⟨package, among, reads⟩

/-! ## All candidates -/

/-- A candidate is of a kind that the reference may mean, unless it is a member for a type. -/
theorem accepts_or_isMemberForType (faithful : r.Faithful)
    (member : s ∈ (ctx.candidates r site).1.symbols) :
    site.accepts s = true ∨ ctx.IsMemberForType r site s := by
  cases FoundIn.of_mem member with
  | lexical member => exact .inl (accepts_of_mem_lexical member)
  | ownExports member => exact .inl (accepts_of_mem_ownExports member)
  | workspace path member => exact .inl (accepts_of_mem_inWorkspace member)
  | javaClass kind found => exact .inl (accepts_of_javaClass faithful kind found)
  | packages type lexical ownExports workspace first =>
      obtain ⟨package, -, found⟩ := List.exists_of_findSome?_eq_some first
      rcases kind_of_resolve faithful found with isClass | ⟨isMember, -⟩
      · left
        simp [ReferenceSite.accepts, type, ReferenceKind.legalKinds, isClass]
      · exact .inr ⟨type, lexical, ownExports, workspace, first, isMember⟩

theorem IsMemberForType.bound (taken : ctx.IsMemberForType r site s) (reportJava : Bool)
    {sites : List ReferenceSite} (distinct : (sites.map (·.node)).Nodup) (member : site ∈ sites) :
    (Links.link ctx reportJava r sites).1.bindings.get? site.node = some s := by
  have noted := Links.noted_link ctx reportJava r distinct member
  rw [taken.candidates] at noted
  exact congrArg Prod.fst noted

/-- Every candidate is of a kind that the reference may mean, and so is all that is bound, except
for members that are taken for types: a type that neither the document nor another one has is bound
to a member if that is what the catalog has behind the first package that it has anything behind. -/
theorem accepts_candidates_iff (ctx : LinkContext) {r : Java.Resolver} (faithful : r.Faithful) :
    (∀ site, ∀ s ∈ (ctx.candidates r site).1.symbols,
      (site.accepts s = false ↔ ctx.IsMemberForType r site s)) ∧
    (∀ site s, ctx.IsMemberForType r site s →
      (ctx.candidates r site).1 = ⟨[s], some .java, true⟩ ∧
      (∃ package ∈ ctx.packages, r.catalog.ReadsMember (package ++ "." ++ site.text) s) ∧
      ∀ reportJava sites, (sites.map (·.node)).Nodup → site ∈ sites →
        (Links.link ctx reportJava r sites).1.bindings.get? site.node = some s) ∧
    ∀ reportJava sites node s,
      (Links.link ctx reportJava r sites).1.bindings.get? node = some s →
        ∃ site ∈ sites, site.node = node ∧
          (site.accepts s = true ∨ ctx.IsMemberForType r site s) := by
  refine ⟨fun site s member => ⟨fun illegal => ?_, (·.accepts)⟩, fun site s taken => ?_,
    fun reportJava sites node s bound => ?_⟩
  · rcases accepts_or_isMemberForType faithful member with legal | taken
    · rw [illegal] at legal
      cases legal
    · exact taken
  · exact ⟨taken.candidates, taken.readsMember faithful,
      fun reportJava sites distinct member => taken.bound reportJava distinct member⟩
  · obtain ⟨site, among, here, candidate⟩ := Links.mem_candidates_of_bindings bound
    exact ⟨site, among, here, accepts_or_isMemberForType faithful candidate⟩

/-- A method of a class that is configured as a package. -/
theorem accepts_candidates_iff_method :
    let catalog := Java.Catalog.ofList [⟨"java.lang.Math", [], ["max"]⟩]
    let r := Java.Resolver.ofCatalog catalog
    let scopes := computeScopes 0 "main.bbj" (parse "declare max x!\n").program
    let ctx : LinkContext := ⟨0, scopes.tree, scopes.exports, .empty, ["java.lang.Math"]⟩
    let site : ReferenceSite := ⟨2, "max", "max", ⟨8, 11⟩, .type, 0⟩
    let method := Java.memberSymbol ⟨"java.lang.Math", [], ["max"]⟩ "max"
    r.Faithful ∧ scopes.references = [site] ∧ site.accepts method = false ∧
      ctx.IsMemberForType r site method ∧
      (ctx.candidates r site).1 = ⟨[method], some .java, true⟩ ∧
      (Links.link ctx true r scopes.references).1.bindings.get? 2 = some method := by
  intro catalog r scopes ctx site method
  have faithful : r.Faithful := Java.Resolver.faithful_ofCatalog catalog
  have references : scopes.references = [site] := by decide +kernel
  have taken : ctx.IsMemberForType r site method :=
    ⟨rfl, by decide +kernel, by decide +kernel, by decide +kernel, by decide +kernel, rfl⟩
  obtain ⟨legal, members, -⟩ := accepts_candidates_iff ctx faithful
  obtain ⟨candidates, -, bound⟩ := members site method taken
  have offered : method ∈ (ctx.candidates r site).1.symbols := by
    rw [candidates]
    exact List.mem_singleton_self method
  refine ⟨faithful, references, (legal site method offered).mpr taken, taken, candidates, ?_⟩
  exact bound true scopes.references (by rw [references]; decide) (by rw [references]; decide)

end LinkContext

end BbjAnalysis
