import BbjAnalysis.Proofs.Scope.Labels
import BbjAnalysis.Proofs.Scope.Shape
import BbjAnalysis.Proofs.Scope.Uses

/-! # Fields of classes and accesses to them

A class has the fields that are declared among its members themselves, and an access `#name` is one
to the innermost class around it (`Statement.accesses`). The walk notes with each access whether
that class extends another one, and the nearest scope of a class around the access is the one that
lists the fields of that very class and no others (`FieldWalk`).
-/

namespace BbjAnalysis

open HasParts BbjAnalysis.Part

/-! ## Classes and accesses -/

/-- A class with its members. -/
structure ClassDecl where
  head : ClassHead
  members : List Statement

/-- The name of the field that a statement declares. -/
def Statement.field? : Statement → Option Ident
  | .fieldDecl _ decl => some decl.name
  | _ => none

/-- The fields that several statements declare themselves. -/
def fieldsOf (sts : List Statement) : List Ident := sts.filterMap Statement.field?

theorem fieldsOf_singleton (st : Statement) : fieldsOf [st] = st.field?.toList := by
  rw [fieldsOf, List.filterMap_cons]
  cases st.field? <;> rfl

theorem fieldsOf_cons (st : Statement) (rest : List Statement) :
    fieldsOf (st :: rest) = fieldsOf [st] ++ fieldsOf rest := by
  rw [fieldsOf, ← List.singleton_append, List.filterMap_append, fieldsOf, fieldsOf]

/-- The fields that a class declares, without those of classes and blocks in it. -/
def ClassDecl.fields (c : ClassDecl) : List Ident := fieldsOf c.members

/-- Whether a class extends another one. What it implements does not matter. -/
def ClassDecl.hasSupertype (c : ClassDecl) : Bool := !c.head.supertypes.isEmpty

/-- The name of the field that a part reads or writes. -/
def Part.access? : Part → Option Ident
  | .expr (.field _ name) | .statement (.assign _ _ (.field name) _) => some name
  | _ => none

/-- An access to a field of the object itself, with the innermost class around it. -/
structure FieldAccess where
  around : Option ClassDecl
  name : Ident

/-- The access in a class, which is the innermost one unless there is one in it. -/
def FieldAccess.inside (c : ClassDecl) (a : FieldAccess) : FieldAccess :=
  ⟨a.around.or (some c), a.name⟩

/-- The accesses in parts without classes. -/
def accessesIn (ps : List Part) : List FieldAccess := (picked access? ps).map (⟨none, ·⟩)

namespace Statement

mutual

/-- The accesses in a statement, each with the innermost class around it that is in the statement,
too. -/
def accesses : Statement → List FieldAccess
  | classDecl _ head members => (accessesList members).map (·.inside ⟨head, members⟩)
  | method _ _ body | procedure _ _ body => accessesList body
  | branch _ condition thenBranch elseBranch =>
      accessesIn (parts condition) ++ (accessesList thenBranch ++ accessesList elseBranch)
  | forLoop _ head body _ => accessesIn (parts head) ++ accessesList body
  | whileLoop _ condition body => accessesIn (parts condition) ++ accessesList body
  | s@(label _ _) | s@(rem _) | s@(assign _ _ _ _) | s@(declare _ _ _ _) | s@(globals _ _)
  | s@(useJava _ _) | s@(useClass _ _ _) | s@(fieldDecl _ _) | s@(inlineProcedure _ _ _)
  | s@(jump _ _ _ _) | s@(openFile _ _) | s@(keyedFile _ _) | s@(print _ _) | s@(ret _ _)
  | s@(terminate _ _) | s@(expr _ _) => accessesIn [.statement s]

def accessesList : List Statement → List FieldAccess
  | [] => []
  | s :: rest => accesses s ++ accessesList rest

end

end Statement

/-- The accesses in a program, each with the innermost class around it. -/
def Program.accesses (p : Program) : List FieldAccess := Statement.accessesList p.statements

@[simp] theorem map_name_accessesIn (ps : List Part) :
    (accessesIn ps).map (·.name) = picked access? ps := by
  rw [accessesIn, List.map_map]
  exact List.map_id _

theorem access?_of_leaf {p : Part} (leaf : p.children = []) : p.access? = none := by
  cases p with
  | expr e => cases e <;> first | rfl | simp [Part.children, Expr.children] at leaf
  | statement s =>
      cases s with
      | assign _ _ target value =>
          cases target <;> simp [Part.children, Statement.children] at leaf
      | _ => rfl
  | _ => rfl

theorem Leaves.picked_access {ps : List Part} (leaves : Leaves ps) : picked access? ps = [] := by
  induction ps with
  | nil => rfl
  | cons p ps ih =>
      have leaf := (leaves p List.mem_cons_self).1
      rw [picked_cons, access?_of_leaf leaf, leaf, ih fun q among => leaves q (.tail p among)]
      rfl

namespace Statement

/-- What a statement accesses ahead of what it opens. -/
def ownAccesses (s : Statement) : List FieldAccess :=
  ((Part.statement s).access?.toList ++ picked access? s.aheadParts).map (⟨none, ·⟩)

/-- The accesses in what is opened for a statement. -/
def bodyAccesses : Statement → List FieldAccess
  | classDecl _ head members => (accessesList members).map (·.inside ⟨head, members⟩)
  | s => accessesIn s.entryParts ++ accessesList s.body

theorem accessesList_cons (s : Statement) (ss : List Statement) :
    accessesList (s :: ss) = accessesList [s] ++ accessesList ss := by
  rw [accessesList, accessesList, accessesList, List.append_nil]

theorem accessesList_singleton (s : Statement) : accessesList [s] =
    s.ownAccesses ++ (s.bodyAccesses ++ accessesList s.elseBranch) := by
  have type (type : Option TypeRef) := (leaves_type type).picked_access
  have types (types : List TypeRef) := (leaves_types types).picked_access
  have params (params : List Param) := (leaves_params params).picked_access
  rw [accessesList, accessesList, List.append_nil]
  cases s <;>
    simp [accesses, accessesIn, ownAccesses, bodyAccesses, aheadParts, entryParts, body,
      elseBranch, accessesList, picked_cons, access?, Part.children, children, type, types, params]

/-- Nothing behind what is in a statement is an access. -/
theorem picked_access_closing (s : Statement) : picked access? s.closingParts = [] := by
  cases s with
  | forLoop _ _ _ next => exact (leaves_next next).picked_access
  | _ => rfl

theorem map_name_bodyAccesses {s : Statement}
    (body : (accessesList s.body).map (·.name) = picked access? (parts s.body)) :
    s.bodyAccesses.map (·.name) = picked access? (s.entryParts ++ parts s.body) := by
  cases s with
  | classDecl =>
      rw [bodyAccesses, List.map_map]
      exact body
  | _ =>
      refine List.map_append.trans ?_
      rw [map_name_accessesIn, body, picked_append]

/-- Every part that reads or writes a field is an access, in the order of the source. -/
theorem map_accessesList (ss : List Statement) :
    (accessesList ss).map (·.name) = picked access? (parts ss) := by
  induction ss using list_induction with
  | nil => rfl
  | cons s ss first rest =>
      rw [accessesList_cons, List.map_append, first, rest, parts_singleton, ← picked_append,
        parts_cons]
  | single s body other =>
      have own : s.ownAccesses.map (·.name) =
          (Part.statement s).access?.toList ++ picked access? s.aheadParts := by
        rw [ownAccesses, List.map_map]
        exact List.map_id _
      rw [accessesList_singleton, List.map_append, List.map_append, own,
        map_name_bodyAccesses body, other, parts_singleton, parts_statement, picked_cons,
        Part.children, s.children_eq]
      simp only [picked_append, picked_access_closing, picked_nil, List.append_nil,
        List.append_assoc]

theorem around_of_mem_ownAccesses {s : Statement} {a : FieldAccess}
    (member : a ∈ s.ownAccesses) : a.around = none := by
  obtain ⟨name, -, rfl⟩ := List.mem_map.mp member
  rfl

theorem around_of_mem_bodyAccesses {s : Statement} {a : FieldAccess}
    (member : a ∈ s.bodyAccesses) {c : ClassDecl} (inside : c ∈ a.around) :
    (∃ node, s = classDecl node c.head c.members) ∨ ∃ b ∈ accessesList s.body, c ∈ b.around := by
  cases s with
  | classDecl node head members =>
      obtain ⟨b, inner, rfl⟩ := List.mem_map.mp member
      cases around : b.around with
      | none =>
          obtain rfl : ⟨head, members⟩ = c := by simpa [FieldAccess.inside, around] using inside
          exact .inl ⟨node, rfl⟩
      | some d =>
          obtain rfl : d = c := by simpa [FieldAccess.inside, around] using inside
          exact .inr ⟨b, inner, around⟩
  | _ =>
      rcases List.mem_append.mp member with start | member
      · obtain ⟨name, -, rfl⟩ := List.mem_map.mp start
        cases inside
      · exact .inr ⟨a, member, inside⟩

/-- The class around an access is one of the statements. -/
theorem exists_classDecl_list (ss : List Statement) {a : FieldAccess}
    (member : a ∈ accessesList ss) {c : ClassDecl} (inside : c ∈ a.around) :
    ∃ node, classDecl node c.head c.members ∈ walkList ss := by
  induction ss using list_induction generalizing a with
  | nil => cases member
  | cons s ss first rest =>
      rw [accessesList_cons, List.mem_append] at member
      simp only [walkList_cons s ss, List.mem_append, exists_or]
      exact member.imp (first · inside) (rest · inside)
  | single s body other =>
      rw [accessesList_singleton, List.mem_append, List.mem_append] at member
      simp only [walkList_singleton_eq, List.cons_append, List.mem_cons, List.mem_append, exists_or]
      rcases member with own | member | member
      · rw [around_of_mem_ownAccesses own] at inside
        cases inside
      · rcases around_of_mem_bodyAccesses member inside with ⟨node, rfl⟩ | ⟨b, inner, inside⟩
        · exact .inl ⟨node, rfl⟩
        · exact .inr (.inl (body inner inside))
      · exact .inr (.inr (other member inside))

end Statement

theorem Program.map_accesses (p : Program) :
    p.accesses.map (·.name) = p.parts.filterMap access? := Statement.map_accessesList p.statements

/-! ## References to fields -/

/-- The name under which a field is declared and looked for. -/
def fieldKey (name : Ident) : String := canonicalName name.text .field

/-- The reference as which an access is noted. -/
def Surroundings.accessSite (s : Surroundings) (name : Ident) : ReferenceSite :=
  s.site name.id name.text name.span (.field s.classHasSupertype)

theorem Surroundings.name_accessSite (s : Surroundings) (name : Ident) :
    (s.accessSite name).name = fieldKey name := by
  simp only [accessSite, site, ReferenceKind.nameKind, fieldKey]

/-- Between `f` and `g` nothing but references was noted, among them accesses to the given names. -/
structure Reads (s : Surroundings) (names : List Ident) (f g : Findings) : Prop where
  tree : g.tree = f.tree
  kept : f.references ⊆ g.references
  noted : ∀ name ∈ names, s.accessSite name ∈ g.references

/-- The fields that are accessed where names are referred to. -/
def Referral.accessed : Referral → List Ident
  | .expr e => picked access? (HasParts.parts e)
  | .options os => picked access? (HasParts.parts os)
  | .access name => [name]
  | .type _ | .javaClass _ | .ident _ _ => []

namespace Reads

variable {s : Surroundings} {f g : Findings} {ps : List Part}

theorem silent (mentions : Mentions s.scope ps f g) : Reads s [] f g where
  tree := mentions.tree
  kept := by
    obtain ⟨sites, references, -⟩ := mentions.noted
    rw [references]
    exact List.subset_append_left _ _
  noted := nofun

/-- What is noted of expressions is noted of the accesses among them. -/
theorem of_notes {placed : List (Expr × Bool)} (mentions : Mentions s.scope ps f g)
    (notes : Notes s placed f g) (visited : placed.map (·.1) = picked expr? ps)
    (plain : ∀ st, .statement st ∉ ps) : Reads s (picked access? ps) f g := by
  refine { silent mentions with noted := fun name inside => ?_ }
  obtain ⟨q, among, reads⟩ := List.mem_filterMap.mp inside
  cases q with
  | expr e =>
      cases e with
      | field node name' =>
          cases reads
          have met : .field node name ∈ placed.map (·.1) := by
            rw [visited]
            exact List.mem_filterMap.mpr ⟨_, among, rfl⟩
          obtain ⟨⟨e, isTarget⟩, met, rfl⟩ := List.mem_map.mp met
          rw [notes]
          exact List.mem_append_right _ (List.mem_filterMap.mpr ⟨_, met, rfl⟩)
      | _ => cases reads
  | statement st => exact absurd among (statement_not_mem_allOf plain st)
  | _ => cases reads

end Reads

theorem reads_note (s : Surroundings) (f : Findings) (r : Referral) :
    Reads s r.accessed f (r.note s f) := by
  cases r with
  | expr e =>
      exact .of_notes (mentions_collectExpr s f e) (notes_collectExpr s f e)
        ((e.map_placedWalk false).trans e.walk_eq) (by simp)
  | options os =>
      exact .of_notes (mentions_collectOptions s f os) (notes_collectOptions s f os)
        ((Expr.map_placedOptions os).trans (Expr.walkOptions_eq os)) (by simp [mem_parts_list])
  | type name => exact .silent (mentions_referType s f name)
  | javaClass name => exact .silent (mentions_referJava s f name)
  | ident name kind => exact .silent (mentions_referIdent s f name kind)
  | access name =>
      refine { Reads.silent (mentions_referIdent s f name _) with noted := fun other same => ?_ }
      obtain rfl := List.mem_singleton.mp same
      exact List.mem_append_right _ (List.mem_singleton_self _)

/-! ## Scopes of classes -/

namespace ScopeTree

/-- The fields declared in a scope under a name. -/
def fieldsAt (t : ScopeTree) (i : ScopeId) (name : String) : List Symbol :=
  (t.lookupLocal i name).filter (·.kind == .field)

/-- The nearest scope of a class around a scope. -/
def classScope? (t : ScopeTree) (i : ScopeId) : Option ScopeId :=
  (t.ancestors i).find? fun j => t.kindOf j == some .classBody

variable {t t' : ScopeTree} {i : ScopeId}

theorem Grows.size_le (grows : t.Grows t') : t.scopes.size ≤ t'.scopes.size := by
  by_contra more
  exact Nat.lt_irrefl _ (grows.lt (Nat.lt_of_not_le more))

theorem Grows.kindOf (grows : t.Grows t') (small : i < t.scopes.size) :
    t'.kindOf i = t.kindOf i := by
  have found := Array.getElem?_eq_getElem small
  obtain ⟨s', found', kind, -⟩ := grows.scopes i _ found
  rw [ScopeTree.kindOf, ScopeTree.kindOf, found, found', Option.map_some, Option.map_some, kind]

theorem Grows.classScope? (grows : t.Grows t') (wf : t.WellFormed) (wf' : t'.WellFormed)
    (small : i < t.scopes.size) : t'.classScope? i = t.classScope? i := by
  rw [ScopeTree.classScope?, ScopeTree.classScope?, grows.ancestors wf wf' small,
    ← List.head?_filter, ← List.head?_filter]
  refine congrArg List.head? (List.filter_congr fun j around => ?_)
  rw [grows.kindOf (lt_of_mem_ancestors wf small around)]

theorem classScope?_zero (wf : t.WellFormed) : t.classScope? 0 = none := by
  obtain ⟨s, found, kind, -⟩ := wf.root
  simp [classScope?, ancestors_zero wf, kindOf, found, kind]

theorem classScope?_openScope (wf : t.WellFormed) {kind : ScopeKind} {parent : ScopeId}
    (small : parent < t.scopes.size) (plain : kind ≠ .module) (owner : NodeId) (span : Span) :
    (t.openScope kind parent owner span).classScope? t.scopes.size =
      if kind = .classBody then some t.scopes.size else t.classScope? parent := by
  have wf' := wf.openScope small plain owner span
  have found : (t.openScope kind parent owner span).scopes[t.scopes.size]? = _ :=
    (getElem?_scopes_openScope _).trans (if_pos rfl)
  have own : (t.openScope kind parent owner span).kindOf t.scopes.size = some kind := by
    rw [kindOf, found, Option.map_some]
  rw [classScope?, ancestors_eq_cons wf' found rfl small, List.find?_cons, own]
  split
  · next isClass => rw [if_pos (Option.some.inj (beq_iff_eq.mp isClass))]
  · next other =>
    have other : kind ≠ .classBody := fun same => by simp [same] at other
    rw [if_neg other]
    exact grows_openScope.classScope? wf wf' small

end ScopeTree

/-! ## What the walk does to fields -/

/-- A field as it is declared. -/
def fieldSymbol (document : DocumentId) (name : Ident) : Symbol :=
  ⟨fieldKey name, .field, false, .declared document name.id, name.span, none⟩

/-- The symbols of those fields that have the given name. -/
def fieldSymbols (document : DocumentId) (fields : List Ident) (name : String) : List Symbol :=
  (fields.filter (fieldKey · == name)).map (fieldSymbol document)

/-- The reference that an access is noted as during a walk that ends with the given tree: the
nearest class around it is the one around the walk, or one whose scope was opened since there were
as many scopes as `opened`. Only the latter has all its fields. -/
structure FieldAccess.NotedAs (s : Surroundings) (opened : Nat) (t : ScopeTree) (a : FieldAccess)
    (site : ReferenceSite) : Prop where
  node : site.node = a.name.id
  name : site.name = fieldKey a.name
  small : site.scope < t.scopes.size
  outside : a.around = none → site.kind = .field s.classHasSupertype ∧
    t.classScope? site.scope = t.classScope? s.scope
  inside : ∀ c ∈ a.around, site.kind = .field c.hasSupertype ∧ ∃ i,
    t.classScope? site.scope = some i ∧ opened ≤ i ∧ i < t.scopes.size ∧
    ∀ name, t.fieldsAt i name = fieldSymbols t.document c.fields name

/-- The walk is in a scope that is there. -/
structure Present (s : Surroundings) (f : Findings) : Prop where
  wellFormed : f.tree.WellFormed
  small : s.scope < f.tree.scopes.size

theorem Present.grow {s : Surroundings} {f g : Findings} (present : Present s f)
    (grows : f.tree.Grows g.tree) (wf : g.tree.WellFormed) : Present s g :=
  ⟨wf, grows.lt present.small⟩

/-- The walk in a scope that is opened next. -/
theorem Present.inside {s : Surroundings} {f : Findings} (present : Present s f) (kind : ScopeKind)
    (plain : kind ≠ .module) (owner : Node) : Present (s.inside f) (f.openScope s kind owner) where
  wellFormed := present.wellFormed.openScope present.small plain owner.id owner.span
  small := f.tree.lt_size_openScope kind s.scope owner.id owner.span

/-- Between `f` and `g` the given fields were declared in the scope where the walk is, none in other
scopes that were there, and the given accesses were noted. -/
structure FieldWalk (s : Surroundings) (fields : List Ident) (accesses : List FieldAccess)
    (f g : Findings) : Prop where
  before : Present s f
  after : Present s g
  grows : f.tree.Grows g.tree
  kept : f.references ⊆ g.references
  fields : ∀ i < f.tree.scopes.size, ∀ name, g.tree.fieldsAt i name =
    f.tree.fieldsAt i name ++
      if i = s.scope then fieldSymbols f.tree.document fields name else []
  accesses : ∀ a ∈ accesses, ∃ site ∈ g.references,
    a.NotedAs s f.tree.scopes.size g.tree site

namespace FieldWalk

variable {s : Surroundings} {fields fields' : List Ident} {accesses accesses' : List FieldAccess}
  {f g h : Findings}

/-- The classes around the scopes of before stay. -/
theorem classScope? (walk : FieldWalk s fields accesses f g) {i : ScopeId}
    (small : i < f.tree.scopes.size) : g.tree.classScope? i = f.tree.classScope? i :=
  walk.grows.classScope? walk.before.wellFormed walk.after.wellFormed small

theorem append (first : FieldWalk s fields accesses f g)
    (second : FieldWalk s fields' accesses' g h) :
    FieldWalk s (fields ++ fields') (accesses ++ accesses') f h where
  before := first.before
  after := second.after
  grows := first.grows.trans second.grows
  kept := List.Subset.trans first.kept second.kept
  fields i small name := by
    rw [second.fields i (first.grows.lt small) name, first.fields i small name,
      first.grows.document, List.append_assoc]
    split
    · simp [fieldSymbols]
    · rfl
  accesses a member := by
    rcases List.mem_append.mp member with member | member
    · obtain ⟨site, among, noted⟩ := first.accesses a member
      refine ⟨site, second.kept among, noted.node, noted.name, second.grows.lt noted.small, ?_, ?_⟩
      · intro outside
        obtain ⟨kind, around⟩ := noted.outside outside
        rw [second.classScope? noted.small, around, second.classScope? first.after.small]
        exact ⟨kind, rfl⟩
      · intro c inside
        obtain ⟨kind, i, around, least, small, all⟩ := noted.inside c inside
        refine ⟨kind, i, ?_, least, second.grows.lt small, fun name => ?_⟩
        · rw [second.classScope? noted.small, around]
        · have other : i ≠ s.scope := Nat.ne_of_gt (Nat.lt_of_lt_of_le first.before.small least)
          rw [second.fields i small name, if_neg other, List.append_nil, all name,
            second.grows.document]
    · obtain ⟨site, among, noted⟩ := second.accesses a member
      refine ⟨site, among, noted.node, noted.name, noted.small, noted.outside, fun c inside => ?_⟩
      obtain ⟨kind, i, around, least, rest⟩ := noted.inside c inside
      exact ⟨kind, i, around, Nat.le_trans first.grows.size_le least, rest⟩

theorem mono (walk : FieldWalk s fields accesses f g) (fewer : accesses' ⊆ accesses) :
    FieldWalk s fields accesses' f g :=
  { walk with accesses := fun a member => walk.accesses a (fewer member) }

/-- References alone. -/
theorem reads {names : List Ident} (present : Present s f) (reads : Reads s names f g) :
    FieldWalk s [] (names.map (⟨none, ·⟩)) f g where
  before := present
  after := present.grow (reads.tree ▸ .refl _) (reads.tree ▸ present.wellFormed)
  grows := reads.tree ▸ .refl _
  kept := reads.kept
  fields i _ name := by
    rw [reads.tree]
    split <;> exact (List.append_nil _).symm
  accesses a member := by
    obtain ⟨name, inside, rfl⟩ := List.mem_map.mp member
    refine ⟨s.accessSite name, reads.noted name inside, ?_⟩
    exact ⟨rfl, s.name_accessSite name, reads.tree ▸ present.small, fun _ => ⟨rfl, rfl⟩, nofun⟩

/-- References among which no accesses are looked for. -/
theorem mentions {ps : List Part} (present : Present s f) (mentions : Mentions s.scope ps f g) :
    FieldWalk s [] [] f g :=
  reads present (.silent mentions)

theorem skip (present : Present s f) : FieldWalk s [] [] f f :=
  mentions present (.skip : Mentions s.scope [] f f)

/-- Declaring something else than a field. -/
theorem declare (present : Present s f) {target : ScopeId}
    (place : target < f.tree.scopes.size) (raw : String) (kind : SymbolKind) (other : kind ≠ .field)
    (node : NodeId) (span : Span) (exported : Bool) (detail : Option String) :
    FieldWalk s [] [] f (f.declare target raw kind node span exported detail) where
  before := present
  after := present.grow ScopeTree.grows_declare (present.wellFormed.declare _ _)
  grows := ScopeTree.grows_declare
  kept := List.Subset.refl _
  fields i _ name := by
    rw [ScopeTree.fieldsAt, Findings.declare,
      ScopeTree.lookupLocal_declare present.wellFormed place, List.filter_append]
    congr 1
    split <;> split <;> simp [other, fieldSymbols]
  accesses := nofun

theorem declareField (present : Present s f)
    (name : Ident) : FieldWalk s [name] [] f (f.declareIdent s.scope name .field false) where
  before := present
  after := present.grow ScopeTree.grows_declare (present.wellFormed.declare _ _)
  grows := ScopeTree.grows_declare
  kept := List.Subset.refl _
  fields i _ key := by
    rw [ScopeTree.fieldsAt, Findings.declareIdent, Findings.declare,
      ScopeTree.lookupLocal_declare present.wellFormed present.small, List.filter_append]
    congr 1
    by_cases here : i = s.scope
    · by_cases same : fieldKey name = key
      · simp [here, fieldSymbols, fieldSymbol, ← same, fieldKey]
      · have same' : ¬ key = canonicalName name.text .field := fun eq => same eq.symm
        simp [here, same, same', fieldSymbols]
    · have here' : ¬ s.scope = i := fun eq => here eq.symm
      simp [here, here']
  accesses := nofun

/-- What the walk does in a scope that is opened, apart from the accesses in it. -/
theorem opened (present : Present s f) {kind : ScopeKind}
    {owner : Node} {s' : Surroundings} (new : s'.scope = f.tree.scopes.size)
    (walk : FieldWalk s' fields accesses (f.openScope s kind owner) g) :
    FieldWalk s [] [] f g where
  before := present
  after := present.grow (ScopeTree.grows_openScope.trans walk.grows) walk.after.wellFormed
  grows := ScopeTree.grows_openScope.trans walk.grows
  kept := walk.kept
  fields i old name := by
    have other : i ≠ s'.scope := new ▸ Nat.ne_of_lt old
    have same : (f.openScope s kind owner).tree.fieldsAt i name = f.tree.fieldsAt i name := by
      rw [ScopeTree.fieldsAt, Findings.openScope, ScopeTree.lookupLocal_openScope,
        ScopeTree.fieldsAt]
    rw [walk.fields i (ScopeTree.grows_openScope.lt old) name, if_neg other, same]
    split <;> rfl
  accesses := nofun

/-- In a block or a procedure the innermost class is the one around it. -/
theorem inBlock (present : Present s f) (kind : ScopeKind)
    (plain : kind ≠ .module) (other : kind ≠ .classBody) {owner : Node}
    (walk : FieldWalk (s.inside f) fields accesses (f.openScope s kind owner) g) :
    FieldWalk s [] accesses f g := by
  have whole : FieldWalk s [] [] f g := walk.opened present rfl
  refine { whole with accesses := fun a member => ?_ }
  obtain ⟨site, among, noted⟩ := walk.accesses a member
  have same : g.tree.classScope? (s.inside f).scope = g.tree.classScope? s.scope := by
    rw [walk.classScope? walk.before.small, whole.classScope? present.small]
    exact (ScopeTree.classScope?_openScope present.wellFormed present.small plain owner.id
      owner.span).trans (if_neg other)
  refine ⟨site, among, noted.node, noted.name, noted.small, fun outside => ?_, fun c inside => ?_⟩
  · obtain ⟨kind, around⟩ := noted.outside outside
    exact ⟨kind, around.trans same⟩
  · obtain ⟨kind, i, around, least, rest⟩ := noted.inside c inside
    exact ⟨kind, i, around, Nat.le_trans ScopeTree.grows_openScope.size_le least, rest⟩

/-- A class has all its fields when its members were walked through. -/
theorem inClass (present : Present s f) (c : ClassDecl)
    {owner : Node} {s' : Surroundings} (new : s'.scope = f.tree.scopes.size)
    (extends_ : s'.classHasSupertype = c.hasSupertype)
    (walk : FieldWalk s' c.fields accesses (f.openScope s .classBody owner) g) :
    FieldWalk s [] (accesses.map (·.inside c)) f g := by
  refine { walk.opened present new with accesses := fun a member => ?_ }
  obtain ⟨b, inner, rfl⟩ := List.mem_map.mp member
  obtain ⟨site, among, noted⟩ := walk.accesses b inner
  have least : f.tree.scopes.size ≤ (f.openScope s .classBody owner).tree.scopes.size :=
    ScopeTree.grows_openScope.size_le
  have own : g.tree.classScope? s'.scope = some s'.scope := by
    rw [walk.classScope? walk.before.small, new]
    exact (ScopeTree.classScope?_openScope present.wellFormed present.small (by simp) owner.id
      owner.span).trans (if_pos rfl)
  refine ⟨site, among, noted.node, noted.name, noted.small, fun outside => ?_, fun d inside => ?_⟩
  · simp [FieldAccess.inside] at outside
  cases around : b.around with
  | none =>
      obtain rfl : c = d := by simpa [FieldAccess.inside, around] using inside
      obtain ⟨kind, place⟩ := noted.outside around
      rw [extends_] at kind
      refine ⟨kind, s'.scope, place.trans own, Nat.le_of_eq new.symm, walk.after.small,
        fun name => ?_⟩
      have empty : (f.openScope s .classBody owner).tree.fieldsAt s'.scope name = [] := by
        rw [new, ScopeTree.fieldsAt, Findings.openScope, ScopeTree.lookupLocal_openScope,
          ScopeTree.lookupLocal, Array.getElem?_eq_none (Nat.le_refl _)]
        rfl
      rw [walk.fields _ walk.before.small name, if_pos rfl, empty, List.nil_append,
        walk.grows.document]
  | some d' =>
      obtain rfl : d' = d := by simpa [FieldAccess.inside, around] using inside
      obtain ⟨kind, i, place, later, rest⟩ := noted.inside d' around
      exact ⟨kind, i, place, Nat.le_trans least later, rest⟩

end FieldWalk

/-! ## Visits -/

namespace Visit

/-- The field that is declared. -/
def field? : Visit → Option Ident
  | declare name .field => some name
  | _ => none

/-- The fields that are accessed. -/
def accessed : Visit → List Ident
  | refer r => r.accessed
  | _ => []

end Visit

section Lists

variable (es : List Expr) (value : Option Expr)

@[simp] theorem accessed_exprs :
    (Visit.exprs es).flatMap Visit.accessed = picked access? (parts es) := by
  induction es with
  | nil => rfl
  | cons e es ih =>
      rw [parts_cons, picked_append, ← ih]
      rfl

@[simp] theorem accessed_optional :
    (Visit.optional value).flatMap Visit.accessed = picked access? (parts value) := by
  rw [Visit.optional, accessed_exprs, parts_toList]

end Lists

/-- The accesses of visits that are in no class. -/
def accessesOf (vs : List Visit) : List FieldAccess :=
  (vs.flatMap Visit.accessed).map (⟨none, ·⟩)

section Visits

variable {s : Surroundings} {f : Findings}

theorem fieldWalk_assignVariable (present : Present s f) (name : Ident) :
    FieldWalk s [] [] f (f.assignVariable s name) := by
  have asked : FieldWalk s [] [] f { f with asked := name.text :: f.asked } :=
    have nothing : Mentions s.scope [] f { f with asked := name.text :: f.asked } :=
      .nothing rfl rfl rfl
    .mentions present nothing
  unfold Findings.assignVariable
  split
  · exact asked.append (.mentions asked.after (mentions_referIdent s _ name .variable))
  · have target := ScopeTree.hoistTarget_spec asked.after.wellFormed asked.after.small
    exact asked.append (.declare asked.after target.1 _ _ (by simp) ..)

theorem fieldWalk_visit (present : Present s f) (v : Visit) :
    FieldWalk s v.field?.toList (v.accessed.map (⟨none, ·⟩)) f (v.run s f) := by
  have module := present.wellFormed.pos
  cases v with
  | refer r => exact .reads present (reads_note s f r)
  | write name => exact fieldWalk_assignVariable present name
  | label name =>
      have target := ScopeTree.hoistTarget_spec present.wellFormed present.small
      exact .declare present target.1 _ _ (by simp) ..
  | declare name role =>
      cases role with
      | field => exact .declareField present name
      | «variable» | procedure | classType =>
          exact .declare present present.small _ _ (by simp [Role.kind]) ..
  | share name => exact .declare present module _ _ (by simp) ..
  | imports name isJava detail =>
      exact .declare present module _ _ (by cases isJava <;> simp [Visit.importKind]) ..

theorem fieldWalk_visitAll (present : Present s f) (vs : List Visit) :
    FieldWalk s (vs.filterMap Visit.field?) (accessesOf vs) f (visitAll s f vs) := by
  induction vs generalizing f with
  | nil => exact .skip present
  | cons v vs ih =>
      have first := fieldWalk_visit present v
      have whole := first.append (ih first.after)
      have fields : (v :: vs).filterMap Visit.field? =
          v.field?.toList ++ vs.filterMap Visit.field? := by
        rw [List.filterMap_cons]
        cases v.field? <;> rfl
      rw [fields, accessesOf, List.flatMap_cons, List.map_append]
      exact whole

end Visits

/-! ## Statements -/

namespace Statement

variable (st : Statement)

theorem field?_visits : st.visits.filterMap Visit.field? = st.field?.toList := by
  cases st with
  | assign _ _ target => cases target <;> rfl
  | _ =>
      simp [visits, field?, Visit.field?, Visit.exprs, Visit.optional, Visit.types, Visit.targets,
        Visit.shares, List.filterMap_cons, List.filterMap_map]

theorem field?_entry : st.entry.filterMap Visit.field? = [] := by
  cases st <;>
    simp [entry, Param.visits, Visit.types, Visit.field?, List.filterMap_flatMap,
      List.filterMap_map, List.filterMap_cons]

theorem field?_closing : st.closing.filterMap Visit.field? = [] := by
  cases st <;> simp [closing, Visit.field?, List.filterMap_map]

/-- What a statement accesses itself, it accesses in its visits. -/
theorem accessed_visits :
    (Part.statement st).access?.toList ++ picked access? st.aheadParts ⊆
      st.visits.flatMap Visit.accessed := by
  have idents (names : List Ident) := (leaves_idents names).picked_access
  have types (names : List TypeRef) := (leaves_types names).picked_access
  have type (name : Option TypeRef) := (leaves_type name).picked_access
  intro name
  cases st with
  | assign _ _ target =>
      cases target <;>
        simp [aheadParts, visits, picked_cons, access?, Part.children, children, Visit.accessed,
          Referral.accessed]
      tauto
  | _ =>
      simp [aheadParts, visits, picked_cons, access?, Part.children, children, Visit.accessed,
        Referral.accessed, idents, types, type]
      <;> tauto

theorem accessed_entry : picked access? st.entryParts ⊆ st.entry.flatMap Visit.accessed := by
  have params (params : List Param) := (leaves_params params).picked_access
  cases st <;> simp [entryParts, entry, params, Visit.accessed, Referral.accessed]

theorem elseOpening?_ne_classBody (owner : Node) (hasSupertype : Bool) :
    st.elseOpening? ≠ some (.classBody owner hasSupertype) := by
  simp [elseOpening?]

end Statement

theorem fieldWalk_collectScope {s : Surroundings} {f : Findings} (present : Present s f)
    {o : Option Opening} (noClass : ∀ owner b, o ≠ some (.classBody owner b)) (entry : List Visit)
    (plain : entry.filterMap Visit.field? = []) {sts : List Statement} (empty : o = none → sts = [])
    (inner : ∀ s f, Present s f →
      FieldWalk s (fieldsOf sts) (Statement.accessesList sts) f (collectStatements s f sts)) :
    FieldWalk s [] (accessesOf entry ++ Statement.accessesList sts) f
      (collectScope s f o entry sts) := by
  have whole {s : Surroundings} {f : Findings} (present : Present s f) :
      FieldWalk s (fieldsOf sts) (accessesOf entry ++ Statement.accessesList sts) f
        (collectStatements s (visitAll s f entry) sts) := by
    have start := fieldWalk_visitAll present entry
    rw [plain] at start
    exact start.append (inner _ _ start.after)
  cases o with
  | none =>
      obtain rfl := empty rfl
      exact whole present
  | some o =>
      have inside := present.inside o.kind o.kind_ne_module o.owner
      cases o with
      | classBody owner b => exact absurd rfl (noClass owner b)
      | procedure | block =>
          exact .inBlock present _ (Opening.kind_ne_module _) (by simp [Opening.kind])
            (whole inside)

theorem fieldWalk_body {s : Surroundings} {f : Findings} (present : Present s f) (st : Statement)
    (inner : ∀ s f, Present s f → FieldWalk s (fieldsOf st.body)
      (Statement.accessesList st.body) f (collectStatements s f st.body)) :
    FieldWalk s [] st.bodyAccesses f (collectScope s f st.opening? st.entry st.body) := by
  cases st with
  | classDecl node head members =>
      have inside := present.inside .classBody (by simp) node
      exact .inClass present ⟨head, members⟩ rfl rfl
        (inner _ _ ⟨inside.wellFormed, inside.small⟩)
  | _ =>
      refine FieldWalk.mono (fieldWalk_collectScope present (by simp [Statement.opening?]) _
        (Statement.field?_entry _) Statement.body_eq_nil inner) ?_
      intro a member
      exact List.mem_append.mpr ((List.mem_append.mp member).imp_left fun start =>
        List.map_subset _ (Statement.accessed_entry _) start)

theorem fieldWalk_collectStatements (s : Surroundings) (f : Findings) (sts : List Statement) :
    Present s f → FieldWalk s (fieldsOf sts) (Statement.accessesList sts) f
      (collectStatements s f sts) := by
  refine collectStatements_induction (R := fun s sts f g => Present s f →
    FieldWalk s (fieldsOf sts) (Statement.accessesList sts) f g) ?nil ?cons ?single sts s f
  case nil =>
    intro s f present
    exact .skip present
  case cons =>
    intro s st rest f g h first others present
    have first := first present
    have whole := first.append (others first.after)
    rw [Statement.accessesList_cons, fieldsOf_cons]
    exact whole
  case single =>
    intro st body other s f present
    have ahead := (fieldWalk_visitAll present st.visits).mono
      (List.map_subset _ st.accessed_visits)
    have inside := fieldWalk_body ahead.after st body
    have else_ := fieldWalk_collectScope inside.after st.elseOpening?_ne_classBody []
      rfl st.elseBranch_eq_nil other
    have closing := (fieldWalk_visitAll else_.after st.closing).mono (List.nil_subset _)
    have whole := ahead.append (inside.append (else_.append closing))
    simp only [st.field?_visits, st.field?_closing, ← fieldsOf_singleton, List.append_nil] at whole
    rw [st.accessesList_singleton]
    exact whole

/-! ## Programs -/

theorem fieldWalk_collect (document : DocumentId) (p : Program) :
    FieldWalk ⟨ScopeTree.moduleId, false⟩ (fieldsOf p.statements) p.accesses
      (Findings.start document p.span) (collect document p) :=
  fieldWalk_collectStatements _ _ p.statements
    ⟨ScopeTree.wellFormed_ofModule document Program.rootId p.span, Nat.zero_lt_one⟩

end BbjAnalysis
