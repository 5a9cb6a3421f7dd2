import BbjAnalysis.Program.Walk
import BbjAnalysis.Proofs.Scope.Labels
import BbjAnalysis.Proofs.Scope.Shape

/-! # What a document exports

A document exports the labels outside of its procedures, the names of its `global` statements, and
the public classes and procedures among the statements of the program itself. That is said of the
program alone, without scopes: for each statement by where it stands (`Standing`) and by what it is
(`Statement.shown`). The walk exports the same, in the same order, and lists it in the scope of the
module (`Shows`).
-/

namespace BbjAnalysis

/-! ## Statements and where they stand -/

/-- Where a statement stands in its program. -/
inductive Standing where
  /-- Among the statements of the program itself. -/
  | top
  /-- In a class or a block that is in no procedure. -/
  | nested
  /-- In a procedure or a method. -/
  | inProcedure
deriving DecidableEq

/-- Where the statements of a block or a class stand. -/
def Standing.inner : Standing → Standing
  | .inProcedure => .inProcedure
  | .top | .nested => .nested

/-- Where the statements in a statement stand. -/
def Standing.within (place : Standing) : Statement → Standing
  | .method _ _ _ | .procedure _ _ _ => .inProcedure
  | _ => place.inner

/-- Where the statements stand that something is opened for. -/
def Standing.enter (place : Standing) : Option Opening → Standing
  | none => place
  | some (.procedure _) => .inProcedure
  | some (.classBody _ _) | some (.block _) => place.inner

namespace Statement

mutual
/-- The statement and every statement in it as in `walk`, each with where it stands. -/
def placed (place : Standing) : Statement → List (Standing × Statement)
  | s@(classDecl _ _ body) | s@(method _ _ body) | s@(procedure _ _ body)
  | s@(forLoop _ _ body _) | s@(whileLoop _ _ body) =>
      (place, s) :: placedList (place.within s) body
  | s@(branch _ _ thenBranch elseBranch) =>
      (place, s) ::
        (placedList (place.within s) thenBranch ++ placedList (place.within s) elseBranch)
  | s@(label _ _) | s@(rem _) | s@(assign _ _ _ _) | s@(declare _ _ _ _) | s@(globals _ _)
  | s@(useJava _ _) | s@(useClass _ _ _) | s@(fieldDecl _ _) | s@(inlineProcedure _ _ _)
  | s@(jump _ _ _ _) | s@(openFile _ _) | s@(keyedFile _ _) | s@(print _ _) | s@(ret _ _)
  | s@(terminate _ _) | s@(expr _ _) => [(place, s)]

def placedList (place : Standing) : List Statement → List (Standing × Statement)
  | [] => []
  | s :: rest => placed place s ++ placedList place rest
end

theorem placedList_cons (place : Standing) (st : Statement) (rest : List Statement) :
    placedList place (st :: rest) = placedList place [st] ++ placedList place rest := by
  rw [placedList, placedList, placedList, List.append_nil]

theorem placedList_singleton (place : Standing) (st : Statement) :
    placedList place [st] = (place, st) ::
      (placedList (place.within st) st.body ++ placedList (place.within st) st.elseBranch) := by
  cases st <;> simp [placedList, placed, body, elseBranch]

theorem map_placedList (place : Standing) (sts : List Statement) :
    (placedList place sts).map (·.2) = walkList sts := by
  induction sts using list_induction generalizing place with
  | nil => rfl
  | cons st rest first others =>
      rw [placedList_cons, walkList_cons, List.map_append, first, others]
  | single st body other =>
      rw [placedList_singleton, walkList_singleton_eq, List.map_cons, List.map_append, body, other]
      rfl

/-- What a statement that stands in the given place shows to other documents, without what is in
it. -/
def shown (place : Standing) : Statement → List (SymbolKind × Ident)
  | label _ name => if place = .inProcedure then [] else [(.label, name)]
  | globals _ names => names.map (SymbolKind.variable, ·)
  | classDecl _ head _ =>
      if place = .top ∧ head.modifier = some .isPublic then [(.classType, head.name)] else []
  | procedure _ head _ | inlineProcedure _ head _ =>
      if place = .top ∧ head.isPublic = true then [(.procedure, head.name)] else []
  | _ => []

end Statement

/-- What a visit shows to other documents where a statement stands. -/
def Visit.shown (place : Standing) : Visit → List (SymbolKind × Ident)
  | label name => if place = .inProcedure then [] else [(.label, name)]
  | declare name role => if place = .top ∧ role.isPublic = true then [(role.kind, name)] else []
  | share name => [(.variable, name)]
  | refer _ | write _ | imports _ _ _ => []

/-- What several statements show, each by where it stands. -/
def shownIn (placed : List (Standing × Statement)) : List (SymbolKind × Ident) :=
  placed.flatMap fun x => x.2.shown x.1

/-- Every statement of the program with where it stands, in source order. -/
def Program.placed (p : Program) : List (Standing × Statement) :=
  Statement.placedList .top p.statements

/-- The names that the program shows to other documents, in source order. -/
def Program.shown (p : Program) : List (SymbolKind × Ident) := shownIn p.placed

/-- The symbol that stands for an exported name. -/
def exportedSymbol (document : DocumentId) (shown : SymbolKind × Ident) : Symbol :=
  ⟨canonicalName shown.2.text shown.1, shown.1, true, .declared document shown.2.id,
    shown.2.span, none⟩

/-! ## What the walk exports -/

/-- What is marked as exported is exported, in its order, and is listed in the module. -/
structure Findings.Exposed (f : Findings) : Prop where
  exports : f.exports = f.tree.symbols.toList.filter (·.exported)
  listed : ∀ (k : SymbolId) e, f.tree.symbols[k]? = some e → e.exported = true →
    k ∈ f.tree.listed ScopeTree.moduleId e.name

theorem Findings.Exposed.declare {f : Findings} (exposed : f.Exposed) {scope : ScopeId}
    (small : scope < f.tree.scopes.size) (raw : String) (kind : SymbolKind) (node : NodeId)
    (span : Span) {exported : Bool} (module : exported = true → scope = ScopeTree.moduleId)
    {detail : Option String} (bare : exported = true → detail = none) :
    (f.declare scope raw kind node span exported detail).Exposed where
  exports := by
    -- the exported copy has no detail, so it is the symbol of the tree if that one has none, either
    simp only [Findings.declare, ScopeTree.declare, Array.toList_push, List.filter_append,
      exposed.exports]
    cases exported with
    | false => simp
    | true => simp [bare rfl]
  listed k e found shared := by
    rw [Findings.declare, ScopeTree.listed_declare small]
    simp only [Findings.declare, ScopeTree.declare, Array.getElem?_push] at found
    split at found
    · next last =>
      cases found
      exact List.mem_append_right _ (by simp [last, module shared])
    · exact List.mem_append_left _ (exposed.listed k e found shared)

/-- Between `f` and `g` the given names were exported, in their order, and nothing else was. -/
structure Shows (items : List (SymbolKind × Ident)) (f g : Findings) : Prop where
  before : f.tree.WellFormed
  after : g.tree.WellFormed
  grows : f.tree.Grows g.tree
  exposed : f.Exposed → g.Exposed
  exports : g.exports = f.exports ++ items.map (exportedSymbol f.tree.document)

/-- Nothing was exported. -/
abbrev Hides (f g : Findings) : Prop := Shows [] f g

theorem Shows.append {items items' : List (SymbolKind × Ident)} {f g h : Findings}
    (first : Shows items f g) (second : Shows items' g h) : Shows (items ++ items') f h where
  before := first.before
  after := second.after
  grows := first.grows.trans second.grows
  exposed exposed := second.exposed (first.exposed exposed)
  exports := by
    rw [second.exports, first.exports, first.grows.document, List.map_append, List.append_assoc]

section Steps

variable {s : Surroundings} {around : List NodeId} {f g : Findings}

/-- A declaration is exported if it is marked so, which it is in the module at most. -/
theorem shows_declare (wellFormed : f.tree.WellFormed) {scope : ScopeId}
    (small : scope < f.tree.scopes.size) (name : Ident) (kind : SymbolKind) (exported : Bool)
    (module : exported = true → scope = ScopeTree.moduleId) :
    Shows (if exported = true then [(kind, name)] else []) f
      (f.declareIdent scope name kind exported) where
  before := wellFormed
  after := wellFormed.declare _ _
  grows := ScopeTree.grows_declare
  exposed exposed := exposed.declare small _ _ _ _ module fun _ => rfl
  exports := by
    rw [Findings.declareIdent, Findings.declare]
    cases exported with
    | false => exact (List.append_nil _).symm
    | true => rfl

theorem hides_declare (wellFormed : f.tree.WellFormed) {scope : ScopeId}
    (small : scope < f.tree.scopes.size) (raw : String) (kind : SymbolKind) (node : NodeId)
    (span : Span) (detail : Option String) :
    Hides f (f.declare scope raw kind node span false detail) where
  before := wellFormed
  after := wellFormed.declare _ _
  grows := ScopeTree.grows_declare
  exposed exposed := exposed.declare small _ _ _ _ (by simp) (by simp)
  exports := (List.append_nil _).symm

namespace Stands

theorem shows {items : List (SymbolKind × Ident)} (stands : Stands s around f)
    (shows : Shows items f g) : Stands s around g where
  wellFormed := shows.after
  small := shows.grows.lt stands.small
  bodies := (shows.grows.bodies shows.before shows.after stands.small).trans stands.bodies

theorem hides (stands : Stands s around f) {names : List Ident} (refers : Refers s names f g) :
    Hides f g where
  before := stands.wellFormed
  after := refers.tree ▸ stands.wellFormed
  grows := refers.tree ▸ .refl _
  exposed exposed := by
    obtain ⟨exports, listed⟩ := exposed
    rw [← refers.tree] at exports listed
    exact ⟨refers.exports.trans exports, listed⟩
  exports := refers.exports.trans (List.append_nil _).symm

theorem hides_openScope (stands : Stands s around f) (kind : ScopeKind) (plain : kind ≠ .module)
    (owner : Node) : Hides f (f.openScope s kind owner) where
  before := stands.wellFormed
  after := (stands.inside kind plain owner).wellFormed
  grows := ScopeTree.grows_openScope
  exposed exposed := by
    refine ⟨exposed.exports, fun k e found shared => ?_⟩
    rw [Findings.openScope, ScopeTree.listed_openScope]
    exact exposed.listed k e found shared
  exports := (List.append_nil _).symm

theorem hides_enter (stands : Stands s around f) (o : Option Opening) : Hides f (f.enter s o) := by
  cases o with
  | none => exact stands.hides .skip
  | some o => exact stands.hides_openScope o.kind o.kind_ne_module o.owner

theorem hides_assignVariable (stands : Stands s around f) (name : Ident) :
    Hides f (f.assignVariable s name) := by
  have asked : Refers s [] f { f with asked := name.text :: f.asked } :=
    ⟨rfl, rfl, (List.append_nil _).symm⟩
  unfold Findings.assignVariable
  split
  · exact stands.hides (asked.trans (refers_referIdent s _ name _ (by simp)))
  · have target := (ScopeTree.hoistTarget_spec stands.wellFormed stands.small).1
    have first := stands.hides asked
    exact first.append (hides_declare first.after target _ _ _ _ _)

end Stands

/-! ## Visits -/

/-- Where the statements stand that the walk comes to in a scope, by the procedures around it. -/
def standing (scope : ScopeId) (around : List NodeId) : Standing :=
  if scope = ScopeTree.moduleId then .top else if around = [] then .nested else .inProcedure

theorem standing_eq_top {scope : ScopeId} {around : List NodeId} :
    standing scope around = .top ↔ scope = ScopeTree.moduleId := by
  unfold standing
  split <;> simp_all
  split <;> simp

namespace Stands

theorem standing_eq_inProcedure (stands : Stands s around f) :
    standing s.scope around = .inProcedure ↔ around ≠ [] := by
  unfold standing
  split
  · next module =>
    have none : around = [] := by
      rw [← stands.bodies, module]
      exact ScopeTree.bodies_zero stands.wellFormed
    simp [none]
  · split <;> simp_all

/-- Labels go to the module from outside of procedures. -/
theorem hoistTarget_eq_moduleId (stands : Stands s around f) :
    f.tree.hoistTarget s.scope = ScopeTree.moduleId ↔ around = [] := by
  obtain ⟨small, target, bodies⟩ := ScopeTree.hoistTarget_spec stands.wellFormed stands.small
  rw [stands.bodies] at bodies
  rw [← bodies]
  constructor
  · intro module
    rw [module]
    exact ScopeTree.bodies_zero stands.wellFormed
  · intro none
    rcases ScopeTree.head?_bodies stands.wellFormed small target with ⟨module, -⟩ | ⟨_, -, opens⟩
    · exact module
    · rw [none] at opens
      cases opens

/-- Where the statements stand that the walk comes to in what is opened. -/
theorem standing_enter (stands : Stands s around f) (o : Option Opening) :
    standing (s.enter f o).scope ((Opening.procedure? o).toList ++ around) =
      (standing s.scope around).enter o := by
  have other : f.tree.scopes.size ≠ ScopeTree.moduleId := Nat.ne_of_gt stands.wellFormed.pos
  have same := stands.standing_eq_inProcedure
  cases o with
  | none => rfl
  | some o =>
      cases o with
      | procedure owner =>
          have plain : ([owner.id] ++ around) ≠ [] := List.cons_ne_nil _ _
          exact (if_neg other).trans (if_neg plain)
      | classBody | block =>
          refine (if_neg other).trans ?_
          simp only [Standing.enter, Opening.procedure?, Option.toList_none, List.nil_append]
          by_cases none : around = [] <;> cases outer : standing s.scope around <;>
            simp_all [Standing.inner]

end Stands

/-- A visit exports what it shows where the walk is. -/
theorem shows_visit (stands : Stands s around f) (v : Visit) :
    Shows (v.shown (standing s.scope around)) f (v.run s f) := by
  have pos := stands.wellFormed.pos
  cases v with
  | refer r => exact stands.hides (refers_note s f r)
  | write name => exact stands.hides_assignVariable name
  | label name =>
      have target := (ScopeTree.hoistTarget_spec stands.wellFormed stands.small).1
      have shows := shows_declare stands.wellFormed target name .label
        (f.tree.hoistTarget s.scope == ScopeTree.moduleId) beq_iff_eq.mp
      simp only [beq_iff_eq, stands.hoistTarget_eq_moduleId] at shows
      simp only [Visit.shown, stands.standing_eq_inProcedure, ne_eq, ite_not]
      exact shows
  | declare name role =>
      have shows := shows_declare stands.wellFormed stands.small name role.kind
        (role.isPublic && s.scope == ScopeTree.moduleId)
        fun both => beq_iff_eq.mp (Bool.and_eq_true_iff.mp both).2
      simp only [Bool.and_eq_true, beq_iff_eq, and_comm] at shows
      simp only [Visit.shown, standing_eq_top]
      exact shows
  | share name => exact shows_declare stands.wellFormed pos name .variable true fun _ => rfl
  | imports => exact hides_declare stands.wellFormed pos ..

theorem shows_visitAll (stands : Stands s around f) (vs : List Visit) :
    Shows (vs.flatMap (Visit.shown (standing s.scope around))) f (visitAll s f vs) := by
  induction vs generalizing f with
  | nil => exact stands.hides .skip
  | cons v vs ih =>
      have first := shows_visit stands v
      exact first.append (ih (stands.shows first))

end Steps

/-! ## Statements -/

namespace Statement

theorem shown_eq (place : Standing) (st : Statement) :
    st.shown place = st.visits.flatMap (Visit.shown place) := by
  have refers {α : Type} (referral : α → Referral) (as : List α) :
      (as.map (.refer <| referral ·)).flatMap (Visit.shown place) = [] :=
    Visit.flatMap_map_eq_nil (fun _ => rfl) as
  cases st with
  | assign _ _ target => cases target <;> rfl
  | procedure | inlineProcedure => exact (List.append_nil _).symm
  | globals _ names =>
      rw [visits, Visit.shares, List.flatMap_map]
      exact (List.flatMap_pure_eq_map _ names).symm
  | _ =>
      simp [shown, visits, Visit.shown, Visit.exprs, Visit.optional, Visit.types, Visit.targets,
        Role.kind, Role.isPublic, refers]

theorem shown_entry (place : Standing) (st : Statement) :
    st.entry.flatMap (Visit.shown place) = [] := by
  have params (params : List Param) :
      (params.flatMap Param.visits).flatMap (Visit.shown place) = [] := by
    rw [List.flatMap_assoc, List.flatMap_eq_nil_iff]
    intro param _
    rw [Param.visits, List.flatMap_append, Visit.types, Visit.flatMap_map_eq_nil fun _ => rfl]
    simp [Visit.shown, Role.isPublic]
  cases st <;> simp [entry, params, Visit.shown, -List.flatMap_eq_nil_iff]

theorem shown_closing (place : Standing) (st : Statement) :
    st.closing.flatMap (Visit.shown place) = [] := by
  cases st <;> simp [closing, Visit.shown]

theorem placed_body (place : Standing) (st : Statement) :
    placedList (place.within st) st.body = placedList (place.enter st.opening?) st.body := by
  cases st with
  | branch _ _ body | forLoop _ _ body | whileLoop _ _ body => cases body <;> rfl
  | _ => rfl

theorem placed_elseBranch (place : Standing) (st : Statement) :
    placedList (place.within st) st.elseBranch =
      placedList (place.enter st.elseOpening?) st.elseBranch := by
  cases st with
  | branch _ _ _ elseBranch => cases elseBranch <;> rfl
  | _ => rfl

end Statement

theorem shownIn_append (first second : List (Standing × Statement)) :
    shownIn (first ++ second) = shownIn first ++ shownIn second := List.flatMap_append

theorem shows_collectScope {s : Surroundings} {around : List NodeId} {f : Findings}
    (stands : Stands s around f) (o : Option Opening) (entry : List Visit)
    (none : ∀ place, entry.flatMap (Visit.shown place) = []) {sts : List Statement}
    (inner : ∀ s f around, Stands s around f →
      Shows (shownIn (Statement.placedList (standing s.scope around) sts)) f
        (collectStatements s f sts)) :
    Shows (shownIn (Statement.placedList ((standing s.scope around).enter o) sts)) f
      (collectScope s f o entry sts) := by
  have inside := stands.enter o
  have entry := shows_visitAll inside entry
  rw [none] at entry
  have body := inner _ _ _ (inside.shows entry)
  rw [stands.standing_enter] at body
  exact (stands.hides_enter o).append (entry.append body)

theorem shows_collectStatements (s : Surroundings) (f : Findings) (sts : List Statement) :
    ∀ around, Stands s around f →
      Shows (shownIn (Statement.placedList (standing s.scope around) sts)) f
        (collectStatements s f sts) := by
  refine collectStatements_induction (R := fun s sts f g => ∀ around, Stands s around f →
    Shows (shownIn (Statement.placedList (standing s.scope around) sts)) f g) ?nil ?cons ?single
    sts s f
  case nil =>
    intro s f around stands
    exact stands.hides .skip
  case cons =>
    intro s st rest f g h first others around stands
    have first := first around stands
    rw [Statement.placedList_cons, shownIn_append]
    exact first.append (others around (stands.shows first))
  case single =>
    intro st body other s f around stands
    have ahead := shows_visitAll stands st.visits
    have stands := stands.shows ahead
    have inside := shows_collectScope stands st.opening? st.entry (fun _ => st.shown_entry _) body
    have stands := stands.shows inside
    have else_ := shows_collectScope stands st.elseOpening? [] (fun _ => rfl) other
    have closing := shows_visitAll (stands.shows else_) st.closing
    rw [st.shown_closing] at closing
    have whole := ahead.append (inside.append (else_.append closing))
    rw [← st.shown_eq, ← st.placed_body, ← st.placed_elseBranch, List.append_nil,
      ← shownIn_append] at whole
    rw [Statement.placedList_singleton]
    exact whole

/-! ## Programs -/

theorem shows_collect (document : DocumentId) (p : Program) :
    Shows p.shown ⟨ScopeTree.ofModule document Program.rootId p.span, [], [], []⟩
      (collect document p) := by
  have wf := ScopeTree.wellFormed_ofModule document Program.rootId p.span
  exact shows_collectStatements ⟨ScopeTree.moduleId, false⟩ _ p.statements []
    ⟨wf, wf.pos, ScopeTree.bodies_zero wf⟩

/-- What a document exports are the symbols of its scopes that are marked as exported, in their
order, all of them listed in the module. They stand for the labels outside of procedures, for the
names of all `global` statements, and for the public classes and procedures among the statements of
the program itself, in the order of the source. -/
theorem exports_computeScopes (document : DocumentId) (uri : String) (p : Program) :
    (computeScopes document uri p).exports.symbols =
      (computeScopes document uri p).tree.symbols.toList.filter (·.exported) ∧
    (∀ (k : SymbolId) e, (computeScopes document uri p).tree.symbols[k]? = some e →
      e.exported = true →
        k ∈ (computeScopes document uri p).tree.listed ScopeTree.moduleId e.name) ∧
    (computeScopes document uri p).exports.symbols = p.shown.map (exportedSymbol document) ∧
    p.placed.map (·.2) = p.allStatements := by
  have shows := shows_collect document p
  have exposed := shows.exposed ⟨rfl, fun k e found => by simp [ScopeTree.ofModule] at found⟩
  exact ⟨exposed.exports, exposed.listed, shows.exports, Statement.map_placedList _ p.statements⟩

end BbjAnalysis
