import BbjAnalysis.Proofs.Program.Walk
import BbjAnalysis.Scope.Collect

/-! # The walk in visits

The walk treats all statements alike: it makes some visits ahead of what is in a statement, goes
through the statements in it, each time in a scope of their own if they have one, and makes some
visits behind (`collectStatement_eq`). What a statement visits, and what it opens scopes for, is
told here by its kind. Whatever else is to be said of the walk is said of the visits, and passed on
to programs by one induction (`Statement.list_induction`).
-/

namespace BbjAnalysis

/-! ## Statements in statements -/

namespace Statement

/-- The statements in a statement; in a branch, those ahead of its `else`. -/
def body : Statement → List Statement
  | classDecl _ _ body | method _ _ body | procedure _ _ body | branch _ _ body _
  | forLoop _ _ body _ | whileLoop _ _ body => body
  | _ => []

/-- The statements in the `else` of a branch. -/
def elseBranch : Statement → List Statement
  | branch _ _ _ elseBranch => elseBranch
  | _ => []

theorem sizeOf_body_le (s : Statement) : sizeOf s.body ≤ sizeOf s := by
  cases s <;> simp [body] <;> omega

theorem sizeOf_elseBranch_le (s : Statement) : sizeOf s.elseBranch ≤ sizeOf s := by
  cases s <;> simp [elseBranch] <;> omega

/-- What is passed on from the statements in a statement to the statement, and from statements to a
list of them, holds of all. -/
theorem list_induction {P : List Statement → Prop} (nil : P [])
    (cons : ∀ s ss, P [s] → P ss → P (s :: ss))
    (single : ∀ s, P s.body → P s.elseBranch → P [s]) (ss : List Statement) : P ss := by
  cases ss with
  | nil => exact nil
  | cons s ss =>
      have body := s.sizeOf_body_le
      have other := s.sizeOf_elseBranch_le
      have whole : sizeOf (s :: ss) = 1 + sizeOf s + sizeOf ss := rfl
      exact cons s ss (single s (list_induction nil cons single s.body)
        (list_induction nil cons single s.elseBranch)) (list_induction nil cons single ss)
termination_by sizeOf ss

theorem walkList_cons (s : Statement) (ss : List Statement) :
    walkList (s :: ss) = walkList [s] ++ walkList ss := by
  rw [walkList, walkList, walkList, List.append_nil]

theorem walkList_singleton_eq (s : Statement) :
    walkList [s] = s :: walkList s.body ++ walkList s.elseBranch := by
  cases s <;> simp [walkList, walk, body, elseBranch]

end Statement

/-! ## Visits -/

/-- What is only referred to. -/
inductive Referral where
  | expr (e : Expr)
  | options (os : List StatementOption)
  | type (name : TypeRef)
  | javaClass (name : TypeRef)
  | ident (name : Ident) (kind : ReferenceKind)
  /-- A field of the object itself. -/
  | access (name : Ident)

namespace Referral

def note (s : Surroundings) (f : Findings) : Referral → Findings
  | expr e => collectExpr s f e
  | options os => collectOptions s f os
  | type name => f.referType s name
  | javaClass name => f.referJava s name
  | ident name kind => f.referIdent s name kind
  | access name => f.referIdent s name (.field s.classHasSupertype)

def parts : Referral → List Part
  | expr e => HasParts.parts e
  | options os => HasParts.parts os
  | type name | javaClass name => HasParts.parts name
  | ident name _ | access name => HasParts.parts name

end Referral

/-- What a name is declared as in the present scope. -/
inductive Role where
  | variable
  | field
  | procedure (isPublic : Bool)
  | classType (isPublic : Bool)

namespace Role

def kind : Role → SymbolKind
  | .variable => .variable
  | field => .field
  | procedure _ => .procedure
  | classType _ => .classType

def isPublic : Role → Bool
  | .variable | field => false
  | procedure isPublic | classType isPublic => isPublic

end Role

/-- What the walk does at one place in a scope. -/
inductive Visit where
  | refer (r : Referral)
  /-- A variable that is declared unless one is seen. -/
  | write (name : Ident)
  | label (name : Ident)
  | declare (name : Ident) (role : Role)
  /-- A variable of the module that others see. -/
  | share (name : Ident)
  /-- A class that the module knows by a name. -/
  | imports (name : Ident) (isJava : Bool) (detail : Option String)

namespace Visit

def importKind (isJava : Bool) : SymbolKind := if isJava then .externalClass else .classType

def run (s : Surroundings) (f : Findings) : Visit → Findings
  | refer r => r.note s f
  | write name => f.assignVariable s name
  | label name =>
      let target := f.tree.hoistTarget s.scope
      f.declareIdent target name .label (target == ScopeTree.moduleId)
  | declare name role =>
      f.declareIdent s.scope name role.kind (role.isPublic && s.scope == ScopeTree.moduleId)
  | share name => f.declareIdent ScopeTree.moduleId name .variable true
  | imports name isJava detail =>
      f.declare ScopeTree.moduleId name.text (importKind isJava) name.id name.span false detail

def parts : Visit → List Part
  | refer r => r.parts
  | write name | label name | declare name _ | share name | imports name _ _ => HasParts.parts name

/-- Whether a class is imported, which takes a whole statement. -/
def isImport : Visit → Bool
  | imports _ _ _ => true
  | _ => false

end Visit

def visitAll (s : Surroundings) (f : Findings) (vs : List Visit) : Findings :=
  vs.foldl (Visit.run s) f

/-! ### Visits of one kind -/

theorem parts_singleton {α : Type} [SizeOf α] [HasParts α] (a : α) : parts [a] = parts a :=
  List.flatMap_singleton ..

@[simp] theorem parts_toList {α : Type} [SizeOf α] [HasParts α] (a? : Option α) :
    parts a?.toList = parts a? := by
  cases a? <;> simp

namespace Visit

def exprs (es : List Expr) : List Visit := es.map (.refer <| .expr ·)

def optional (e : Option Expr) : List Visit := exprs e.toList

def types (names : List TypeRef) : List Visit := names.map (.refer <| .type ·)

def targets (names : List Ident) : List Visit := names.map (.refer <| .ident · .label)

def shares (names : List Ident) : List Visit := names.map .share

theorem parts_map {α : Type} [SizeOf α] [HasParts α] {visit : α → Visit}
    (same : ∀ a, (visit a).parts = HasParts.parts a) (as : List α) :
    (as.map visit).flatMap parts = HasParts.parts as := by
  rw [List.flatMap_map]
  exact congrArg (as.flatMap ·) (funext same)

/-- Nothing is picked from visits of a kind that has nothing to pick. -/
theorem flatMap_map_eq_nil {α β : Type} {pick : Visit → List β} {visit : α → Visit}
    (none : ∀ a, pick (visit a) = []) (as : List α) : (as.map visit).flatMap pick = [] := by
  rw [List.flatMap_map, List.flatMap_eq_nil_iff]
  exact fun a _ => none a

@[simp] theorem parts_exprs (es : List Expr) : (exprs es).flatMap parts = HasParts.parts es :=
  parts_map (fun _ => rfl) es

@[simp] theorem parts_optional (e : Option Expr) :
    (optional e).flatMap parts = HasParts.parts e := by
  rw [optional, parts_exprs, parts_toList]

@[simp] theorem parts_types (names : List TypeRef) :
    (types names).flatMap parts = HasParts.parts names :=
  parts_map (fun _ => rfl) names

@[simp] theorem parts_targets (names : List Ident) :
    (targets names).flatMap parts = HasParts.parts names :=
  parts_map (fun _ => rfl) names

@[simp] theorem parts_shares (names : List Ident) :
    (shares names).flatMap parts = HasParts.parts names :=
  parts_map (fun _ => rfl) names

end Visit

section VisitAll

variable (s : Surroundings) (f : Findings)

@[simp] theorem visitAll_nil : visitAll s f [] = f := rfl

@[simp] theorem visitAll_cons (v : Visit) (vs : List Visit) :
    visitAll s f (v :: vs) = visitAll s (v.run s f) vs := rfl

@[simp] theorem visitAll_append (vs ws : List Visit) :
    visitAll s f (vs ++ ws) = visitAll s (visitAll s f vs) ws := List.foldl_append

end VisitAll

/-! ## Scopes -/

/-- What a scope is opened for in the module. -/
inductive Opening where
  | classBody (owner : Node) (hasSupertype : Bool)
  | procedure (owner : Node)
  | block (owner : Node)

namespace Opening

def kind : Opening → ScopeKind
  | classBody _ _ => .classBody
  | procedure _ => .procedure
  | block _ => .block

def owner : Opening → Node
  | classBody owner _ | procedure owner | block owner => owner

theorem kind_ne_module (o : Opening) : o.kind ≠ .module := by cases o <;> simp [kind]

end Opening

/-- The surroundings in what is opened, if something is. -/
def Surroundings.enter (s : Surroundings) (f : Findings) : Option Opening → Surroundings
  | none => s
  | some (.classBody _ hasSupertype) => { s.inside f with classHasSupertype := hasSupertype }
  | some (.procedure _) | some (.block _) => s.inside f

def Findings.enter (f : Findings) (s : Surroundings) : Option Opening → Findings
  | none => f
  | some o => f.openScope s o.kind o.owner

/-- The walk through statements in what is opened for them, behind the visits at its start. -/
def collectScope (s : Surroundings) (f : Findings) (o : Option Opening) (entry : List Visit)
    (sts : List Statement) : Findings :=
  collectStatements (s.enter f o) (visitAll (s.enter f o) (f.enter s o) entry) sts

/-! ## What statements visit and open -/

def Param.visits (p : Param) : List Visit :=
  Visit.types p.type.toList ++ [.declare p.name .variable]

namespace Statement

/-- The visits ahead of what is in a statement. -/
def visits : Statement → List Visit
  | label _ name => [.label name]
  | rem _ | terminate _ _ => []
  | assign _ _ (.var name) value => [.refer (.expr value), .write name]
  | assign _ _ (.field name) value => [.refer (.expr value), .refer (.access name)]
  | declare _ _ type name => [.refer (.type type), .declare name .variable]
  | globals _ names => Visit.shares names
  | useJava node type =>
      [.refer (.javaClass type), .imports ⟨node.id, type.text, type.span⟩ true type.text]
  | useClass node path name =>
      [.refer (.ident name (.classImport path)),
        .imports ⟨node.id, name.text, name.span⟩ false path]
  | classDecl _ head _ =>
      Visit.types head.supertypes ++ Visit.types head.interfaces ++
        [.declare head.name (.classType (head.modifier == some .isPublic))]
  | fieldDecl _ decl =>
      .refer (.type decl.type) ::
        (Visit.optional decl.init ++ [.declare decl.name .field])
  | method _ head _ =>
      Visit.types head.returnType.toList ++ [.declare head.name (.procedure false)]
  | procedure _ head _ | inlineProcedure _ head _ =>
      [.declare head.name (.procedure head.isPublic)]
  | jump _ _ selector targets =>
      Visit.optional selector ++ Visit.targets targets
  | openFile _ file =>
      .refer (.expr file.channel) :: .refer (.options file.options) ::
        Visit.optional file.path
  | keyedFile _ file => Visit.exprs file.args ++ [.refer (.options file.options)]
  | print _ items => Visit.exprs items
  | branch _ condition _ _ | whileLoop _ condition _ => [.refer (.expr condition)]
  | forLoop _ head _ _ =>
      .refer (.expr head.first) :: .refer (.expr head.last) ::
        (Visit.optional head.step ++ [.write head.loopVariable])
  | ret _ value => Visit.optional value
  | expr _ value => [.refer (.expr value)]

/-- The visits at the start of what is opened for a statement. -/
def entry : Statement → List Visit
  | method _ head _ => head.params.flatMap Param.visits
  | procedure _ head _ => head.params.flatMap Param.visits
  | inlineProcedure _ head body => head.params.flatMap Param.visits ++ [.refer (.expr body)]
  | _ => []

/-- The visits behind what is in a statement. -/
def closing : Statement → List Visit
  | forLoop _ _ _ next => next.toList.map (.refer <| .ident · .variable)
  | _ => []

/-- What is opened for the statements in a statement; in a branch, for those ahead of its `else`.
Nothing is opened for a block without statements. -/
def opening? : Statement → Option Opening
  | classDecl node head _ => some (.classBody node (!head.supertypes.isEmpty))
  | method node _ _ | procedure node _ _ | inlineProcedure node _ _ => some (.procedure node)
  | branch node _ body _ | forLoop node _ body _ | whileLoop node _ body =>
      if body.isEmpty then none else some (.block node)
  | _ => none

/-- What is opened for an `else`, which its first statement stands for. -/
def elseOpening? (s : Statement) : Option Opening :=
  s.elseBranch.head?.map fun first => .block ⟨first.id, s.span⟩

theorem body_eq_nil {s : Statement} (none : s.opening? = none) : s.body = [] := by
  cases s with
  | branch | forLoop | whileLoop => simpa [opening?, body] using none
  | classDecl | method | procedure => cases none
  | _ => rfl

theorem elseBranch_eq_nil {s : Statement} (none : s.elseOpening? = none) : s.elseBranch = [] := by
  rwa [elseOpening?, Option.map_eq_none_iff, List.head?_eq_none_iff] at none

theorem span_of_opening (s : Statement) : ∀ o ∈ s.opening?, o.owner.span = s.span := by
  intro o opened
  cases s with
  | branch _ _ body | forLoop _ _ body | whileLoop _ _ body =>
      obtain ⟨-, same⟩ := Option.ite_none_left_eq_some.mp opened
      cases same
      rfl
  | classDecl | method | procedure | inlineProcedure =>
      cases opened
      rfl
  | _ => cases opened

theorem span_of_elseOpening (s : Statement) : ∀ o ∈ s.elseOpening?, o.owner.span = s.span := by
  intro o opened
  obtain ⟨first, -, rfl⟩ := Option.map_eq_some_iff.mp opened
  rfl

/-- The parts ahead of what is in a statement. -/
def aheadParts : Statement → List Part
  | classDecl _ head _ => parts head
  | method _ head _ => parts head.returnType ++ parts head.name
  | procedure _ head _ | inlineProcedure _ head _ => parts head.name
  | branch _ condition _ _ | whileLoop _ condition _ => parts condition
  | forLoop _ head _ _ => parts head
  | s => s.children

/-- The parts at the start of what is opened for a statement. -/
def entryParts : Statement → List Part
  | method _ head _ => parts head.params
  | procedure _ head _ => parts head.params
  | inlineProcedure _ head body => parts head.params ++ parts body
  | _ => []

/-- The parts behind what is in a statement. -/
def closingParts : Statement → List Part
  | forLoop _ _ _ next => parts next
  | _ => []

theorem children_eq (s : Statement) : s.children = s.aheadParts ++
    (s.entryParts ++ (parts s.body ++ (parts s.elseBranch ++ s.closingParts))) := by
  cases s <;> simp [children, aheadParts, entryParts, closingParts, body, elseBranch]

end Statement

theorem Statement.isImport_eq_false {st : Statement} (none : st.imported? = none) :
    ∀ v ∈ st.visits, v.isImport = false := by
  cases st with
  | assign _ _ target _ => cases target <;> simp [visits, Visit.isImport]
  | useJava | useClass => cases none
  | _ =>
      simp [visits, Visit.isImport, Visit.exprs, Visit.optional, Visit.types, Visit.targets,
        Visit.shares, or_imp, forall_and]

section Visits

variable (s : Surroundings) (f : Findings)

theorem visitAll_exprs (es : List Expr) :
    visitAll s f (Visit.exprs es) = collectExprs s f es := by
  induction es generalizing f with
  | nil =>
      rw [collectExprs]
      rfl
  | cons e es ih =>
      rw [collectExprs, ← ih]
      rfl

theorem visitAll_optional (e : Option Expr) :
    visitAll s f (Visit.optional e) = collectOptional s f e := by
  cases e <;> rfl

theorem visitAll_types (types : List TypeRef) :
    visitAll s f (Visit.types types) = collectTypes s f types :=
  List.foldl_map

theorem visitAll_params (params : List Param) :
    visitAll s f (params.flatMap Param.visits) = collectParams s f params := by
  induction params generalizing f with
  | nil => rfl
  | cons param params ih =>
      rw [List.flatMap_cons, visitAll_append, ih, Param.visits, visitAll_append, visitAll_types]
      rfl

theorem collectHead_eq (st : Statement) : collectHead s f st = visitAll s f st.visits := by
  cases st with
  | assign _ _ target _ => cases target <;> rfl
  | globals =>
      simp only [Statement.visits, Visit.shares, visitAll, List.foldl_map]
      rfl
  | jump =>
      simp only [Statement.visits, visitAll_append, visitAll_optional, Visit.targets]
      simp only [visitAll, List.foldl_map]
      rfl
  | classDecl | fieldDecl | method | openFile | keyedFile | print | forLoop | ret =>
      simp only [Statement.visits, visitAll_cons, visitAll_append, visitAll_types,
        visitAll_optional, visitAll_exprs]
      rfl
  | _ => rfl

theorem collectBlock_eq (owner : Node) (sts : List Statement) :
    collectBlock s f owner sts =
      collectScope s f (if sts.isEmpty then none else some (.block owner)) [] sts := by
  cases sts with
  | nil => simp [collectBlock, collectScope, collectStatements, Surroundings.enter, Findings.enter]
  | cons st rest =>
      simp only [collectBlock, collectScope, collectStatements]
      rfl

/-- The walk at a statement of any kind. -/
theorem collectStatement_eq (st : Statement) : collectStatement s f st =
    visitAll s (collectScope s
      (collectScope s (visitAll s f st.visits) st.opening? st.entry st.body)
      st.elseOpening? [] st.elseBranch) st.closing := by
  have plain (f : Findings) : collectScope s f none [] [] = f := by
    rw [collectScope, collectStatements]
    rfl
  rw [← collectHead_eq]
  cases st with
  | classDecl =>
      rw [collectStatement]
      exact (plain _).symm
  | method | procedure =>
      rw [collectStatement, ← visitAll_params]
      exact (plain _).symm
  | inlineProcedure =>
      rw [collectStatement, ← visitAll_params]
      simp only [collectScope, collectStatements, Statement.entry, visitAll_append,
        Statement.body, Statement.elseBranch]
      rfl
  | branch _ _ _ elseBranch =>
      simp only [collectStatement, collectBlock_eq]
      cases elseBranch with
      | nil => exact (plain _).symm
      | cons => rfl
  | forLoop _ _ _ next =>
      simp only [collectStatement, collectBlock_eq]
      cases next <;> exact (plain _).symm
  | whileLoop =>
      rw [collectStatement, collectBlock_eq]
      exact (plain _).symm
  | _ =>
      rw [collectStatement]
      exact (plain _).symm

theorem collectStatements_nil : collectStatements s f [] = f := by rw [collectStatements]

theorem collectStatements_cons (st : Statement) (rest : List Statement) :
    collectStatements s f (st :: rest) =
      collectStatements s (collectStatements s f [st]) rest := by
  rw [collectStatements, collectStatements, collectStatements_nil]

theorem collectStatements_singleton (st : Statement) : collectStatements s f [st] =
    visitAll s (collectScope s
      (collectScope s (visitAll s f st.visits) st.opening? st.entry st.body)
      st.elseOpening? [] st.elseBranch) st.closing := by
  rw [collectStatements, collectStatements_nil, collectStatement_eq]

end Visits

/-- What is so of the walk through statements: it is passed on from the statements in a statement to
the statement, and from statements to a list of them. -/
theorem collectStatements_induction
    {R : Surroundings → List Statement → Findings → Findings → Prop}
    (nil : ∀ s f, R s [] f f)
    (cons : ∀ s st rest f g h, R s [st] f g → R s rest g h → R s (st :: rest) f h)
    (single : ∀ st, (∀ s f, R s st.body f (collectStatements s f st.body)) →
      (∀ s f, R s st.elseBranch f (collectStatements s f st.elseBranch)) →
      ∀ s f, R s [st] f (visitAll s (collectScope s
        (collectScope s (visitAll s f st.visits) st.opening? st.entry st.body)
        st.elseOpening? [] st.elseBranch) st.closing))
    (sts : List Statement) : ∀ s f, R s sts f (collectStatements s f sts) := by
  induction sts using Statement.list_induction with
  | nil =>
      intro s f
      rw [collectStatements_nil]
      exact nil s f
  | cons st rest first others =>
      intro s f
      rw [collectStatements_cons]
      exact cons s st rest f _ _ (first s f) (others s _)
  | single st body other =>
      intro s f
      rw [collectStatements_singleton]
      exact single st body other s f

end BbjAnalysis
