import BbjAnalysis.Proofs.Scope.Visit
import Mathlib.Data.List.Perm.Subperm

/-! # The walk over a program

What the walk finds in a program is found step by step (`Walk`): references are noted, names are
declared, and scopes are opened around parts of a statement. The walk keeps to the order of the
text, except that it comes to a value before the name it is assigned to, and to the types of a class
before its name. Whatever is to be said of all findings needs a case for each of these steps, and
none for the kinds of statements.
-/

namespace BbjAnalysis

open HasParts BbjAnalysis.Part

/-! ## References -/

/-- Between `f` and `g` nothing but references was noted, all of them in the given scope, and each
of them a name in the given parts, none twice. -/
structure Mentions (scope : ScopeId) (ps : List Part) (f g : Findings) : Prop where
  tree : g.tree = f.tree
  exports : g.exports = f.exports
  noted : ∃ sites, g.references = f.references ++ sites ∧ (∀ site ∈ sites, site.scope = scope) ∧
    (sites.map fun site => Node.mk site.node site.span).Subperm (picked name? ps)

namespace Mentions

variable {scope : ScopeId} {f g h : Findings} {ps qs : List Part}

theorem nothing (tree : g.tree = f.tree) (exports : g.exports = f.exports)
    (references : g.references = f.references) : Mentions scope ps f g where
  tree := tree
  exports := exports
  noted := ⟨[], references.trans (List.append_nil _).symm, nofun, List.nil_subperm⟩

theorem skip : Mentions scope ps f f := nothing rfl rfl rfl

theorem append (first : Mentions scope ps f g) (second : Mentions scope qs g h) :
    Mentions scope (ps ++ qs) f h where
  tree := second.tree.trans first.tree
  exports := second.exports.trans first.exports
  noted := by
    obtain ⟨sites, references, here, names⟩ := first.noted
    obtain ⟨sites', references', here', names'⟩ := second.noted
    refine ⟨sites ++ sites', by rw [references', references, List.append_assoc], ?_, ?_⟩
    · intro site member
      exact (List.mem_append.mp member).elim (here site) (here' site)
    · rw [List.map_append, picked_append]
      exact names.append names'

/-- What is mentioned in the children of a part is mentioned in the part. -/
theorem inside {p : Part} (mentions : Mentions scope p.children f g) : Mentions scope [p] f g where
  tree := mentions.tree
  exports := mentions.exports
  noted := by
    obtain ⟨sites, references, here, names⟩ := mentions.noted
    refine ⟨sites, references, here, names.trans ?_⟩
    rw [picked_cons, picked_nil, List.append_nil]
    exact (List.sublist_append_right _ _).subperm

/-- A name that is referred to. -/
theorem reference {p : Part} (site : ReferenceSite) (here : site.scope = scope)
    (named : p.name? = some ⟨site.node, site.span⟩)
    (references : g.references = f.references ++ [site]) (tree : g.tree = f.tree)
    (exports : g.exports = f.exports) : Mentions scope [p] f g where
  tree := tree
  exports := exports
  noted := by
    refine ⟨[site], references, fun other member => ?_, ?_⟩
    · rw [List.mem_singleton.mp member]
      exact here
    · rw [picked_cons, named]
      exact (List.sublist_append_left [_] _).subperm

end Mentions

section Mentions

variable (s : Surroundings) (f : Findings)

theorem mentions_referIdent (name : Ident) (kind : ReferenceKind) :
    Mentions s.scope (parts name) f (f.referIdent s name kind) :=
  .reference _ rfl rfl rfl rfl rfl

theorem mentions_referJava (type : TypeRef) :
    Mentions s.scope (parts type) f (f.referJava s type) :=
  .reference _ rfl rfl rfl rfl rfl

theorem mentions_referType (type : TypeRef) :
    Mentions s.scope (parts type) f (f.referType s type) := by
  unfold Findings.referType
  split
  · exact mentions_referJava s f type
  · split
    · exact .skip
    · exact .reference _ rfl rfl rfl rfl rfl

end Mentions

mutual

theorem mentions_collectExpr (s : Surroundings) (f : Findings) (e : Expr) :
    Mentions s.scope (parts e) f (collectExpr s f e) := by
  apply Mentions.inside
  cases e with
  | var node name => exact mentions_referIdent s f name .variable
  | field node name => exact mentions_referIdent s f name _
  | call node callee args options =>
      have rest (f : Findings) :=
        (mentions_collectExprs s f args).append (mentions_collectOptions s _ options)
      simp only [collectExpr]
      split
      · exact (mentions_referIdent s f callee .procedure).append (rest _)
      · split
        · exact (mentions_referIdent s f callee .variable).append (rest _)
        · exact Mentions.skip.append (rest f)
  | methodCall node receiver name args options =>
      exact (mentions_collectExpr s f receiver).append (Mentions.skip.append
        ((mentions_collectExprs s _ args).append (mentions_collectOptions s _ options)))
  | member node receiver name =>
      exact (mentions_collectExpr s f receiver).append .skip
  | index node base indices =>
      exact (mentions_collectExpr s f base).append (mentions_collectExprs s _ indices)
  | new node type args options =>
      exact (mentions_referType s f type).append
        ((mentions_collectExprs s _ args).append (mentions_collectOptions s _ options))
  | unary node op operand => exact mentions_collectExpr s f operand
  | binary node op lhs rhs =>
      exact (mentions_collectExpr s f lhs).append (mentions_collectExpr s _ rhs)
  | paren node inner => exact mentions_collectExpr s f inner
  | number | str | starLabel | missing => exact .skip
termination_by sizeOf e

theorem mentions_collectExprs (s : Surroundings) (f : Findings) (es : List Expr) :
    Mentions s.scope (parts es) f (collectExprs s f es) := by
  cases es with
  | nil => exact .skip
  | cons e es => exact (mentions_collectExpr s f e).append (mentions_collectExprs s _ es)
termination_by sizeOf es

theorem mentions_collectOptions (s : Surroundings) (f : Findings) (os : List StatementOption) :
    Mentions s.scope (parts os) f (collectOptions s f os) := by
  cases os with
  | nil => exact .skip
  | cons o os =>
      obtain ⟨id, key, value, span⟩ := o
      have plain : Mentions s.scope (parts (⟨id, key, value, span⟩ : StatementOption)) f
          (collectExpr s f value) :=
        Mentions.inside (Mentions.append .skip (mentions_collectExpr s f value))
      have rest (f : Findings) := mentions_collectOptions s f os
      simp only [collectOptions]
      split
      · next node name =>
        split
        · have label : Mentions s.scope (parts (Expr.var node name)) f
              (f.referIdent s name .label) :=
            Mentions.inside (mentions_referIdent s f name .label)
          exact Mentions.append (Mentions.inside (Mentions.append .skip label)) (rest _)
        · exact plain.append (rest _)
      · exact plain.append (rest _)
termination_by sizeOf os

end

theorem mentions_note (s : Surroundings) (f : Findings) (r : Referral) :
    Mentions s.scope r.parts f (r.note s f) := by
  cases r with
  | expr e => exact mentions_collectExpr s f e
  | options os => exact mentions_collectOptions s f os
  | type name => exact mentions_referType s f name
  | javaClass name => exact mentions_referJava s f name
  | ident name kind => exact mentions_referIdent s f name kind
  | access name => exact mentions_referIdent s f name _

/-! ## Steps of the walk -/

/-- The scopes that something may be declared in: the present one, the nearest procedure around it,
or the module. -/
def ScopeTree.IsTarget (t : ScopeTree) (scope target : ScopeId) : Prop :=
  target = scope ∨ target = t.hoistTarget scope ∨ target = ScopeTree.moduleId

/-- What the walk finds between `f` and `g` in the given parts, which lie in a node with the given
span, while it is in the given scope. A new scope takes up the whole node. -/
inductive Walk : Span → ScopeId → List Part → Findings → Findings → Prop
  | mention {span : Span} {scope : ScopeId} {ps : List Part} {f g : Findings}
    (mentions : Mentions scope ps f g) : Walk span scope ps f g
  | declare {span : Span} {scope target : ScopeId} {p : Part} {n : Node} {i : Ident}
    {f g : Findings} {kind : SymbolKind} {exported : Bool} {detail : Option String}
    (node : p.node? = some n) (id : n.id = i.id) (declares : p.declarables = [i])
    (placed : g.tree.IsTarget scope target) (bare : exported = true → detail = none)
    (mentions : Mentions scope p.children f g) :
    Walk span scope [p] f (g.declare target i.text kind i.id i.span exported detail)
  | append {span : Span} {scope : ScopeId} {ps qs : List Part} {f g h : Findings}
    (first : Walk span scope ps f g) (second : Walk span scope qs g h) :
    Walk span scope (ps ++ qs) f h
  /-- Parts without declarations come first. -/
  | swap {span : Span} {scope : ScopeId} {ps qs : List Part} {f g : Findings}
    (walk : Walk span scope (ps ++ qs) f g) (plain : ∀ p ∈ ps, p.isPlain = true) :
    Walk span scope (qs ++ ps) f g
  | inside {span : Span} {scope : ScopeId} {p : Part} {n : Node} {f g : Findings}
    (node : p.node? = some n) (declares : p.declarables = p.children.flatMap declarables)
    (walk : Walk n.span scope p.children f g) : Walk span scope [p] f g
  | opening {span : Span} {scope : ScopeId} {ps : List Part} {f g : Findings} {kind : ScopeKind}
    {owner : NodeId} (inner : kind ≠ .module)
    (walk : Walk span f.tree.scopes.size ps
      { f with tree := f.tree.openScope kind scope owner span } g) : Walk span scope ps f g

namespace Walk

variable {span : Span} {scope : ScopeId} {f g h : Findings} {ps qs : List Part}

theorem skip : Walk span scope ps f f := .mention .skip

/-- A statement that declares what is declared in its parts. -/
theorem statement {st : Statement} (none : st.imported? = none)
    (walk : Walk st.span scope st.children f g) : Walk span scope (parts st) f g :=
  .inside (p := .statement st) rfl (declarables_of_not_imported none) walk

/-- What is found inside of a scope that is opened. -/
theorem opened {s : Surroundings} (kind : ScopeKind) {owner : Node} (inner : kind ≠ .module)
    (walk : Walk owner.span (s.inside f).scope ps (f.openScope s kind owner) g) :
    Walk owner.span s.scope ps f g :=
  .opening inner walk

end Walk

section Declarations

variable (s : Surroundings) (f : Findings) {span : Span}

theorem walk_declareIdent {target : ScopeId} (name : Ident) (kind : SymbolKind) (exported : Bool)
    (placed : f.tree.IsTarget s.scope target) :
    Walk span s.scope (parts name) f (f.declareIdent target name kind exported) :=
  .declare (p := .ident name) rfl rfl (declarables_ident name) placed (fun _ => rfl) .skip

theorem walk_assignVariable (name : Ident) :
    Walk span s.scope (parts name) f (f.assignVariable s name) := by
  unfold Findings.assignVariable
  split
  · exact .mention (.reference _ rfl rfl rfl rfl rfl)
  · exact .declare (p := .ident name) rfl rfl (declarables_ident name) (.inr (.inl rfl)) (by simp)
      (.nothing rfl rfl rfl)

theorem walk_visit (v : Visit) (own : v.isImport = false) :
    Walk span s.scope v.parts f (v.run s f) := by
  cases v with
  | refer r => exact .mention (mentions_note s f r)
  | write name => exact walk_assignVariable s f name
  | label name => exact walk_declareIdent s f name .label _ (.inr (.inl rfl))
  | declare name role => exact walk_declareIdent s f name role.kind _ (.inl rfl)
  | share name => exact walk_declareIdent s f name .variable true (.inr (.inr rfl))
  | imports => cases own

theorem walk_visitAll (vs : List Visit) (own : ∀ v ∈ vs, v.isImport = false) :
    Walk span s.scope (vs.flatMap Visit.parts) f (visitAll s f vs) := by
  induction vs generalizing f with
  | nil => exact .skip
  | cons v vs ih =>
      exact (walk_visit s f v (own v List.mem_cons_self)).append
        (ih _ fun w among => own w (.tail v among))

end Declarations

/-! ## Statements -/

theorem isPlain_expr (e : Expr) : ∀ p ∈ parts e, p.isPlain = true := by
  intro p member
  rw [List.mem_singleton.mp member]
  rfl

theorem isPlain_optional (e : Option Expr) : ∀ p ∈ parts e, p.isPlain = true := by
  intro p member
  obtain ⟨e, -, member⟩ := mem_parts_option.mp member
  exact isPlain_expr e p member

theorem isPlain_types (types : List TypeRef) : ∀ p ∈ parts types, p.isPlain = true := by
  intro p member
  obtain ⟨type, -, member⟩ := mem_parts_list.mp member
  rw [List.mem_singleton.mp member]
  rfl

theorem isPlain_append {ps qs : List Part} (first : ∀ p ∈ ps, p.isPlain = true)
    (second : ∀ p ∈ qs, p.isPlain = true) : ∀ p ∈ ps ++ qs, p.isPlain = true := by
  intro p member
  exact (List.mem_append.mp member).elim (first p) (second p)

section Statements

variable (s : Surroundings) (f : Findings) {span : Span}

/-- A statement is visited in the order of the text, but for values and types ahead of the name that
they are for. -/
theorem walk_ahead (st : Statement) (plain : st.imported? = none) :
    Walk span s.scope st.aheadParts f (visitAll s f st.visits) := by
  have whole : Walk span _ _ f _ := walk_visitAll s f st.visits (st.isImport_eq_false plain)
  cases st with
  | useJava | useClass => cases plain
  | assign _ _ target value => cases target <;> exact whole.swap (isPlain_expr value)
  | classDecl _ head _ =>
      simp only [Statement.visits, List.flatMap_append, Visit.parts_types] at whole
      exact whole.swap (isPlain_append (isPlain_types _) (isPlain_types _))
  | fieldDecl _ decl =>
      have named (f : Findings) : Walk span _ _ f _ :=
        walk_visitAll s f (Visit.optional decl.init ++ [.declare decl.name .field])
          (by simp [Visit.optional, Visit.exprs, Visit.isImport, or_imp, forall_and])
      simp only [List.flatMap_append, Visit.parts_optional] at named
      exact (walk_visit s f (.refer (.type decl.type)) rfl).append
        ((named _).swap (isPlain_optional decl.init))
  | forLoop _ head _ _ =>
      have bounds := isPlain_append (isPlain_expr head.first)
        (isPlain_append (isPlain_expr head.last) (isPlain_optional head.step))
      refine Walk.swap ?_ bounds
      simpa [Statement.visits, Visit.parts, Referral.parts] using whole
  | openFile _ file =>
      have options (f : Findings) : Walk span s.scope [.optionsSpan file.optionsSpan] f f := .skip
      have path (f : Findings) : Walk span _ _ f _ := walk_visitAll s f (Visit.optional file.path)
        (by simp [Visit.optional, Visit.exprs, Visit.isImport])
      simp only [Visit.parts_optional] at path
      exact (walk_visit s f (.refer (.expr file.channel)) rfl).append
        ((walk_visit s _ (.refer (.options file.options)) rfl).append ((options _).append (path _)))
  | _ =>
      simpa [Statement.visits, Statement.aheadParts, Statement.children, Visit.parts,
        Referral.parts] using whole

theorem walk_params (params : List Param) :
    Walk span s.scope (parts params) f (visitAll s f (params.flatMap Param.visits)) := by
  induction params generalizing f with
  | nil => exact .skip
  | cons param params ih =>
      have own : Walk span s.scope [.param param.id] f f := .skip
      have named : Walk span _ _ f _ := walk_visitAll s f param.visits
        (by simp [Param.visits, Visit.types, Visit.isImport, or_imp, forall_and])
      simp only [Param.visits, List.flatMap_append, Visit.parts_types, parts_toList] at named
      rw [List.flatMap_cons, visitAll_append]
      exact (own.append named).append (ih _)

theorem walk_entry (st : Statement) :
    Walk span s.scope st.entryParts f (visitAll s f st.entry) := by
  cases st with
  | method _ head _ => exact walk_params s f head.params
  | procedure _ head _ => exact walk_params s f head.params
  | inlineProcedure _ head body =>
      rw [Statement.entry, visitAll_append]
      exact (walk_params s f head.params).append (.mention (mentions_collectExpr s _ body))
  | _ => exact .skip

theorem walk_closing (st : Statement) :
    Walk span s.scope st.closingParts f (visitAll s f st.closing) := by
  cases st with
  | forLoop _ _ _ next =>
      cases next with
      | none => exact .skip
      | some name => exact .mention (mentions_referIdent s f name .variable)
  | _ => exact .skip

/-- The walk through what is opened for statements, or through nothing. -/
theorem walk_collectScope {o : Option Opening} (own : ∀ p ∈ o, p.owner.span = span)
    (ps : List Part) (vs : List Visit) {sts : List Statement}
    (entry : ∀ s f, Walk span s.scope ps f (visitAll s f vs))
    (body : ∀ s f, Walk span s.scope (parts sts) f (collectStatements s f sts)) :
    Walk span s.scope (ps ++ parts sts) f (collectScope s f o vs sts) := by
  have inner (s : Surroundings) (f : Findings) := (entry s f).append (body s _)
  cases o with
  | none => exact inner s f
  | some o =>
      obtain rfl := own o rfl
      have scope : (s.enter f (some o)).scope = (s.inside f).scope := by cases o <;> rfl
      have walk := inner (s.enter f (some o)) (f.enter s (some o))
      rw [scope] at walk
      exact .opened o.kind o.kind_ne_module walk

theorem walk_imported {st : Statement} {name : Ident} (imported : st.imported? = some name) :
    Walk span s.scope (parts st) f (collectStatement s f st) := by
  cases st with
  | useJava node type =>
      exact .declare (p := .statement (.useJava node type)) (i := ⟨node.id, type.text, type.span⟩)
        rfl rfl (declarables_of_imported rfl) (.inr (.inr rfl)) (by simp)
        (mentions_referJava s f type)
  | useClass node path name =>
      exact .declare (p := .statement (.useClass node path name))
        (i := ⟨node.id, name.text, name.span⟩) rfl rfl (declarables_of_imported rfl)
        (.inr (.inr rfl)) (by simp) (mentions_referIdent s f name (.classImport path))
  | _ => cases imported

end Statements

theorem walk_collectStatements (span : Span) (s : Surroundings) (f : Findings)
    (sts : List Statement) : Walk span s.scope (parts sts) f (collectStatements s f sts) := by
  refine collectStatements_induction
    (R := fun s sts f g => ∀ span, Walk span s.scope (parts sts) f g)
    ?nil ?cons ?single sts s f span
  case nil => exact fun s f span => .skip
  case cons => exact fun s st rest f g h first others span => (first span).append (others span)
  case single =>
    intro st body other s f span
    cases imported : st.imported? with
    | some name => exact collectStatement_eq s f st ▸ walk_imported s f imported
    | none =>
        have inside := walk_collectScope s (visitAll s f st.visits) st.span_of_opening st.entryParts
          st.entry (fun s f => walk_entry s f st) fun s f => body s f st.span
        have branch (f : Findings) := walk_collectScope s f st.span_of_elseOpening [] []
          (fun _ _ => .skip) fun s f => other s f st.span
        have whole := (walk_ahead s f st imported).append
          (inside.append ((branch _).append (walk_closing s _ st)))
        refine .statement imported ?_
        rw [st.children_eq]
        simpa only [List.append_assoc, List.nil_append] using whole

theorem walk_collect (document : DocumentId) (p : Program) :
    Walk p.span ScopeTree.moduleId (parts p.statements)
      ⟨ScopeTree.ofModule document Program.rootId p.span, [], [], []⟩ (collect document p) :=
  walk_collectStatements p.span ⟨ScopeTree.moduleId, false⟩ _ p.statements

end BbjAnalysis
