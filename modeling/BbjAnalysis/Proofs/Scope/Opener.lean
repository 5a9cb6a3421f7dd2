import BbjAnalysis.Proofs.Program.Order
import BbjAnalysis.Proofs.Scope.Tree
import BbjAnalysis.Proofs.Scope.Walk

/-! # What opens a scope

The program opens a scope, and so do classes, procedures, blocks with statements in them, and every
`else`, which is a block of its own. The scopes of a document are those of its openers, in their
order (`openedBy_computeScopes`).
-/

namespace BbjAnalysis

/-! ## Openers -/

/-- What a scope is opened for. -/
inductive Opener where
  | program (p : Program)
  /-- What is in a statement; in a branch, what is ahead of its `else`. -/
  | body (s : Statement)
  /-- The `else` of a statement, with the first statement in it. -/
  | elseBranch (s first : Statement)

namespace Opener

/-- The owner of the scope, with the span of the scope. -/
def node : Opener → Node
  | program p => ⟨Program.rootId, p.span⟩
  | body s => s.node
  | elseBranch s first => ⟨first.id, s.span⟩

end Opener

namespace Statement

/-- Whether a statement opens a scope of its own: classes and procedures do, and so do blocks with
statements in them. -/
def opensScope : Statement → Bool
  | classDecl _ _ _ | method _ _ _ | procedure _ _ _ | inlineProcedure _ _ _ => true
  | branch _ _ body _ | forLoop _ _ body _ | whileLoop _ _ body => !body.isEmpty
  | _ => false

def bodyOpeners (s : Statement) : List Opener := if s.opensScope then [.body s] else []

def elseOpeners (s : Statement) : List Opener := (s.elseBranch.head?.map (.elseBranch s)).toList

mutual

/-- What scopes are opened for in a statement, in the order of their opening. -/
def openers : Statement → List Opener
  | s@(classDecl _ _ body) | s@(method _ _ body) | s@(procedure _ _ body)
  | s@(forLoop _ _ body _) | s@(whileLoop _ _ body) => s.bodyOpeners ++ openersList body
  | s@(branch _ _ body elseBranch) =>
      s.bodyOpeners ++ openersList body ++ (s.elseOpeners ++ openersList elseBranch)
  | s => s.bodyOpeners

def openersList : List Statement → List Opener
  | [] => []
  | s :: rest => openers s ++ openersList rest

end

theorem openers_eq (s : Statement) : s.openers =
    s.bodyOpeners ++ openersList s.body ++ (s.elseOpeners ++ openersList s.elseBranch) := by
  cases s <;> simp [openers, openersList, body, elseBranch, elseOpeners]

theorem nested_eq (s : Statement) : s.nested = s.body ++ s.elseBranch := by
  cases s <;> simp [nested, body, elseBranch]

theorem mem_bodyOpeners {s : Statement} {o : Opener} :
    o ∈ s.bodyOpeners ↔ o = .body s ∧ s.opensScope = true := by
  unfold bodyOpeners
  split <;> simp_all

theorem mem_elseOpeners {s : Statement} {o : Opener} : o ∈ s.elseOpeners ↔
    ∃ first, s.elseBranch.head? = some first ∧ o = .elseBranch s first := by
  simp [elseOpeners, eq_comm]

end Statement

/-- What the scopes of a document are opened for. -/
def Program.openers (p : Program) : List Opener :=
  .program p :: Statement.openersList p.statements

namespace Statement

theorem openersList_cons (s : Statement) (ss : List Statement) :
    openersList (s :: ss) = openersList [s] ++ openersList ss := by
  rw [openersList, openersList, openersList, List.append_nil]

theorem openersList_singleton (s : Statement) : openersList [s] =
    s.bodyOpeners ++ openersList s.body ++ (s.elseOpeners ++ openersList s.elseBranch) := by
  rw [openersList, openersList, List.append_nil, openers_eq]

/-- Each opener belongs to a statement, and each statement has its openers. -/
theorem mem_openersList {o : Opener} (ss : List Statement) : o ∈ openersList ss ↔
    ∃ s ∈ walkList ss, o ∈ s.bodyOpeners ∨ o ∈ s.elseOpeners := by
  induction ss using list_induction with
  | nil => simp [openersList, walkList]
  | cons s ss first rest =>
      rw [openersList_cons, List.mem_append, first, rest, walkList_cons s ss]
      simp only [List.mem_append, or_and_right, exists_or]
  | single s body other =>
      rw [openersList_singleton, walkList_singleton_eq]
      simp only [List.mem_append, List.mem_cons, body, other, or_and_right, exists_or,
        exists_eq_left]
      exact or_or_or_comm.trans or_assoc.symm

end Statement

section Programs

variable {p : Program} {s first : Statement}

theorem body_mem_openers : .body s ∈ p.openers ↔ s ∈ p.allStatements ∧ s.opensScope = true := by
  simp [Program.openers, Statement.mem_openersList, Statement.mem_bodyOpeners,
    Statement.mem_elseOpeners, Program.allStatements]

theorem elseBranch_mem_openers : .elseBranch s first ∈ p.openers ↔
    s ∈ p.allStatements ∧ s.elseBranch.head? = some first := by
  simp [Program.openers, Statement.mem_openersList, Statement.mem_bodyOpeners,
    Statement.mem_elseOpeners, Program.allStatements]

end Programs

/-! ## What the walk opens -/

/-- The owner of a scope, with the span of the scope. -/
def Scope.ownerNode (s : Scope) : Node := ⟨s.owner, s.span⟩

namespace ScopeTree

/-- The owners of all scopes, in the order of their opening. -/
def owners (t : ScopeTree) : List Node := t.scopes.toList.map (·.ownerNode)

variable {t : ScopeTree}

theorem getElem?_owners (i : ScopeId) : t.owners[i]? = t.scopes[i]?.map (·.ownerNode) := by
  rw [owners, List.getElem?_map, Array.getElem?_toList]

theorem owners_declare (scope : ScopeId) (symbol : Symbol) :
    (t.declare scope symbol).owners = t.owners := by
  refine List.ext_getElem? fun i => ?_
  rw [getElem?_owners, getElem?_owners, getElem?_scopes_declare]
  split
  · rw [Option.map_map]
    rfl
  · rfl

theorem owners_openScope (kind : ScopeKind) (parent : ScopeId) (owner : NodeId) (span : Span) :
    (t.openScope kind parent owner span).owners = t.owners ++ [⟨owner, span⟩] := by
  rw [owners, openScope, Array.toList_push, List.map_append]
  rfl

end ScopeTree

section Walk

variable (s : Surroundings) (f : Findings)

theorem owners_visit (v : Visit) : (v.run s f).tree.owners = f.tree.owners := by
  cases v with
  | refer r => exact congrArg ScopeTree.owners (mentions_note s f r).tree
  | write name =>
      simp only [Visit.run, Findings.assignVariable]
      split
      · rfl
      · exact ScopeTree.owners_declare ..
  | _ => exact ScopeTree.owners_declare ..

theorem owners_visitAll (vs : List Visit) : (visitAll s f vs).tree.owners = f.tree.owners := by
  induction vs generalizing f with
  | nil => rfl
  | cons v vs ih => rw [visitAll_cons, ih, owners_visit]

theorem owners_enter (o : Option Opening) :
    (f.enter s o).tree.owners = f.tree.owners ++ (o.map (·.owner)).toList := by
  cases o with
  | none => exact (List.append_nil _).symm
  | some o => exact ScopeTree.owners_openScope ..

end Walk

theorem Statement.map_bodyOpeners (s : Statement) :
    s.bodyOpeners.map (·.node) = (s.opening?.map (·.owner)).toList := by
  cases s with
  | branch _ _ body | forLoop _ _ body | whileLoop _ _ body => cases body <;> rfl
  | _ => rfl

theorem Statement.map_elseOpeners (s : Statement) :
    s.elseOpeners.map (·.node) = (s.elseOpening?.map (·.owner)).toList := by
  rw [elseOpeners, elseOpening?]
  cases s.elseBranch.head? <;> rfl

theorem owners_collectStatements (s : Surroundings) (f : Findings) (sts : List Statement) :
    (collectStatements s f sts).tree.owners =
      f.tree.owners ++ (Statement.openersList sts).map (·.node) := by
  refine collectStatements_induction (R := fun s sts f g =>
    g.tree.owners = f.tree.owners ++ (Statement.openersList sts).map (·.node)) ?nil ?cons ?single
    sts s f
  case nil => exact fun s f => (List.append_nil _).symm
  case cons =>
    intro s st rest f g h first others
    rw [others, first, Statement.openersList_cons st rest, List.map_append, List.append_assoc]
  case single =>
    intro st body other s f
    simp only [collectScope, owners_visitAll, owners_enter, body, other,
      Statement.openersList_singleton, List.map_append, Statement.map_bodyOpeners,
      Statement.map_elseOpeners, List.append_assoc]

/-- The scopes are those that a program opens. -/
def ScopeTree.OpenedBy (t : ScopeTree) (p : Program) : Prop :=
  t.owners = p.openers.map (·.node)

theorem openedBy_computeScopes (document : DocumentId) (uri : String) (p : Program) :
    (computeScopes document uri p).tree.OpenedBy p :=
  owners_collectStatements ⟨ScopeTree.moduleId, false⟩
    ⟨ScopeTree.ofModule document Program.rootId p.span, [], [], []⟩ p.statements

namespace ScopeTree.OpenedBy

variable {t : ScopeTree} {p : Program} {i : ScopeId}

theorem exists_opener (all : t.OpenedBy p) {s : Scope} (found : t.scopes[i]? = some s) :
    ∃ o, p.openers[i]? = some o ∧ o.node = s.ownerNode := by
  have same := congrArg (·[i]?) all
  simp only [getElem?_owners, List.getElem?_map, found, Option.map_some] at same
  exact Option.map_eq_some_iff.mp same.symm

theorem exists_scope (all : t.OpenedBy p) {o : Opener} (opened : p.openers[i]? = some o) :
    ∃ s, t.scopes[i]? = some s ∧ s.ownerNode = o.node := by
  have same := congrArg (·[i]?) all
  simp only [getElem?_owners, List.getElem?_map, opened, Option.map_some] at same
  exact Option.map_eq_some_iff.mp same

end ScopeTree.OpenedBy

end BbjAnalysis
