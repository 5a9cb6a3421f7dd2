import BbjAnalysis.Program.Statement

/-! # Visiting orders

Statements and expressions in the order of a walk that visits a node before what is
in it and siblings from left to right.
-/

namespace BbjAnalysis

namespace Expr

mutual
/-- The expression and every expression in it, outermost first; the options of a call come
behind its positional arguments. -/
def walk : Expr → List Expr
  | e@(call _ _ args options) | e@(new _ _ args options) =>
      e :: (walkList args ++ walkOptions options)
  | e@(methodCall _ receiver _ args options) =>
      e :: (walk receiver ++ walkList args ++ walkOptions options)
  | e@(member _ receiver _) => e :: walk receiver
  | e@(index _ base indices) => e :: (walk base ++ walkList indices)
  | e@(unary _ _ operand) => e :: walk operand
  | e@(binary _ _ lhs rhs) => e :: (walk lhs ++ walk rhs)
  | e@(paren _ inner) => e :: walk inner
  | e@(number _ _) | e@(str _ _) | e@(var _ _) | e@(field _ _) | e@(starLabel _ _)
  | e@(missing _) => [e]

def walkList : List Expr → List Expr
  | [] => []
  | e :: rest => walk e ++ walkList rest

def walkOptions : List (Keyed Expr) → List Expr
  | [] => []
  | ⟨_, _, value, _⟩ :: rest => walk value ++ walkOptions rest
end

end Expr

namespace Statement

mutual
/-- The statement and every statement in it, parents first. -/
def walk : Statement → List Statement
  | s@(classDecl _ _ body) | s@(method _ _ body) | s@(procedure _ _ body)
  | s@(forLoop _ _ body _) | s@(whileLoop _ _ body) => s :: walkList body
  | s@(branch _ _ thenBranch elseBranch) => s :: (walkList thenBranch ++ walkList elseBranch)
  | s@(label _ _) | s@(rem _) | s@(assign _ _ _ _) | s@(declare _ _ _ _) | s@(globals _ _)
  | s@(useJava _ _) | s@(useClass _ _ _) | s@(fieldDecl _ _) | s@(inlineProcedure _ _ _)
  | s@(jump _ _ _ _) | s@(openFile _ _) | s@(keyedFile _ _) | s@(print _ _) | s@(ret _ _)
  | s@(terminate _ _) | s@(expr _ _) => [s]

def walkList : List Statement → List Statement
  | [] => []
  | s :: rest => walk s ++ walkList rest
end

end Statement

/-- Every statement of the program, nested ones included, in source order. -/
def Program.allStatements (p : Program) : List Statement := Statement.walkList p.statements

end BbjAnalysis
