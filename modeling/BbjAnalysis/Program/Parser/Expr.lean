import BbjAnalysis.Program.Parser.Cursor
import BbjAnalysis.Text.Quoted

/-! # Reading expressions

Operators are read by precedence climbing. An expression that is not there is
reported and becomes `Expr.missing`, so that reading one always yields one. All
functions here call each other only with fewer tokens left, or for a part of the same
expression that binds tighter.
-/

namespace BbjAnalysis.Parser

open Cursor

/-- The words that make an `=` behind them an option among the arguments of a call. -/
def argumentOptionKeys : List String := ["err", "end", "dom", "tim", "mode", "key", "ind", "siz"]

/-- The binary operator that a token stands for. -/
def binaryOpOf (t : Token) : Option BinaryOp :=
  match t.kind with
  | .eq => some .eq
  | .notEq => some .notEq
  | .lt => some .lt
  | .ltEq => some .ltEq
  | .gt => some .gt
  | .gtEq => some .gtEq
  | .plus => some .add
  | .minus => some .sub
  | .star => some .mul
  | .slash => some .div
  | .caret => some .pow
  | .ident =>
      if t.isKeyword "and" then some .and else if t.isKeyword "or" then some .or else none
  | _ => none

/-- The sign that a token stands for before an operand. -/
def unaryOpOf (t : Token) : Option UnaryOp :=
  match t.kind with
  | .minus => some .neg
  | .plus => some .plus
  | _ => none

/-- The binary operator at the cursor, if it binds at least as tight as `least`. -/
def operatorAt (c : Cursor) (least : Nat) : Option BinaryOp :=
  match c.rest with
  | t :: _ => (binaryOpOf t).filter (least ≤ ·.precedence)
  | [] => none

/-- Whether an option comes next, by its key and `=`. -/
def atOption (c : Cursor) : Bool := c.atPair .ident .eq

/-- Whether an option of a call comes next: `=` elsewhere compares. -/
def atArgumentOption (c : Cursor) : Bool := atOption c && argumentOptionKeys.any c.atKeyword

/-- The arguments of a call, positional and as options. -/
structure Args where
  positional : List Expr
  options : List StatementOption

namespace Args

def empty : Args := ⟨[], []⟩

def consPositional (e : Expr) (a : Args) : Args := { a with positional := e :: a.positional }

def consOption (o : StatementOption) (a : Args) : Args := { a with options := o :: a.options }

end Args

theorem rest_ne_nil_of_operatorAt {c : Cursor} {least : Nat} {op : BinaryOp}
    (h : operatorAt c least = some op) : c.rest ≠ [] := by
  intro e
  simp [operatorAt, e] at h

theorem rest_ne_nil_of_atPair {c : Cursor} {first second : TokenKind}
    (h : c.atPair first second = true) : c.rest ≠ [] :=
  rest_ne_nil_of_isAt (Bool.and_eq_true_iff.1 h).1

/-- Reports that an expression is expected, and puts the placeholder at the cursor. -/
def absentExpr (c : Cursor) : Step c Expr :=
  ⟨.missing ⟨c.nextId, .empty c.offset⟩, (c.report (.expected .expression)).skipId,
    (c.report _).skipId_behind.trans (c.report_behind _)⟩

/-- Closes the node of an expression that began at `start`. -/
def built (start : Nat) (c : Cursor) (make : Node → Expr) : Step c Expr :=
  ⟨make (c.nodeFrom start), c.skipId, c.skipId_behind⟩

mutual

/-- An expression whose operators outside of brackets have at least the precedence `least`. -/
def exprFrom (least : Nat) (c : Cursor) : Step c Expr :=
  (unaryExpr c).andThen fun lhs d _ => operands least c.offset lhs d
termination_by c.size * 8 + 3

/-- Reads on behind the left operand `lhs`, whose expression began at `start`, as long as
operators follow that bind tight enough. -/
def operands (least start : Nat) (lhs : Expr) (c : Cursor) : Step c Expr :=
  match h : operatorAt c least with
  | some op =>
      have : c.bump.size < c.size := size_bump_lt (rest_ne_nil_of_operatorAt h)
      ((exprFrom op.rightPrecedence c.bump).andThen fun rhs d _ =>
        (built start d (.binary · op lhs rhs)).andThen fun e d' _ =>
          operands least start e d').widen c.bump_behind
  | none => .pure c lhs
termination_by c.size * 8

/-- An operand with the signs before it. -/
def unaryExpr (c : Cursor) : Step c Expr :=
  match h : c.rest with
  | t :: _ =>
      match unaryOpOf t with
      | some op =>
          have : c.bump.size < c.size := size_bump_lt (by simp [h])
          ((unaryExpr c.bump).andThen fun operand d _ =>
            built c.offset d (.unary · op operand)).widen c.bump_behind
      | none => postfixExpr c
  | [] => postfixExpr c
termination_by c.size * 8 + 2

/-- An operand with the member accesses and indices behind it. -/
def postfixExpr (c : Cursor) : Step c Expr :=
  (primaryExpr c).andThen fun e d _ => accesses c.offset e d
termination_by c.size * 8 + 1

/-- Reads on behind an operand that began at `start`, as long as accesses follow. -/
def accesses (start : Nat) (base : Expr) (c : Cursor) : Step c Expr :=
  if h : c.atPair .dot .ident then
    have : c.bump.size < c.size := size_bump_lt (rest_ne_nil_of_atPair h)
    let r := (ident .memberName c.bump).andThen fun found d _ =>
      match found with
      | some name =>
          if d.isAt .lparen then
            (arguments d).andThen fun args e _ =>
              (built start e (.methodCall · base name args.positional args.options)).andThen
                fun call e' _ => accesses start call e'
          else
            (built start d (.member · base name)).andThen fun access d' _ =>
              accesses start access d'
      | none => .pure d base
    r.widen c.bump_behind
  else if h : c.isAt .lbracket then
    have : c.bump.size < c.size := size_bump_lt_of_isAt h
    ((exprList c.bump).andThen fun indices d _ =>
      (expect .rbracket .closeBracket d).andThen fun _ e _ =>
        (built start e (.index · base indices)).andThen fun access e' _ =>
          accesses start access e').widen c.bump_behind
  else .pure c base
termination_by c.size * 8

/-- One expression or more, separated by commas. -/
def exprList (c : Cursor) : Step c (List Expr) :=
  (exprFrom 1 c).andThen fun e d _ =>
    if h : d.isAt .comma then
      have : d.bump.size < d.size := size_bump_lt_of_isAt h
      ((exprList d.bump).map (e :: ·)).widen d.bump_behind
    else .pure d [e]
termination_by c.size * 8 + 4

/-- An operand by itself. -/
def primaryExpr (c : Cursor) : Step c Expr :=
  match h : c.rest with
  | [] => absentExpr c
  | t :: _ =>
      have : c.bump.size < c.size := size_bump_lt (by simp [h])
      match t.kind with
      | .number => (built c.offset c.bump (.number · t.text)).widen c.bump_behind
      | .string => (built c.offset c.bump (.str · (Quoted.unquote t.text))).widen c.bump_behind
      | .hash =>
          ((ident .fieldName c.bump).andThen fun found d _ =>
            built c.offset d (found.elim .missing fun name node => .field node name)).widen
              c.bump_behind
      | .star =>
          if c.kindAt 1 = some .ident then
            ((ident .label c.bump).andThen fun found d _ =>
              built c.offset d (found.elim .missing fun name node => .starLabel node name)).widen
                c.bump_behind
          else absentExpr c
      | .lparen =>
          ((exprFrom 1 c.bump).andThen fun inner d _ =>
            (expect .rparen .closeParen d).andThen fun _ e _ =>
              built c.offset e (.paren · inner)).widen c.bump_behind
      | .ident =>
          if t.isKeyword "new" && c.kindAt 1 = some .ident then
            ((typeRef c.bump).andThen fun found d _ =>
              match found with
              | some type =>
                  (optionalArguments d).andThen fun args e _ =>
                    built c.offset e (.new · type args.positional args.options)
              | none => built c.offset d .missing).widen c.bump_behind
          else
            let name : Ident := ⟨c.nextId, t.text, t.span⟩
            let d := c.bump.skipId
            Step.widen (c := d) (
              if d.isAt .lparen then
                (arguments d).andThen fun args e _ =>
                  built c.offset e (.call · name args.positional args.options)
              else built c.offset d (.var · name)) (c.bump.skipId_behind.trans c.bump_behind)
      | _ => absentExpr c
termination_by c.size * 8

/-- The arguments of a constructor, which may leave its parentheses out. -/
def optionalArguments (c : Cursor) : Step c Args :=
  if c.isAt .lparen then arguments c else .pure c .empty
termination_by c.size * 8 + 7

/-- The arguments behind an opening parenthesis, which is next. -/
def arguments (c : Cursor) : Step c Args :=
  have : c.bump.size ≤ c.size := c.size_bump_le
  Step.widen (
    if c.bump.isAt .rparen then ⟨.empty, c.bump.bump, c.bump.bump_behind⟩
    else
      (argumentList c.bump).andThen fun args d _ =>
        (expect .rparen .closeParen d).map fun _ => args) c.bump_behind
termination_by c.size * 8 + 6

/-- One argument or more, separated by commas. An option that goes wrong ends the list. -/
def argumentList (c : Cursor) : Step c Args :=
  if atArgumentOption c then
    (keyedValue c).andThen fun found d _ =>
      match found with
      | some option => (furtherArguments d).map (.consOption option)
      | none => .pure d .empty
  else
    (exprFrom 1 c).andThen fun e d _ => (furtherArguments d).map (.consPositional e)
termination_by c.size * 8 + 5

/-- The arguments behind a comma, if one is next. -/
def furtherArguments (c : Cursor) : Step c Args :=
  if h : c.isAt .comma then
    have : c.bump.size < c.size := size_bump_lt_of_isAt h
    (argumentList c.bump).widen c.bump_behind
  else .pure c .empty
termination_by c.size * 8

/-- An option: a key, `=` and the value. -/
def keyedValue (c : Cursor) : Step c (Option StatementOption) :=
  let id := c.nextId
  ((ident .optionName c.skipId).ifSome fun key d (_ : d.size ≤ c.size) =>
    (expect .eq .equals d).ifTrue fun e _ =>
      (exprFrom 1 e).andThen fun value f _ =>
        .pure f (some ⟨id, key, value, f.spanFrom c.offset⟩)).widen c.skipId_behind
termination_by c.size * 8 + 4

end

/-- An expression of any kind. -/
def expr (c : Cursor) : Step c Expr := exprFrom 1 c

end BbjAnalysis.Parser
