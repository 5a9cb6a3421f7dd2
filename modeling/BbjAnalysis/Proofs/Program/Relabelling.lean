import BbjAnalysis.Program.Parser.Statement
import BbjAnalysis.Proofs.Text.LetterCase
import Mathlib.Order.MinMax

/-! # Relabelling what was read

What is read from a text carries labels: the identities of nodes, the offsets of spans,
and the spelling of names and literals. A relabelling replaces them all and leaves
the constructors, flags and verbs alone. To move a program to another place of a longer text
is one relabelling (`Relabelling.shift`); to forget the layout and the letter case of its text
is another (`Relabelling.shape`).
-/

namespace BbjAnalysis

/-- New labels. Identities move by a constant, and spans keep their order; the characters of
names and literals change in nothing but their letter case. -/
structure Relabelling where
  /-- What is added to every identity. -/
  ids : Nat
  offset : Nat → Nat
  char : Char → Char
  offset_mono : Monotone offset
  toLower_char : ∀ c, (char c).toLower = c.toLower

namespace Relabelling

/-- Leaves everything as it is. -/
def identity : Relabelling := ⟨0, id, id, monotone_id, fun _ => rfl⟩

/-- Puts nodes behind `ids` other ones, and text behind `bytes` other bytes. -/
def shift (ids bytes : Nat) : Relabelling :=
  ⟨ids, (· + bytes), id, fun _ _ h => Nat.add_le_add_right h bytes, fun _ => rfl⟩

/-- Forgets where everything stands, and the letter case it is written in. -/
def shape : Relabelling :=
  ⟨0, fun _ => 0, Char.toLower, fun _ _ _ => Nat.le_refl 0, LetterCase.toLower_toLower⟩

variable (ρ : Relabelling)

def text (s : String) : String := s.map ρ.char

theorem text_identity (s : String) : identity.text s = s := String.map_id

theorem toLower_text (s : String) : (ρ.text s).toLower = s.toLower :=
  calc (s.map ρ.char).map Char.toLower
    _ = s.map (Char.toLower ∘ ρ.char) := String.map_map
    _ = s.map Char.toLower := congrArg (String.map · s) (funext ρ.toLower_char)

theorem text_join (ss : List String) : ρ.text (String.join ss) = String.join (ss.map ρ.text) := by
  rw [← String.toList_inj, text, String.toList_map, String.toList_join, String.toList_join]
  induction ss with
  | nil => rfl
  | cons s rest ih =>
      rw [List.map_cons, List.flatMap_cons, List.flatMap_cons, List.map_append, ih, text,
        String.toList_map]

theorem isEmpty_text (s : String) : (ρ.text s).isEmpty = s.isEmpty := by
  rw [Bool.eq_iff_iff, String.isEmpty_iff, String.isEmpty_iff, text, ← String.toList_inj,
    ← String.toList_inj, String.toList_map]
  exact List.map_eq_nil_iff

/-- Quotes stay quotes, and nothing else becomes one. -/
theorem char_eq_quote {c : Char} : ρ.char c = '"' ↔ c = '"' := by
  constructor <;> rintro h
  · exact LetterCase.eq_quote_of_toLower (by rw [← ρ.toLower_char, h]; rfl)
  · subst h
    exact LetterCase.eq_quote_of_toLower (ρ.toLower_char _)

theorem halve_map (cs : List Char) :
    Quoted.halve (cs.map ρ.char) = (Quoted.halve cs).map ρ.char := by
  have quote : ρ.char '"' = '"' := ρ.char_eq_quote.mpr rfl
  fun_induction Quoted.halve cs with
  | case1 => rfl
  | case2 rest ih => simp only [List.map_cons, quote, Quoted.halve, ih]
  | case3 c rest single ih =>
      rw [List.map_cons, List.map_cons, ← ih, Quoted.halve]
      intro rest' c_quote rest_quote
      cases rest with
      | nil => cases rest_quote
      | cons d rest =>
          obtain ⟨d_quote, -⟩ := List.cons.inj rest_quote
          exact single rest (ρ.char_eq_quote.mp c_quote)
            (congrArg (· :: rest) (ρ.char_eq_quote.mp d_quote))

theorem inside_map (cs : List Char) :
    Quoted.inside (cs.map ρ.char) = (Quoted.inside cs).map (List.map ρ.char) := by
  have quote : ρ.char '"' = '"' := ρ.char_eq_quote.mpr rfl
  have last (rest : List Char) :
      (rest.map ρ.char).getLast? = some '"' ↔ rest.getLast? = some '"' := by
    rw [List.getLast?_map, Option.map_eq_some_iff]
    simp only [ρ.char_eq_quote, exists_eq_right]
  have unquoted {c : Char} {rest : List Char} (h : c ≠ '"') : Quoted.inside (c :: rest) = none := by
    unfold Quoted.inside
    split
    · next e => exact absurd (List.cons.inj e).1 h
    · rfl
  cases cs with
  | nil => rfl
  | cons c rest =>
      by_cases h : c = '"'
      · subst h
        simp only [List.map_cons, quote, Quoted.inside, last]
        split
        · rw [Option.map_some, List.map_dropLast]
        · rfl
      · rw [List.map_cons, unquoted h, unquoted (fun e => h (ρ.char_eq_quote.mp e))]
        rfl

theorem unquote_text (s : String) : Quoted.unquote (ρ.text s) = ρ.text (Quoted.unquote s) := by
  rw [← String.toList_inj]
  simp only [Quoted.unquote, text, String.toList_map, String.toList_ofList, inside_map]
  cases Quoted.inside s.toList <;> exact ρ.halve_map _

end Relabelling

/-- Data that carries labels. -/
class Labelled (α : Type) where
  relabel : Relabelling → α → α
  relabel_identity : ∀ a : α, relabel .identity a = a

export Labelled (relabel relabel_identity)

namespace Labelled

/-- Data without any label. -/
@[reducible] def plain {α : Type} : Labelled α := ⟨fun _ a => a, fun _ => rfl⟩

instance : Labelled Unit := plain

instance : Labelled Bool := plain

instance : Labelled Modifier := plain

instance : Labelled String := ⟨Relabelling.text, Relabelling.text_identity⟩

section Containers

variable {α β : Type} [Labelled α] [Labelled β]

instance : Labelled (List α) :=
  ⟨fun ρ => List.map (relabel ρ), fun _ => List.map_id'' relabel_identity _⟩

instance : Labelled (Option α) where
  relabel ρ := Option.map (relabel ρ)
  relabel_identity
    | none => rfl
    | some a => congrArg some (relabel_identity a)

instance : Labelled (α × β) where
  relabel ρ p := (relabel ρ p.1, relabel ρ p.2)
  relabel_identity p := Prod.ext (relabel_identity p.1) (relabel_identity p.2)

variable (ρ : Relabelling)

@[simp] theorem relabel_cons (a : α) (as : List α) :
    relabel ρ (a :: as) = relabel ρ a :: relabel ρ as := rfl

@[simp] theorem relabel_append (as bs : List α) :
    relabel ρ (as ++ bs) = relabel ρ as ++ relabel ρ bs := List.map_append

@[simp] theorem relabel_reverse (as : List α) :
    relabel ρ as.reverse = (relabel ρ as).reverse := List.map_reverse

end Containers
end Labelled

/-! ## Spans and names -/

namespace Relabelling

variable (ρ : Relabelling)

def span (s : Span) : Span := ⟨ρ.offset s.start, ρ.offset s.stop⟩

theorem span_cover (a b : Span) : ρ.span (a.cover b) = (ρ.span a).cover (ρ.span b) := by
  rw [span, Span.cover, ρ.offset_mono.map_min, ρ.offset_mono.map_max]
  rfl

def node (n : Node) : Node := ⟨n.id + ρ.ids, ρ.span n.span⟩

def ident (i : Ident) : Ident := ⟨i.id + ρ.ids, ρ.text i.text, ρ.span i.span⟩

def typeRef (t : TypeRef) : TypeRef := ⟨t.id + ρ.ids, relabel ρ t.segments, ρ.span t.span⟩

end Relabelling

instance : Labelled Span := ⟨Relabelling.span, fun _ => rfl⟩

instance : Labelled Node := ⟨Relabelling.node, fun _ => rfl⟩

instance : Labelled Ident where
  relabel := Relabelling.ident
  relabel_identity i := by
    rw [Relabelling.ident, Relabelling.text_identity]
    rfl

instance : Labelled TypeRef where
  relabel := Relabelling.typeRef
  relabel_identity t := by
    rw [Relabelling.typeRef, relabel_identity]
    rfl

instance {ε : Type} [Labelled ε] : Labelled (Keyed ε) where
  relabel ρ o := ⟨o.id + ρ.ids, relabel ρ o.key, relabel ρ o.value, relabel ρ o.span⟩
  relabel_identity o := by
    rw [relabel_identity, relabel_identity, relabel_identity]
    rfl

/-! ## Expressions -/

namespace Relabelling

variable (ρ : Relabelling)

mutual

def expr : Expr → Expr
  | .number n text => .number (relabel ρ n) (relabel ρ text)
  | .str n text => .str (relabel ρ n) (relabel ρ text)
  | .var n name => .var (relabel ρ n) (relabel ρ name)
  | .field n name => .field (relabel ρ n) (relabel ρ name)
  | .call n callee args options =>
      .call (relabel ρ n) (relabel ρ callee) (exprs args) (keyedExprs options)
  | .methodCall n receiver name args options =>
      .methodCall (relabel ρ n) (expr receiver) (relabel ρ name) (exprs args) (keyedExprs options)
  | .member n receiver name => .member (relabel ρ n) (expr receiver) (relabel ρ name)
  | .index n base indices => .index (relabel ρ n) (expr base) (exprs indices)
  | .new n type args options =>
      .new (relabel ρ n) (relabel ρ type) (exprs args) (keyedExprs options)
  | .unary n op operand => .unary (relabel ρ n) op (expr operand)
  | .binary n op lhs rhs => .binary (relabel ρ n) op (expr lhs) (expr rhs)
  | .starLabel n name => .starLabel (relabel ρ n) (relabel ρ name)
  | .paren n inner => .paren (relabel ρ n) (expr inner)
  | .missing n => .missing (relabel ρ n)

def exprs : List Expr → List Expr
  | [] => []
  | e :: rest => expr e :: exprs rest

def keyedExprs : List (Keyed Expr) → List (Keyed Expr)
  | [] => []
  | ⟨id, key, value, span⟩ :: rest =>
      ⟨id + ρ.ids, relabel ρ key, expr value, relabel ρ span⟩ :: keyedExprs rest

end

mutual

theorem expr_identity (e : Expr) : identity.expr e = e := by
  cases e with
  | number | str | var | field | starLabel | missing => simp only [expr, relabel_identity]
  | call _ _ args options | new _ _ args options =>
      simp only [expr, relabel_identity, exprs_identity args, keyedExprs_identity options]
  | methodCall _ receiver _ args options =>
      simp only [expr, relabel_identity, expr_identity receiver, exprs_identity args,
        keyedExprs_identity options]
  | member _ e _ | unary _ _ e | paren _ e =>
      simp only [expr, relabel_identity, expr_identity e]
  | index _ base indices =>
      simp only [expr, relabel_identity, expr_identity base, exprs_identity indices]
  | binary _ _ lhs rhs =>
      simp only [expr, relabel_identity, expr_identity lhs, expr_identity rhs]
termination_by sizeOf e

theorem exprs_identity (es : List Expr) : identity.exprs es = es := by
  cases es with
  | nil => rfl
  | cons e rest => simp only [exprs, expr_identity e, exprs_identity rest]
termination_by sizeOf es

theorem keyedExprs_identity (os : List (Keyed Expr)) : identity.keyedExprs os = os := by
  cases os with
  | nil => rfl
  | cons o rest =>
      obtain ⟨id, key, value, span⟩ := o
      simp only [keyedExprs, relabel_identity, expr_identity value, keyedExprs_identity rest]
      rfl
termination_by sizeOf os

end

end Relabelling

instance : Labelled Expr := ⟨Relabelling.expr, Relabelling.expr_identity⟩

namespace Relabelling

variable (ρ : Relabelling)

theorem exprs_eq (es : List Expr) : ρ.exprs es = relabel ρ es := by
  induction es with
  | nil => rfl
  | cons e rest ih => rw [exprs, ih, Labelled.relabel_cons]; rfl

theorem keyedExprs_eq (os : List (Keyed Expr)) : ρ.keyedExprs os = relabel ρ os := by
  induction os with
  | nil => rfl
  | cons o rest ih =>
      obtain ⟨id, key, value, span⟩ := o
      rw [keyedExprs, ih, Labelled.relabel_cons]
      rfl

/-- How an expression is relabelled, by what the parts of it become. -/
theorem relabel_expr (e : Expr) :
    relabel ρ e =
      match e with
      | .number n text => .number (relabel ρ n) (relabel ρ text)
      | .str n text => .str (relabel ρ n) (relabel ρ text)
      | .var n name => .var (relabel ρ n) (relabel ρ name)
      | .field n name => .field (relabel ρ n) (relabel ρ name)
      | .call n callee args options =>
          .call (relabel ρ n) (relabel ρ callee) (relabel ρ args) (relabel ρ options)
      | .methodCall n receiver name args options =>
          .methodCall (relabel ρ n) (relabel ρ receiver) (relabel ρ name) (relabel ρ args)
            (relabel ρ options)
      | .member n receiver name => .member (relabel ρ n) (relabel ρ receiver) (relabel ρ name)
      | .index n base indices => .index (relabel ρ n) (relabel ρ base) (relabel ρ indices)
      | .new n type args options =>
          .new (relabel ρ n) (relabel ρ type) (relabel ρ args) (relabel ρ options)
      | .unary n op operand => .unary (relabel ρ n) op (relabel ρ operand)
      | .binary n op lhs rhs => .binary (relabel ρ n) op (relabel ρ lhs) (relabel ρ rhs)
      | .starLabel n name => .starLabel (relabel ρ n) (relabel ρ name)
      | .paren n inner => .paren (relabel ρ n) (relabel ρ inner)
      | .missing n => .missing (relabel ρ n) := by
  cases e <;> simp only [← exprs_eq, ← keyedExprs_eq] <;> rfl

theorem span_optionsSpan (offset : Nat) (os : List StatementOption) :
    ρ.span (Parser.optionsSpan offset os) =
      Parser.optionsSpan (ρ.offset offset) (relabel ρ os) := by
  have covered (os : List StatementOption) (s : Span) :
      ρ.span (os.foldl (fun s o => s.cover o.span) s) =
        (relabel ρ os).foldl (fun s o => s.cover o.span) (ρ.span s) := by
    induction os generalizing s with
    | nil => rfl
    | cons o rest ih =>
        rw [List.foldl_cons, ih, span_cover, Labelled.relabel_cons, List.foldl_cons]
        rfl
  cases os with
  | nil => rfl
  | cons o rest => exact covered rest o.span

end Relabelling

/-! ## Statements -/

instance : Labelled AssignTarget where
  relabel ρ
    | .var name => .var (relabel ρ name)
    | .field name => .field (relabel ρ name)
  relabel_identity t := by cases t <;> simp only [relabel_identity]

instance : Labelled Param where
  relabel ρ p := ⟨p.id + ρ.ids, relabel ρ p.type, relabel ρ p.name⟩
  relabel_identity p := by simp only [relabel_identity]; rfl

instance : Labelled ClassHead where
  relabel ρ h :=
    ⟨h.isInterface, h.modifier, relabel ρ h.name, relabel ρ h.supertypes, relabel ρ h.interfaces⟩
  relabel_identity h := by simp only [relabel_identity]

instance : Labelled MethodHead where
  relabel ρ h :=
    ⟨h.modifier, h.isStatic, relabel ρ h.returnType, relabel ρ h.name, relabel ρ h.params⟩
  relabel_identity h := by simp only [relabel_identity]

instance : Labelled ProcedureHead where
  relabel ρ h := ⟨h.isPublic, relabel ρ h.name, relabel ρ h.params⟩
  relabel_identity h := by simp only [relabel_identity]

instance : Labelled FieldDecl where
  relabel ρ d := ⟨d.modifier, d.isStatic, relabel ρ d.type, relabel ρ d.name, relabel ρ d.init⟩
  relabel_identity d := by simp only [relabel_identity]

instance : Labelled OpenFile where
  relabel ρ f :=
    ⟨relabel ρ f.channel, relabel ρ f.options, relabel ρ f.optionsSpan, relabel ρ f.path⟩
  relabel_identity f := by simp only [relabel_identity]

instance : Labelled KeyedFile where
  relabel ρ f := ⟨f.verb, relabel ρ f.args, relabel ρ f.options⟩
  relabel_identity f := by simp only [relabel_identity]

instance : Labelled ForHead where
  relabel ρ h := ⟨relabel ρ h.loopVariable, relabel ρ h.first, relabel ρ h.last, relabel ρ h.step⟩
  relabel_identity h := by simp only [relabel_identity]

namespace Relabelling

variable (ρ : Relabelling)

mutual

def statement : Statement → Statement
  | .label n name => .label (relabel ρ n) (relabel ρ name)
  | .rem n => .rem (relabel ρ n)
  | .assign n explicitLet target value =>
      .assign (relabel ρ n) explicitLet (relabel ρ target) (relabel ρ value)
  | .declare n auto type name => .declare (relabel ρ n) auto (relabel ρ type) (relabel ρ name)
  | .globals n names => .globals (relabel ρ n) (relabel ρ names)
  | .useJava n type => .useJava (relabel ρ n) (relabel ρ type)
  | .useClass n path name => .useClass (relabel ρ n) (relabel ρ path) (relabel ρ name)
  | .classDecl n head members => .classDecl (relabel ρ n) (relabel ρ head) (statementList members)
  | .fieldDecl n decl => .fieldDecl (relabel ρ n) (relabel ρ decl)
  | .method n head body => .method (relabel ρ n) (relabel ρ head) (statementList body)
  | .procedure n head body => .procedure (relabel ρ n) (relabel ρ head) (statementList body)
  | .inlineProcedure n head body =>
      .inlineProcedure (relabel ρ n) (relabel ρ head) (relabel ρ body)
  | .jump n verb selector targets =>
      .jump (relabel ρ n) verb (relabel ρ selector) (relabel ρ targets)
  | .openFile n file => .openFile (relabel ρ n) (relabel ρ file)
  | .keyedFile n file => .keyedFile (relabel ρ n) (relabel ρ file)
  | .print n items => .print (relabel ρ n) (relabel ρ items)
  | .branch n condition thenBranch elseBranch =>
      .branch (relabel ρ n) (relabel ρ condition) (statementList thenBranch)
        (statementList elseBranch)
  | .forLoop n head body next =>
      .forLoop (relabel ρ n) (relabel ρ head) (statementList body) (relabel ρ next)
  | .whileLoop n condition body =>
      .whileLoop (relabel ρ n) (relabel ρ condition) (statementList body)
  | .ret n value => .ret (relabel ρ n) (relabel ρ value)
  | .terminate n verb => .terminate (relabel ρ n) verb
  | .expr n value => .expr (relabel ρ n) (relabel ρ value)

def statementList : List Statement → List Statement
  | [] => []
  | s :: rest => statement s :: statementList rest

end

mutual

theorem statement_identity (s : Statement) : identity.statement s = s := by
  cases s with
  | classDecl _ _ body | method _ _ body | procedure _ _ body | forLoop _ _ body _
  | whileLoop _ _ body =>
      simp only [statement, relabel_identity, statementList_identity body]
  | branch _ _ thenBranch elseBranch =>
      simp only [statement, relabel_identity, statementList_identity thenBranch,
        statementList_identity elseBranch]
  | _ => simp only [statement, relabel_identity]
termination_by sizeOf s

theorem statementList_identity (ss : List Statement) : identity.statementList ss = ss := by
  cases ss with
  | nil => rfl
  | cons s rest => simp only [statementList, statement_identity s, statementList_identity rest]
termination_by sizeOf ss

end

end Relabelling

instance : Labelled Statement := ⟨Relabelling.statement, Relabelling.statement_identity⟩

namespace Relabelling

variable (ρ : Relabelling)

theorem statementList_eq (ss : List Statement) : ρ.statementList ss = relabel ρ ss := by
  induction ss with
  | nil => rfl
  | cons s rest ih => rw [statementList, ih, Labelled.relabel_cons]; rfl

/-- How a statement is relabelled, by what the parts of it become. -/
theorem relabel_statement (s : Statement) :
    relabel ρ s =
      match s with
      | .label n name => .label (relabel ρ n) (relabel ρ name)
      | .rem n => .rem (relabel ρ n)
      | .assign n explicitLet target value =>
          .assign (relabel ρ n) explicitLet (relabel ρ target) (relabel ρ value)
      | .declare n auto type name =>
          .declare (relabel ρ n) auto (relabel ρ type) (relabel ρ name)
      | .globals n names => .globals (relabel ρ n) (relabel ρ names)
      | .useJava n type => .useJava (relabel ρ n) (relabel ρ type)
      | .useClass n path name => .useClass (relabel ρ n) (relabel ρ path) (relabel ρ name)
      | .classDecl n head members => .classDecl (relabel ρ n) (relabel ρ head) (relabel ρ members)
      | .fieldDecl n decl => .fieldDecl (relabel ρ n) (relabel ρ decl)
      | .method n head body => .method (relabel ρ n) (relabel ρ head) (relabel ρ body)
      | .procedure n head body => .procedure (relabel ρ n) (relabel ρ head) (relabel ρ body)
      | .inlineProcedure n head body =>
          .inlineProcedure (relabel ρ n) (relabel ρ head) (relabel ρ body)
      | .jump n verb selector targets =>
          .jump (relabel ρ n) verb (relabel ρ selector) (relabel ρ targets)
      | .openFile n file => .openFile (relabel ρ n) (relabel ρ file)
      | .keyedFile n file => .keyedFile (relabel ρ n) (relabel ρ file)
      | .print n items => .print (relabel ρ n) (relabel ρ items)
      | .branch n condition thenBranch elseBranch =>
          .branch (relabel ρ n) (relabel ρ condition) (relabel ρ thenBranch) (relabel ρ elseBranch)
      | .forLoop n head body next =>
          .forLoop (relabel ρ n) (relabel ρ head) (relabel ρ body) (relabel ρ next)
      | .whileLoop n condition body =>
          .whileLoop (relabel ρ n) (relabel ρ condition) (relabel ρ body)
      | .ret n value => .ret (relabel ρ n) (relabel ρ value)
      | .terminate n verb => .terminate (relabel ρ n) verb
      | .expr n value => .expr (relabel ρ n) (relabel ρ value) := by
  cases s <;> simp only [← statementList_eq] <;> rfl

end Relabelling

/-! ## Errors -/

instance : Labelled Fault where
  relabel ρ
    | .strayCloser word => .strayCloser (relabel ρ word)
    | fault => fault
  relabel_identity f := by cases f <;> simp only [relabel_identity]

instance : Labelled SyntaxError where
  relabel ρ e := ⟨relabel ρ e.fault, relabel ρ e.span⟩
  relabel_identity e := by simp only [relabel_identity]

/-- Messages show words in capitals, whatever they look like in the text. -/
theorem Fault.message_relabel (ρ : Relabelling) (f : Fault) :
    (relabel ρ f).message = f.message := by
  cases f with
  | strayCloser word =>
      show "unexpected " ++ (ρ.text word).toUpper = "unexpected " ++ word.toUpper
      rw [← LetterCase.text_toUpper_toLower, ρ.toLower_text, LetterCase.text_toUpper_toLower]
  | expected | missingCloser | unexpectedToken | unexpectedInPrint => rfl

end BbjAnalysis
