import BbjAnalysis.Proofs.Program.Gathering
import BbjAnalysis.Proofs.Token.Pattern
import BbjAnalysis.Text.Quoted
import Mathlib.Data.List.Sort

/-! # How expressions are written

An expression is written as a row of lexemes: its operands with the operators, brackets, dots,
commas and keywords around them (`Expr.lexemes`). The arguments and the options of a call, which
the tree keeps apart, stand in the order of their places. Of each lexeme it is said which tokens
spell it (`Lexeme.SpelledBy`), which is one token but where the tree does not tell.

Between two cursors a row of lexemes was read if the tokens between them spell it; where something
was found wrong, nothing is said (`Written`).
-/

namespace BbjAnalysis

/-! ## Lexemes -/

/-- A piece that expressions are written with. -/
inductive Lexeme where
  | name (text : String)
  | number (text : String)
  /-- A string literal, by the text that it stands for. -/
  | literal (text : String)
  /-- A keyword, in small letters. -/
  | word (text : String)
  | mark (kind : TokenKind) (text : String)
  /-- Array suffixes behind the name of a type, any number of them. -/
  | suffixes
  /-- Parentheses with nothing in them, which may be left out. -/
  | emptyParens
deriving DecidableEq

namespace Lexeme

/-- The tokens spell the lexeme. Keywords may be spelled in any case. A literal stands between
quotes with the quotes in it doubled, and a mark is written as it is, in every token that a text
has. -/
inductive SpelledBy : Lexeme → List Token → Prop
  | name {t : Token} (isName : t.kind = .ident) : SpelledBy (.name t.text) [t]
  | number {t : Token} (isNumber : t.kind = .number) : SpelledBy (.number t.text) [t]
  | literal {t : Token} (isString : t.kind = .string)
    (quoted : t.text.toList ∈ TokenKind.string.pattern →
      t.text = Quoted.quote (Quoted.unquote t.text)) :
    SpelledBy (.literal (Quoted.unquote t.text)) [t]
  | word {t : Token} {word : String} (isWord : t.isKeyword word = true) :
    SpelledBy (.word word) [t]
  | mark {t : Token} {kind : TokenKind} {text : String} (isMark : t.kind = kind)
    (written : t.text.toList ∈ kind.pattern → t.text = text) : SpelledBy (.mark kind text) [t]
  | noSuffix : SpelledBy .suffixes []
  | suffix {opening closing : Token} {ts : List Token} (opens : opening.kind = .lbracket)
    (closes : closing.kind = .rbracket) (more : SpelledBy .suffixes ts) :
    SpelledBy .suffixes (opening :: closing :: ts)
  | noParens : SpelledBy .emptyParens []
  | parens {opening closing : Token} (opens : opening.kind = .lparen)
    (closes : closing.kind = .rparen) : SpelledBy .emptyParens [opening, closing]

/-- Tokens of a kind that has one text spell that text. -/
theorem SpelledBy.only {t : Token} {kind : TokenKind} (text : String) (isMark : t.kind = kind)
    (pattern : kind.pattern = {text.toList}) : SpelledBy (.mark kind text) [t] := by
  refine .mark isMark fun allowed => ?_
  rw [pattern] at allowed
  exact String.toList_inj.mp allowed

abbrev comma : Lexeme := .mark .comma ","
abbrev dot : Lexeme := .mark .dot "."
abbrev equals : Lexeme := .mark .eq "="
abbrev lparen : Lexeme := .mark .lparen "("
abbrev rparen : Lexeme := .mark .rparen ")"
abbrev lbracket : Lexeme := .mark .lbracket "["
abbrev rbracket : Lexeme := .mark .rbracket "]"

end Lexeme

open Lexeme (comma dot equals lparen rparen lbracket rbracket)

/-- Tokens that spell lexemes one after the other. -/
inductive Spelled : List Lexeme → List Token → Prop
  | nil : Spelled [] []
  | cons {l : Lexeme} {ls : List Lexeme} {ts us : List Token} (first : l.SpelledBy ts)
    (rest : Spelled ls us) : Spelled (l :: ls) (ts ++ us)

namespace Spelled

theorem single {l : Lexeme} {ts : List Token} (spelled : l.SpelledBy ts) : Spelled [l] ts := by
  rw [← List.append_nil ts]
  exact .cons spelled .nil

theorem append {ls ms : List Lexeme} {ts us : List Token} (front : Spelled ls ts)
    (back : Spelled ms us) : Spelled (ls ++ ms) (ts ++ us) := by
  induction front with
  | nil => exact back
  | cons first _ ih =>
      rw [List.append_assoc]
      exact .cons first ih

/-- Parentheses with nothing in them may also be left out. -/
theorem optional {ts : List Token} (spelled : Spelled [lparen, rparen] ts) :
    Spelled [.emptyParens] ts := by
  obtain _ | ⟨first, _ | ⟨second, _ | _⟩⟩ := spelled
  cases first with
  | mark opens =>
      cases second with
      | mark closes => exact .single (.parens opens closes)

end Spelled

/-! ## Expressions as lexemes -/

/-- An operator as it is written. -/
def BinaryOp.lexeme : BinaryOp → Lexeme
  | .or => .word "or"
  | .and => .word "and"
  | .eq => .mark .eq "="
  | .notEq => .mark .notEq "<>"
  | .lt => .mark .lt "<"
  | .ltEq => .mark .ltEq "<="
  | .gt => .mark .gt ">"
  | .gtEq => .mark .gtEq ">="
  | .add => .mark .plus "+"
  | .sub => .mark .minus "-"
  | .mul => .mark .star "*"
  | .div => .mark .slash "/"
  | .pow => .mark .caret "^"

/-- A sign as it is written. -/
def UnaryOp.lexeme : UnaryOp → Lexeme
  | .neg => .mark .minus "-"
  | .plus => .mark .plus "+"

def TypeRef.lexemes (type : TypeRef) : List Lexeme :=
  [dot].intercalate (type.segments.map ([.name ·])) ++ [.suffixes]

/-- Lexemes with the place of the node that they are written for. -/
abbrev Item := Nat × List Lexeme

/-- What items consist of, in the order of their places. -/
def inPlace (items : List Item) : List (List Lexeme) :=
  (items.insertionSort fun x y => x.1 ≤ y.1).map (·.2)

/-- The item with the lowest place comes first, wherever it stands. -/
theorem inPlace_append_cons {x : Item} (xs ys : List Item) (first : ∀ y ∈ xs ++ ys, x.1 < y.1) :
    inPlace (xs ++ x :: ys) = x.2 :: inPlace (xs ++ ys) := by
  have sorted : (xs ++ x :: ys).insertionSort (fun x y => x.1 ≤ y.1) =
      x :: (xs ++ ys).insertionSort fun x y => x.1 ≤ y.1 := by
    induction xs with
    | nil =>
        rw [List.nil_append, List.insertionSort_cons, List.nil_append]
        cases rest : ys.insertionSort fun x y => x.1 ≤ y.1 with
        | nil => rfl
        | cons y more =>
            have member : y ∈ ys := by
              rw [← List.mem_insertionSort fun x y : Item => x.1 ≤ y.1, rest]
              exact List.mem_cons_self
            exact List.orderedInsert_cons_of_le _ more (Nat.le_of_lt (first y member))
    | cons y xs ih =>
        obtain ⟨later, rest⟩ := List.forall_mem_cons.mp first
        rw [List.cons_append, List.insertionSort_cons, ih rest, List.cons_append,
          List.insertionSort_cons]
        exact List.orderedInsert_of_not_le _ _ (Nat.not_le_of_lt later)
  rw [inPlace, sorted, List.map_cons, inPlace]

/-- Lexemes in parentheses, separated by commas. -/
def inParens (items : List (List Lexeme)) : List Lexeme :=
  lparen :: ([comma].intercalate items ++ [rparen])

/-- The same behind a constructor, where parentheses with nothing in them may be left out. -/
def inOptionalParens (items : List (List Lexeme)) : List Lexeme :=
  if items = [] then [.emptyParens] else inParens items

namespace Expr

variable (place : Node → Nat)

mutual
/-- What an expression is written with, from left to right. -/
def lexemes : Expr → List Lexeme
  | .number _ text => [.number text]
  | .str _ text => [.literal text]
  | .var _ name => [.name name.text]
  | .field _ name => [.mark .hash "#", .name name.text]
  | .call _ callee args options =>
      .name callee.text :: inParens (inPlace (listed args ++ keyed options))
  | .methodCall _ receiver name args options =>
      lexemes receiver ++
        dot :: .name name.text :: inParens (inPlace (listed args ++ keyed options))
  | .member _ receiver name => lexemes receiver ++ [dot, .name name.text]
  | .index _ base indices =>
      lexemes base ++ lbracket :: ([comma].intercalate ((listed indices).map (·.2)) ++ [rbracket])
  | .new _ type args options =>
      .word "new" :: (type.lexemes ++ inOptionalParens (inPlace (listed args ++ keyed options)))
  | .unary _ op operand => op.lexeme :: lexemes operand
  | .binary _ op lhs rhs => lexemes lhs ++ op.lexeme :: lexemes rhs
  | .starLabel _ name => [.mark .star "*", .name name.text]
  | .paren _ inner => lparen :: (lexemes inner ++ [rparen])
  | .missing _ => []

def listed : List Expr → List Item
  | [] => []
  | e :: rest => (place e.node, lexemes e) :: listed rest

def keyed : List (Keyed Expr) → List Item
  | [] => []
  | ⟨id, key, value, span⟩ :: rest =>
      (place ⟨id, span⟩, .name key.text :: equals :: lexemes value) :: keyed rest
end

end Expr

namespace Parser

open Cursor

/-! ## Places -/

/-- A node that was read between two cursors. -/
structure Between (b c : Cursor) (n : Node) : Prop where
  starts : n.span.start = b.offset
  least : b.nextId ≤ n.id
  most : n.id < c.nextId

/-- From the cursor on, of two nodes the one that is read first has the lower place. -/
def Orders (place : Node → Nat) (b : Cursor) : Prop :=
  ∀ ⦃c d c' d' : Cursor⦄ ⦃n m : Node⦄, c.Behind b → d.Behind c → Between c d n → c'.Behind d →
    c'.size < c.size → d'.Behind c' → Between c' d' m → place n < place m

variable {place : Node → Nat} {b c d : Cursor} {ls ms : List Lexeme}

theorem Orders.behind (orders : Orders place b) (behind : c.Behind b) : Orders place c :=
  fun _ _ _ _ _ _ first => orders (first.trans behind)

/-- Identities are given away in the order of reading. -/
theorem orders_id (b : Cursor) : Orders Node.id b := by
  intro c d c' d' n m _ _ first between _ _ second
  exact Nat.lt_of_lt_of_le first.most (Nat.le_trans between.nextId second.least)

/-- Where the tokens stand in a row, nodes start in the order of reading. -/
theorem orders_start (laid : b.Laid) : Orders (·.span.start) b := by
  intro c d c' d' n m front further first between fewer _ second
  have laid := (front.laid laid).1
  have behind := between.trans further
  show n.span.start < m.span.start
  rw [first.starts, second.starts]
  exact Nat.lt_of_lt_of_le (behind.offset_lt laid fewer) (behind.laid laid).1.lastStop_le_offset

theorem Between.mono {n : Node} (between : Between b c n) (behind : d.Behind c) : Between b d n :=
  ⟨between.starts, between.least, Nat.lt_of_lt_of_le between.most behind.nextId⟩

/-! ## What is written between two cursors -/

/-- The tokens between the cursors spell the lexemes, unless something was found wrong there. -/
structure Written (b c : Cursor) (ls : List Lexeme) : Prop where
  behind : c.Behind b
  spelled : c.errors = b.errors → ∃ ts, ts ++ c.rest = b.rest ∧ Spelled ls ts

namespace Written

theorem nothing (behind : c.Behind b) (rest : c.rest = b.rest) : Written b c [] :=
  ⟨behind, fun _ => ⟨[], rest, .nil⟩⟩

theorem start (c : Cursor) : Written c c [] := nothing (.refl c) rfl

theorem append (front : Written b c ls) (back : Written c d ms) : Written b d (ls ++ ms) where
  behind := back.behind.trans front.behind
  spelled clean := by
    obtain ⟨first, second⟩ := front.behind.errors_eq back.behind clean
    obtain ⟨ts, rest, spelled⟩ := front.spelled first
    obtain ⟨us, rest', spelled'⟩ := back.spelled second
    exact ⟨ts ++ us, by rw [List.append_assoc, rest', rest], spelled.append spelled'⟩

/-- The same lexemes told in another way. -/
theorem congr (written : Written b c ls) (same : c.errors = b.errors → ls = ms) :
    Written b c ms :=
  ⟨written.behind, fun clean => same clean ▸ written.spelled clean⟩

theorem skipId (written : Written b c ls) : Written b c.skipId ls :=
  ⟨c.skipId_behind.trans written.behind, written.spelled⟩

theorem failed (failed : Failed b c) (ls : List Lexeme) : Written b c ls :=
  ⟨failed.behind, fun clean => absurd clean failed.errors⟩

theorem token {t : Token} {ts : List Token} {l : Lexeme} (next : c.rest = t :: ts)
    (spelled : l.SpelledBy [t]) : Written c c.bump [l] := by
  refine ⟨c.bump_behind, fun _ => ⟨[t], ?_, .single spelled⟩⟩
  simp only [bump, next, List.singleton_append]

/-- The token that was looked for, of a kind that has one text. -/
theorem mark {kind : TokenKind} (text : String) (next : c.isAt kind = true)
    (pattern : kind.pattern = {text.toList}) : Written c c.bump [.mark kind text] := by
  obtain ⟨t, ts, rest⟩ := List.exists_cons_of_ne_nil (rest_ne_nil_of_isAt next)
  exact token rest (.only text ((isAt_iff_head rest kind).mp next) pattern)

end Written

/-- An expression was read, and is written with the tokens read. -/
structure IsRead (place : Node → Nat) (b : Cursor) (e : Expr) (d : Cursor) : Prop where
  written : Written b d (e.lexemes place)
  node : Between b d e.node

/-! ## Arguments -/

namespace Args

/-- What the arguments are written with, in the order of their places. -/
def items (place : Node → Nat) (args : Args) : List (List Lexeme) :=
  inPlace (Expr.listed place args.positional ++ Expr.keyed place args.options)

/-- The nodes of the arguments and the options. -/
def nodes (args : Args) : List Node :=
  args.positional.map Expr.node ++ args.options.map fun o => ⟨o.id, o.span⟩

end Args

theorem map_listed (es : List Expr) :
    (Expr.listed place es).map (·.1) = es.map fun e => place e.node := by
  induction es with
  | nil => rfl
  | cons e es ih => exact congrArg (place e.node :: ·) ih

theorem map_keyed (os : List StatementOption) :
    (Expr.keyed place os).map (·.1) = os.map fun o => place ⟨o.id, o.span⟩ := by
  induction os with
  | nil => rfl
  | cons o os ih => exact congrArg (place ⟨o.id, o.span⟩ :: ·) ih

/-- Each item of the arguments has the place of one of their nodes. -/
theorem exists_of_mem_items (args : Args) {x : Item}
    (member : x ∈ Expr.listed place args.positional ++ Expr.keyed place args.options) :
    ∃ n ∈ args.nodes, x.1 = place n := by
  have places : (Expr.listed place args.positional ++ Expr.keyed place args.options).map (·.1) =
      args.nodes.map place := by
    simp only [List.map_append, map_listed, map_keyed, Args.nodes, List.map_map,
      Function.comp_def]
  have among := List.mem_map_of_mem (f := (·.1)) member
  rw [places] at among
  obtain ⟨n, inside, same⟩ := List.mem_map.mp among
  exact ⟨n, inside, same.symm⟩

section Items

variable {args : Args}

theorem items_consPositional {e : Expr} (first : ∀ m ∈ args.nodes, place e.node < place m) :
    (args.consPositional e).items place = e.lexemes place :: args.items place := by
  refine inPlace_append_cons [] _ fun y member => ?_
  obtain ⟨n, inside, same⟩ := exists_of_mem_items args member
  rw [same]
  exact first n inside

theorem items_consOption {o : StatementOption}
    (first : ∀ m ∈ args.nodes, place ⟨o.id, o.span⟩ < place m) :
    (args.consOption o).items place =
      (.name o.key.text :: equals :: o.value.lexemes place) :: args.items place := by
  refine inPlace_append_cons _ _ fun y member => ?_
  obtain ⟨n, inside, same⟩ := exists_of_mem_items args member
  rw [same]
  exact first n inside

end Items

/-- The node was read behind the cursor. -/
def ReadBehind (c : Cursor) (n : Node) : Prop :=
  ∃ b d : Cursor, b.Behind c ∧ d.Behind b ∧ Between b d n

/-- The node was read behind the next token. -/
def ReadFurther (c : Cursor) (n : Node) : Prop :=
  ∃ d : Cursor, d.Behind c ∧ d.size < c.size ∧ ReadBehind d n

theorem ReadBehind.early {n : Node} (read : ReadBehind c n) (behind : c.Behind b) :
    ReadBehind b n := by
  obtain ⟨c', d', front, rest⟩ := read
  exact ⟨c', d', front.trans behind, rest⟩

theorem ReadFurther.early {n : Node} (read : ReadFurther c n) (behind : c.Behind b) :
    ReadBehind b n := by
  obtain ⟨d, front, -, read⟩ := read
  exact read.early (front.trans behind)

theorem Orders.lt_of_further {n m : Node} (orders : Orders place c) (behind : d.Behind c)
    (first : Between c d n) (second : ReadFurther d m) : place n < place m := by
  obtain ⟨e, front, fewer, c', d', between, further, last⟩ := second
  have fewer' : c'.size < c.size :=
    Nat.lt_of_le_of_lt between.size_le (Nat.lt_of_lt_of_le fewer behind.size_le)
  exact orders (.refl c) behind first (between.trans front) fewer' further last

/-- Arguments were read, one at least. -/
structure ListRead (place : Node → Nat) (c : Cursor) (args : Args) (d : Cursor) : Prop where
  written : Written c d ([comma].intercalate (args.items place))
  nonempty : d.errors = c.errors → args.items place ≠ []
  nodes : ∀ n ∈ args.nodes, ReadBehind c n

/-- Arguments were read that come behind others, each with a comma before it. -/
structure FurtherRead (place : Node → Nat) (c : Cursor) (args : Args) (d : Cursor) : Prop where
  written : Written c d ((args.items place).flatMap (comma :: ·))
  nodes : ∀ n ∈ args.nodes, ReadFurther c n

theorem intercalate_cons {α : Type} (sep first : List α) (rest : List (List α)) :
    sep.intercalate (first :: rest) = first ++ rest.flatMap (sep ++ ·) := by
  induction rest generalizing first with
  | nil => simp
  | cons second rest ih => simp [List.intercalate_cons_cons, ih]

theorem items_empty (place : Node → Nat) : Args.empty.items place = [] := rfl

theorem FurtherRead.nothing (place : Node → Nat) (c : Cursor) :
    FurtherRead place c .empty c := by
  refine ⟨?_, nofun⟩
  rw [items_empty]
  exact .start c

/-- The arguments behind a comma. -/
theorem FurtherRead.comma {args : Args} (next : c.isAt .comma = true)
    (read : ListRead place c.bump args d) : FurtherRead place c args d where
  written := by
    refine ((Written.mark "," next rfl).append read.written).congr fun clean => ?_
    have nonempty := read.nonempty (c.bump_behind.errors_eq read.written.behind clean).2
    obtain ⟨x, xs, items⟩ := List.exists_cons_of_ne_nil nonempty
    rw [items, intercalate_cons, List.flatMap_cons]
    rfl
  nodes n member := ⟨c.bump, c.bump_behind, size_bump_lt_of_isAt next, read.nodes n member⟩

/-- One more argument or option before the others. -/
theorem ListRead.cons {args more : Args} {n : Node} (orders : Orders place c)
    (written : Written c d ls) (node : Between c d n) {d' : Cursor}
    (rest : FurtherRead place d args d')
    (items : (∀ m ∈ args.nodes, place n < place m) → more.items place = ls :: args.items place)
    (nodes : ∀ m ∈ more.nodes, m = n ∨ m ∈ args.nodes) : ListRead place c more d' := by
  have items := items fun m member =>
    orders.lt_of_further written.behind node (rest.nodes m member)
  constructor
  · rw [items, intercalate_cons]
    exact written.append rest.written
  · rw [items]
    exact fun _ => List.cons_ne_nil _ _
  · intro m member
    rcases nodes m member with rfl | member
    · exact ⟨c, d, .refl c, written.behind, node⟩
    · exact (rest.nodes m member).early written.behind

theorem ListRead.positional {args : Args} {e : Expr} {d' : Cursor} (orders : Orders place c)
    (first : IsRead place c e d) (rest : FurtherRead place d args d') :
    ListRead place c (args.consPositional e) d' :=
  .cons orders first.written first.node rest items_consPositional fun _ => List.mem_cons.mp

/-- An option was read. -/
structure OptionRead (place : Node → Nat) (c : Cursor) (o : StatementOption) (d : Cursor) :
    Prop where
  written : Written c d (.name o.key.text :: equals :: o.value.lexemes place)
  node : Between c d ⟨o.id, o.span⟩

theorem ListRead.option {args : Args} {o : StatementOption} {d' : Cursor}
    (orders : Orders place c) (first : OptionRead place c o d)
    (rest : FurtherRead place d args d') : ListRead place c (args.consOption o) d' := by
  refine .cons orders first.written first.node rest items_consOption fun m member => ?_
  rcases List.mem_append.mp member with member | member
  · exact .inr (List.mem_append_left _ member)
  · exact (List.mem_cons.mp member).imp_right (List.mem_append_right _)

theorem ListRead.failed (failed : Failed c d) : ListRead place c .empty d :=
  ⟨.failed failed _, fun clean => absurd clean failed.errors, nofun⟩

/-- Parentheses with nothing in them behind a constructor. -/
theorem Written.optional {items : List (List Lexeme)} (written : Written c d (inParens items)) :
    Written c d (inOptionalParens items) := by
  unfold inOptionalParens
  split
  · next none =>
    subst none
    refine ⟨written.behind, fun clean => ?_⟩
    obtain ⟨ts, rest, spelled⟩ := written.spelled clean
    exact ⟨ts, rest, spelled.optional⟩
  · exact written

end Parser
end BbjAnalysis
