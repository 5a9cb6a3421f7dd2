import BbjAnalysis.Program.Parser.Simple
import BbjAnalysis.Token.Lexer

/-! # Reading programs

A statement ends at the end of its line or at a semicolon, and a block at the word
that closes it. Where a statement goes wrong, the rest of it is passed over, and
reading goes on with the next one. Blocks and statements read each other with fewer
tokens left, or a part of the block at hand.
-/

namespace BbjAnalysis.Parser

open Cursor

/-- Words that begin a statement with a block. -/
inductive BlockWord where
  | classWord (isInterface : Bool)
  | method
  | procedure
  | ifWord
  | forWord
  | whileWord

/-- What a word at the beginning of a statement announces, by its small letters. -/
def announced (word : String) : Option (SimpleWord ⊕ BlockWord) :=
  match word with
  | "rem" => some (.inl .rem)
  | "let" => some (.inl .letWord)
  | "declare" => some (.inl .declare)
  | "global" => some (.inl .global)
  | "use" => some (.inl .use)
  | "field" => some (.inl .field)
  | "goto" => some (.inl (.jump .goto))
  | "gosub" => some (.inl (.jump .gosub))
  | "seterr" => some (.inl (.jump .setErr))
  | "setesc" => some (.inl (.jump .setEsc))
  | "on" => some (.inl .on)
  | "open" => some (.inl .openWord)
  | "mkeyed" => some (.inl (.keyed .mkeyed))
  | "vkeyed" => some (.inl (.keyed .vkeyed))
  | "xkeyed" => some (.inl (.keyed .xkeyed))
  | "print" => some (.inl .print)
  | "return" | "methodret" => some (.inl .ret)
  | "bye" => some (.inl (.terminate .bye))
  | "end" => some (.inl (.terminate .finish))
  | "stop" => some (.inl (.terminate .stop))
  | "release" => some (.inl (.terminate .release))
  | "class" => some (.inr (.classWord false))
  | "interface" => some (.inr (.classWord true))
  | "method" => some (.inr .method)
  | "def" => some (.inr .procedure)
  | "if" => some (.inr .ifWord)
  | "for" => some (.inr .forWord)
  | "while" => some (.inr .whileWord)
  | _ => none

/-- What a token at the beginning of a statement announces. -/
def announcedBy (t : Token) : Option (SimpleWord ⊕ BlockWord) :=
  if t.kind = .ident then announced t.text.toLower else none

/-- Words that only close a block; one met outside of its block is an error. -/
def blockClosers : List String :=
  ["classend", "interfaceend", "methodend", "fnend", "wend", "next", "fi", "endif", "else"]

/-- The statements of a block, and the closing word that was found behind them. -/
structure Block where
  statements : List Statement
  closer : Option String

/-- Reads the closing word that a block has found, or reports that `expected` is missing. -/
def closeBlock (found : Option String) (expected : String) (c : Cursor) : Step c Unit :=
  if found.isSome then ⟨(), c.bump, c.bump_behind⟩
  else ⟨(), c.report (.missingCloser expected), c.report_behind _⟩

/-- A label with its colon, if one is next. -/
def label (c : Cursor) : Step c (Option Statement) :=
  match c.rest with
  | t :: _ =>
      if c.atPair .ident .colon then
        let name : Ident := ⟨c.nextId + 1, t.text, t.span⟩
        let d := c.skipId.skipId.bump.bump
        ⟨some (.label ⟨c.nextId, d.spanFrom c.offset⟩ name), d,
          c.skipId.skipId.bump.bump_behind.trans (c.skipId.skipId.bump_behind.trans
            (c.skipId.skipId_behind.trans c.skipId_behind))⟩
      else .pure c none
  | [] => .pure c none

/-- Passes over what is left of a statement, and reports it. -/
def endStatement (c : Cursor) : Step c Unit :=
  if c.atStatementEnd then .pure c ()
  else
    let d := c.report (.expected .endOfStatement)
    ⟨(), d.skipToStatementEnd, (d.skipUntil_behind _).trans (c.report_behind _)⟩

/-- Passes over a token where nothing was read since `before` and the statement has not ended. -/
def forceProgress (before c : Cursor) : Step c Unit :=
  if c.pos = before.pos && !c.atEnd && !c.atStatementEnd then ⟨(), c.bump, c.bump_behind⟩
  else .pure c ()

/-- Parameters, one or more, separated by commas. -/
def paramList (typed : Bool) (c : Cursor) : Step c (Option (List Param)) :=
  let type : Step c.skipId (Option (Option TypeRef)) :=
    if typed then (typeRef c.skipId).map (·.map some) else .pure c.skipId (some none)
  (type.ifSome fun type d (_ : d.size ≤ c.size) =>
    (ident .parameterName d).ifSome fun name e _ =>
      let param : Param := ⟨c.nextId, type, name⟩
      if h : e.isAt .comma then
        have : e.bump.size < e.size := size_bump_lt_of_isAt h
        ((paramList typed e.bump).map (·.map (param :: ·))).widen e.bump_behind
      else .pure e (some [param])).widen c.skipId_behind
termination_by c.size

/-- Parameters in parentheses. -/
def params (typed : Bool) (c : Cursor) : Step c (Option (List Param)) :=
  (expect .lparen .openParen c).ifTrue fun d _ =>
    if d.isAt .rparen then ⟨some [], d.bump, d.bump_behind⟩
    else
      (paramList typed d).ifSome fun list e _ =>
        (expect .rparen .closeParen e).map fun _ => some list

/-- The clauses of a class with what it extends and what it implements, in any order. -/
def heritage (c : Cursor) : Step c (List TypeRef × List TypeRef) :=
  if h : c.atKeyword "extends" then
    have : c.bump.size < c.size := size_bump_lt (rest_ne_nil_of_atKeyword h)
    ((typeList c.bump).andThen fun types d _ =>
      (heritage d).map fun more => (types ++ more.1, more.2)).widen c.bump_behind
  else if h : c.atKeyword "implements" then
    have : c.bump.size < c.size := size_bump_lt (rest_ne_nil_of_atKeyword h)
    ((typeList c.bump).andThen fun types d _ =>
      (heritage d).map fun more => (more.1, types ++ more.2)).widen c.bump_behind
  else .pure c ([], [])
termination_by c.size

/-- Reports what follows the header of a class on its line. -/
def endClassHeader (c : Cursor) : Step c Unit :=
  if c.atStatementEnd then .pure c ()
  else
    let d := c.report (.expected .endOfClassHeader)
    ⟨(), d.skipToStatementEnd, (d.skipUntil_behind _).trans (c.report_behind _)⟩

/-- The header of a class behind its first word. -/
def classHead (isInterface : Bool) (c : Cursor) : Step c (Option ClassHead) :=
  (modifier c).andThen fun modifier d _ =>
    (ident .className d).ifSome fun name e _ =>
      (heritage e).andThen fun types f _ =>
        (endClassHeader f).map fun _ =>
          some ⟨isInterface, modifier, name, types.1, types.2⟩

/-- The header of a method behind its first word. A parenthesis right behind the next token
makes it a constructor. -/
def methodHead (c : Cursor) : Step c (Option MethodHead) :=
  (modifier c).andThen fun modifier d _ =>
    (eatKeyword "static" d).andThen fun isStatic e _ =>
      let type : Step e (Option (Option TypeRef)) :=
        if e.kindAt 1 = some .lparen then .pure e (some none)
        else (typeRef e).map (·.map some)
      type.ifSome fun returnType f _ =>
        (ident .methodName f).ifSome fun name g _ =>
          (params true g).map (·.map fun params =>
            ⟨modifier, isStatic, returnType, name, params⟩)

/-- The header of a function behind its first word. -/
def procedureHead (c : Cursor) : Step c (Option ProcedureHead) :=
  (eatKeyword "public" c).andThen fun isPublic d _ =>
    (ident .functionName d).ifSome fun name e _ =>
      if e.isAt .lparen then (params false e).map (·.map fun params => ⟨isPublic, name, params⟩)
      else .pure e (some ⟨isPublic, name, []⟩)

/-- The header of a `for` behind its first word. -/
def forHead (c : Cursor) : Step c (Option ForHead) :=
  (ident .loopVariable c).ifSome fun name d _ =>
    (expect .eq .equals d).ifTrue fun e _ =>
      (expr e).andThen fun first f _ =>
        if f.atKeyword "to" then
          ((expr f.bump).andThen fun last g _ =>
            (eatKeyword "step" g).andThen fun hasStep h _ =>
              if hasStep then (expr h).map fun step => some ⟨name, first, last, some step⟩
              else .pure h (some ⟨name, first, last, none⟩)).widen f.bump_behind
        else fail f (.expected .toWord)

/-- The variable behind the closing word of a `for`, if there is one. -/
def nextVariable (c : Cursor) : Step c (Option Ident) :=
  if c.isAt .ident then ident .loopVariable c else .pure c none

mutual

/-- The statement at the cursor. What is no statement yields none: a word that closes a block
is reported and passed over. -/
def statement (c : Cursor) : Step c (Option Statement) :=
  match h : c.rest with
  | [] => .pure c none
  | t :: _ =>
      have : c.skipId.bump.size < c.size := size_bump_lt (c := c.skipId) (by simp [skipId, h])
      if c.atStatementEnd then .pure c none
      else if blockClosers.any t.isKeyword then
        ⟨none, (c.report (.strayCloser t.text)).bump,
          (c.report _).bump_behind.trans (c.report_behind _)⟩
      else
        let m : Mark := ⟨c.nextId, c.offset⟩
        match announcedBy t with
        | some (.inl word) => (simpleStatement m c.skipId.bump word).widen
            (c.skipId.bump_behind.trans c.skipId_behind)
        | some (.inr word) => (blockStatement m c.skipId.bump word).widen
            (c.skipId.bump_behind.trans c.skipId_behind)
        | none => (bareStatement m c.skipId).widen c.skipId_behind
termination_by c.size * 8

/-- The statement with its label up to where it ends: none, one or two statements. -/
def labelledStatement (c : Cursor) : Step c (List Statement) :=
  (label c).andThen fun found d _ =>
    if found.isSome && d.atStatementEnd then .pure d found.toList
    else
      (statement d).andThen fun more e _ =>
        (endStatement e).andThen fun _ f _ =>
          (forceProgress d f).map fun _ => found.toList ++ more.toList
termination_by c.size * 8 + 1

/-- Statements up to a closing word that begins one, or to the end of the text. The closing
word is not read. -/
def statements (closers : List String) (c : Cursor) : Step c Block :=
  Step.widen (c := c.skipSeparators) (
    match h : c.skipSeparators.rest with
    | [] => .pure c.skipSeparators ⟨[], none⟩
    | t :: _ =>
        have : c.skipSeparators.size ≤ c.size := c.size_skipUntil_le _
        match closers.find? t.isKeyword with
        | some word => .pure c.skipSeparators ⟨[], some word⟩
        | none =>
            (labelledStatement c.skipSeparators).andThen fun found d _ =>
              if l : d.size < c.skipSeparators.size then
                (statements closers d).map fun more =>
                  { more with statements := found ++ more.statements }
              else
                have : (d.report .unexpectedToken).bump.size < d.size :=
                  size_bump_lt (c := d.report .unexpectedToken)
                    (rest_ne_nil_of_size (by simp [h]) l)
                ((statements closers (d.report .unexpectedToken).bump).map fun more =>
                  { more with statements := found ++ more.statements }).widen
                    ((d.report _).bump_behind.trans (d.report_behind _)))
    (c.skipUntil_behind _)
termination_by c.size * 8 + 2

/-- The statements of a block. Around it a one-line `if` may be open, and `else` ends no
statement inside. -/
def block (closers : List String) (c : Cursor) : Step c Block :=
  let r := statements closers (c.withInlineDepth 0)
  ⟨r.value, r.next.withInlineDepth c.inlineDepth, r.behind.ofInlineDepth rfl⟩
termination_by c.size * 8 + 3

/-- The statements of one branch of a one-line `if`, separated by semicolons. -/
def inlineStatements (c : Cursor) : Step c (List Statement) :=
  (labelledStatement c).andThen fun found d _ =>
    if h : d.isAt .semicolon then
      have : d.bump.size < d.size := size_bump_lt_of_isAt h
      if d.bump.atEnd || d.bump.isAt .newline then ⟨found, d.bump, d.bump_behind⟩
      else ((inlineStatements d.bump).map (found ++ ·)).widen d.bump_behind
    else .pure d found
termination_by c.size * 8 + 2

/-- An `if` behind its condition and `then`, in the form that runs over several lines. -/
def blockIf (m : Mark) (condition : Expr) (c : Cursor) : Step c (Option Statement) :=
  (block ["else", "fi", "endif"] c).andThen fun first d _ =>
    have : d.bump.size ≤ d.size := d.size_bump_le
    if first.closer = some "else" then
      ((block ["fi", "endif"] d.bump).andThen fun second e _ =>
        (closeBlock second.closer "fi" e).andThen fun _ f _ =>
          done m f (.branch · condition first.statements second.statements)).widen d.bump_behind
    else
      (closeBlock first.closer "fi" d).andThen fun _ e _ =>
        done m e (.branch · condition first.statements [])
termination_by c.size * 8 + 4

/-- An `if` behind its condition and `then`, in the form on one line. -/
def inlineIf (m : Mark) (condition : Expr) (c : Cursor) : Step c (Option Statement) :=
  have : (c.withInlineDepth (c.inlineDepth + 1)).size = c.size := size_withInlineDepth ..
  let r := (inlineStatements (c.withInlineDepth (c.inlineDepth + 1))).andThen fun thenBranch d _ =>
    (eatKeyword "else" d).andThen fun hasElse e _ =>
      if hasElse then (inlineStatements e).map fun elseBranch => (thenBranch, elseBranch)
      else .pure e (thenBranch, [])
  let last := r.next.withInlineDepth (r.next.inlineDepth - 1)
  ⟨some (.branch (last.close m) condition r.value.1 r.value.2), last,
    r.behind.ofInlineDepth (congrArg (· - 1) r.behind.inlineDepth)⟩
termination_by c.size * 8 + 4

/-- The statement behind one of the words that open a block. -/
def blockStatement (m : Mark) (c : Cursor) (word : BlockWord) : Step c (Option Statement) :=
  match word with
  | .classWord isInterface =>
      let closer := if isInterface then "interfaceend" else "classend"
      (classHead isInterface c).ifSome fun head d _ =>
        (block [closer] d).andThen fun body e _ =>
          (closeBlock body.closer closer e).andThen fun _ f _ =>
            done m f (.classDecl · head body.statements)
  | .method =>
      (methodHead c).ifSome fun head d _ =>
        (block ["methodend"] d).andThen fun body e _ =>
          (closeBlock body.closer "methodend" e).andThen fun _ f _ =>
            done m f (.method · head body.statements)
  | .procedure =>
      (procedureHead c).ifSome fun head d _ =>
        (eat .eq d).andThen fun isInline e _ =>
          if isInline then
            (expr e).andThen fun body f _ => done m f (.inlineProcedure · head body)
          else
            (block ["fnend"] e).andThen fun body f _ =>
              (closeBlock body.closer "fnend" f).andThen fun _ g _ =>
                done m g (.procedure · head body.statements)
  | .ifWord =>
      (expr c).andThen fun condition d _ =>
        if d.atKeyword "then" then
          have : d.bump.size ≤ d.size := d.size_bump_le
          Step.widen (
            if d.bump.atEnd || d.bump.isAt .newline then blockIf m condition d.bump
            else inlineIf m condition d.bump) d.bump_behind
        else fail d (.expected .thenWord)
  | .forWord =>
      (forHead c).ifSome fun head d _ =>
        (block ["next"] d).andThen fun body e _ =>
          (closeBlock body.closer "next" e).andThen fun _ f _ =>
            (nextVariable f).andThen fun next g _ =>
              done m g (.forLoop · head body.statements next)
  | .whileWord =>
      (expr c).andThen fun condition d _ =>
        (block ["wend"] d).andThen fun body e _ =>
          (closeBlock body.closer "wend" e).andThen fun _ f _ =>
            done m f (.whileLoop · condition body.statements)
termination_by c.size * 8 + 5

end

/-- The cursor before all of the tokens of a text that ends at `stop`. Identities begin behind that
of the program. -/
def Cursor.before (tokens : List Token) (stop : Nat) : Cursor :=
  ⟨tokens, 0, 0, stop, Program.rootId + 1, 0, []⟩

/-- The cursor before a text, from which blanks are left out. -/
def start (tokens : List Token) (stop : Nat) : Cursor :=
  .before (tokens.filter (·.kind != .whitespace)) stop

end Parser

/-- A program and what is wrong with its text, in the order it was found. -/
structure Parse where
  program : Program
  errors : List SyntaxError

/-- Reads a whole text. -/
def parse (text : String) : Parse :=
  let r := Parser.block [] (Parser.start (tokenize text) text.utf8ByteSize)
  ⟨⟨r.value.statements, ⟨0, text.utf8ByteSize⟩⟩, r.next.errors.reverse⟩

/-- Whether the text is a program without faults. -/
def Parse.isClean (p : Parse) : Bool := p.errors.isEmpty

end BbjAnalysis
