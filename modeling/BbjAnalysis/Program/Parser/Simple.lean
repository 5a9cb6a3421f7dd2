import BbjAnalysis.Program.Parser.Expr
import BbjAnalysis.Program.Statement

/-! # Reading statements that open no block

Each function here is called behind the word that begins its statement, with the mark
that was set before the word.
-/

namespace BbjAnalysis.Parser

open Cursor

/-- A node that has its identity and its start, and not yet its end. -/
structure Mark where
  id : NodeId
  start : Nat

/-- The marked node, closed behind the last token read. -/
def Cursor.close (c : Cursor) (m : Mark) : Node := ⟨m.id, c.spanFrom m.start⟩

/-- Yields a statement that ends at the cursor. -/
def done (m : Mark) (c : Cursor) (make : Node → Statement) : Step c (Option Statement) :=
  .pure c (some (make (c.close m)))

/-- Words that begin a statement without a block. -/
inductive SimpleWord where
  | rem
  | letWord
  | declare
  | global
  | use
  | field
  | jump (verb : JumpVerb)
  | on
  | openWord
  | keyed (verb : KeyedVerb)
  | print
  | ret
  | terminate (verb : TerminateVerb)

/-- One identifier or more, separated by commas. -/
def identList (what : Expectation) (c : Cursor) : Step c (Option (List Ident)) :=
  (ident what c).ifSome fun name d _ =>
    if h : d.isAt .comma then
      have : d.bump.size < d.size := size_bump_lt_of_isAt h
      ((identList what d.bump).map (·.map (name :: ·))).widen d.bump_behind
    else .pure d (some [name])
termination_by c.size

/-- One type or more, separated by commas; one that goes wrong ends the list. -/
def typeList (c : Cursor) : Step c (List TypeRef) :=
  (typeRef c).andThen fun found d _ =>
    match found with
    | some type =>
        if h : d.isAt .comma then
          have : d.bump.size < d.size := size_bump_lt_of_isAt h
          ((typeList d.bump).map (type :: ·)).widen d.bump_behind
        else .pure d [type]
    | none => .pure d []
termination_by c.size

def modifier (c : Cursor) : Step c (Option Modifier) :=
  if c.atKeyword "public" then ⟨some .isPublic, c.bump, c.bump_behind⟩
  else if c.atKeyword "protected" then ⟨some .isProtected, c.bump, c.bump_behind⟩
  else if c.atKeyword "private" then ⟨some .isPrivate, c.bump, c.bump_behind⟩
  else .pure c none

/-- An assignment, at its target. -/
def assignment (m : Mark) (explicitLet : Bool) (c : Cursor) : Step c (Option Statement) :=
  (eat .hash c).andThen fun isField d _ =>
    (ident (if isField then .fieldName else .variableName) d).ifSome fun name e _ =>
      (expect .eq .equals e).ifTrue fun f _ =>
        (expr f).andThen fun value g _ =>
          done m g (.assign · explicitLet (if isField then .field name else .var name) value)

def declare (m : Mark) (c : Cursor) : Step c (Option Statement) :=
  (eatKeyword "auto" c).andThen fun auto d _ =>
    (typeRef d).ifSome fun type e _ =>
      (ident .variableName e).ifSome fun name f _ => done m f (.declare · auto type name)

def global (m : Mark) (c : Cursor) : Step c (Option Statement) :=
  (identList .globalName c).ifSome fun names d _ => done m d (.globals · names)

/-- The texts of the tokens up to the next `::` or the end of the statement, joined. -/
def filePath (c : Cursor) : Step c String :=
  let stops (t : Token) : Bool := c.endsStatement t || t.kind == .colonColon
  ⟨String.join ((c.rest.takeWhile (!stops ·)).map (·.text)), c.skipUntil stops,
    c.skipUntil_behind stops⟩

def useStatement (m : Mark) (c : Cursor) : Step c (Option Statement) :=
  (eat .colonColon c).andThen fun isPath d _ =>
    if isPath then
      (filePath d).andThen fun path e _ =>
        (expect .colonColon .colonsAfterPath e).ifTrue fun f _ =>
          (ident .className f).ifSome fun name g _ =>
            done m g (.useClass · (if path.isEmpty then none else some path) name)
    else (typeRef d).ifSome fun type e _ => done m e (.useJava · type)

def fieldDecl (m : Mark) (c : Cursor) : Step c (Option Statement) :=
  (modifier c).andThen fun modifier d _ =>
    (eatKeyword "static" d).andThen fun isStatic e _ =>
      (typeRef e).ifSome fun type f _ =>
        (eat .hash f).andThen fun _ g _ =>
          (ident .fieldName g).ifSome fun name h _ =>
            (eat .eq h).andThen fun hasInit i _ =>
              if hasInit then
                (expr i).andThen fun init j _ =>
                  done m j (.fieldDecl · ⟨modifier, isStatic, type, name, some init⟩)
              else done m i (.fieldDecl · ⟨modifier, isStatic, type, name, none⟩)

/-- Whether a number in place of the label switches a handler off. -/
def JumpVerb.takesNumber : JumpVerb → Bool
  | .setErr | .setEsc => true
  | .goto | .gosub => false

def jump (m : Mark) (verb : JumpVerb) (c : Cursor) : Step c (Option Statement) :=
  if JumpVerb.takesNumber verb && c.isAt .number then
    (done m c.bump (.jump · verb none [])).widen c.bump_behind
  else (ident .labelName c).ifSome fun target d _ => done m d (.jump · verb none [target])

/-- `on n goto a,b,c`. -/
def onJump (m : Mark) (c : Cursor) : Step c (Option Statement) :=
  (expr c).andThen fun selector d _ =>
    let verb? : Option JumpVerb :=
      if d.atKeyword "goto" then some .goto
      else if d.atKeyword "gosub" then some .gosub else none
    match verb? with
    | some verb =>
        ((identList .labelName d.bump).ifSome fun targets e _ =>
          done m e (.jump · verb (some selector) targets)).widen d.bump_behind
    | none => fail d (.expected .gotoOrGosub)

/-- The options that follow, each behind a comma. -/
def openOptions (c : Cursor) : Step c (Option (List StatementOption)) :=
  if h : c.isAt .comma then
    have : c.bump.size < c.size := size_bump_lt_of_isAt h
    ((keyedValue c.bump).ifSome fun option d _ =>
      (openOptions d).map (·.map (option :: ·))).widen c.bump_behind
  else .pure c (some [])
termination_by c.size

/-- The span around all options, or the empty one at `offset` if there are none. -/
def optionsSpan (offset : Nat) : List StatementOption → Span
  | [] => .empty offset
  | option :: rest => rest.foldl (fun s o => s.cover o.span) option.span

def openStatement (m : Mark) (c : Cursor) : Step c (Option Statement) :=
  (expect .lparen .openParenAfterOpen c).ifTrue fun d _ =>
    (expr d).andThen fun channel e _ =>
      (openOptions e).ifSome fun options f _ =>
        (expect .rparen .closeParen f).ifTrue fun g _ =>
          let span := optionsSpan e.lastStop options
          if g.atStatementEnd then done m g (.openFile · ⟨channel, options, span, none⟩)
          else (expr g).andThen fun path h _ =>
            done m h (.openFile · ⟨channel, options, span, some path⟩)

/-- Arguments and options of a keyed file, one or more, separated by commas. -/
def keyedItems (c : Cursor) : Step c (Option Args) :=
  Step.ifSome (
    if atOption c then (keyedValue c).map (·.map fun o => Args.empty.consOption o)
    else (expr c).map fun e => some (Args.empty.consPositional e)) fun item d _ =>
    if h : d.isAt .comma then
      have : d.bump.size < d.size := size_bump_lt_of_isAt h
      ((keyedItems d.bump).map (·.map fun rest =>
        ⟨item.positional ++ rest.positional, item.options ++ rest.options⟩)).widen
          d.bump_behind
    else .pure d (some item)
termination_by c.size

def keyedStatement (m : Mark) (verb : KeyedVerb) (c : Cursor) : Step c (Option Statement) :=
  (keyedItems c).ifSome fun items d _ =>
    done m d (.keyedFile · ⟨verb, items.positional, items.options⟩)

/-- The items of a `print` up to the end of the statement; commas between them may be left
out. A token that begins no item is reported and passed over. -/
def printItems (c : Cursor) : Step c (List Expr) :=
  if h : c.atStatementEnd then .pure c []
  else
    (expr c).andThen fun item d _ =>
      (eat .comma d).andThen fun _ e _ =>
        if l : e.size < c.size then (printItems e).map (item :: ·)
        else
          have : (e.report .unexpectedInPrint).bump.size < e.size :=
            size_bump_lt (c := e.report .unexpectedInPrint)
              (rest_ne_nil_of_size (rest_ne_nil_of_not_atStatementEnd h) l)
          ((printItems (e.report .unexpectedInPrint).bump).map (item :: ·)).widen
            ((e.report _).bump_behind.trans (e.report_behind _))
termination_by c.size

def printStatement (m : Mark) (c : Cursor) : Step c (Option Statement) :=
  (printItems c).andThen fun items d _ => done m d (.print · items)

def returnStatement (m : Mark) (c : Cursor) : Step c (Option Statement) :=
  if c.atStatementEnd then done m c (.ret · none)
  else (expr c).andThen fun value d _ => done m d (.ret · (some value))

/-- The statement behind one of the words that open no block. -/
def simpleStatement (m : Mark) (c : Cursor) : SimpleWord → Step c (Option Statement)
  | .rem => (done m c.skipToLineEnd .rem).widen (c.skipUntil_behind _)
  | .letWord => assignment m true c
  | .declare => declare m c
  | .global => global m c
  | .use => useStatement m c
  | .field => fieldDecl m c
  | .jump verb => jump m verb c
  | .on => onJump m c
  | .openWord => openStatement m c
  | .keyed verb => keyedStatement m verb c
  | .print => printStatement m c
  | .ret => returnStatement m c
  | .terminate verb => done m c (.terminate · verb)

/-- A statement without a word of its own: an assignment or an expression. -/
def bareStatement (m : Mark) (c : Cursor) : Step c (Option Statement) :=
  if c.atPair .ident .eq || (c.atPair .hash .ident && c.kindAt 2 = some .eq) then
    assignment m false c
  else (expr c).andThen fun value d _ => done m d (.expr · value)

end BbjAnalysis.Parser
