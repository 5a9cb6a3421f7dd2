import BbjAnalysis.Program.Expr
import BbjAnalysis.Program.Fault
import BbjAnalysis.Token.Basic

/-! # Reading tokens

A cursor holds the tokens not yet read, blanks left out, with the little that the
reading of statements remembers. A `Step` is what one act of reading yields: a value
and the cursor behind it (`Behind`), which has only tokens left that were left before,
and forgets nothing that was found wrong. That there are no more tokens left than before
is what every reading comes to an end by.
-/

namespace BbjAnalysis.Parser

structure Cursor where
  /-- The tokens not yet read. -/
  rest : List Token
  /-- How many tokens were read. -/
  pos : Nat
  /-- Where the last token read ends, `0` before the first. -/
  lastStop : Nat
  /-- Where the text ends. -/
  stop : Nat
  /-- The identity of the next node. -/
  nextId : NodeId
  /-- How many one-line `if` statements are open around the cursor; within one, `else` ends
  a statement. -/
  inlineDepth : Nat
  /-- What was found wrong so far, the latest first. -/
  errors : List SyntaxError

namespace Cursor

/-- How many tokens are left. -/
def size (c : Cursor) : Nat := c.rest.length

def atEnd (c : Cursor) : Bool := c.rest.isEmpty

/-- The kind of the token behind the next `n`. -/
def kindAt (c : Cursor) (n : Nat) : Option TokenKind := c.rest[n]?.map (·.kind)

/-- Whether the next token has the given kind. -/
def isAt (c : Cursor) (kind : TokenKind) : Bool := c.kindAt 0 == some kind

/-- Whether the next two tokens have the given kinds. -/
def atPair (c : Cursor) (first second : TokenKind) : Bool :=
  c.isAt first && c.kindAt 1 == some second

/-- Whether the next token is the given word in any case. -/
def atKeyword (c : Cursor) (word : String) : Bool :=
  match c.rest with
  | t :: _ => t.isKeyword word
  | [] => false

/-- Whether a token ends the statement before it. -/
def endsStatement (c : Cursor) (t : Token) : Bool :=
  t.kind.isStatementEnd || (0 < c.inlineDepth && t.isKeyword "else")

/-- Whether nothing more of the current statement can follow. -/
def atStatementEnd (c : Cursor) : Bool :=
  match c.rest with
  | t :: _ => c.endsStatement t
  | [] => true

/-- Where the next token starts, or the end of the text. -/
def offset (c : Cursor) : Nat :=
  match c.rest with
  | t :: _ => t.start
  | [] => c.stop

/-- The span of the next token, empty at the end of the text. -/
def here (c : Cursor) : Span :=
  match c.rest with
  | t :: _ => t.span
  | [] => .empty c.stop

/-- The span from `start` up to the end of the last token read, empty if nothing was read
since `start`. -/
def spanFrom (c : Cursor) (start : Nat) : Span := ⟨start, max c.lastStop start⟩

/-- The cursor behind the next token. Behind the last one it would leave the text. -/
def bump (c : Cursor) : Cursor :=
  match c.rest with
  | t :: rest => { c with rest, pos := c.pos + 1, lastStop := t.stop }
  | [] => { c with pos := c.pos + 1 }

/-- The cursor before the next token that passes the test, or at the end. -/
def skipUntil (c : Cursor) (p : Token → Bool) : Cursor :=
  { c with
    rest := c.rest.dropWhile (!p ·)
    pos := c.pos + (c.rest.takeWhile (!p ·)).length
    lastStop := ((c.rest.takeWhile (!p ·)).getLast?.map Token.stop).getD c.lastStop }

def skipToStatementEnd (c : Cursor) : Cursor := c.skipUntil c.endsStatement

def skipToLineEnd (c : Cursor) : Cursor := c.skipUntil (·.kind == .newline)

/-- Passes over line ends and semicolons. -/
def skipSeparators (c : Cursor) : Cursor := c.skipUntil (!·.kind.isStatementEnd)

/-- Notes a fault at the next token. -/
def report (c : Cursor) (fault : Fault) : Cursor :=
  { c with errors := ⟨fault, c.here⟩ :: c.errors }

/-- Gives the next identity away. -/
def skipId (c : Cursor) : Cursor := { c with nextId := c.nextId + 1 }

/-- The node with the next identity from `start` up to the last token read. -/
def nodeFrom (c : Cursor) (start : Nat) : Node := ⟨c.nextId, c.spanFrom start⟩

/-- The cursor inside of `n` one-line `if` statements. -/
def withInlineDepth (c : Cursor) (n : Nat) : Cursor := { c with inlineDepth := n }

theorem size_bump_le (c : Cursor) : c.bump.size ≤ c.size := by
  unfold bump size
  split <;> simp_all

theorem size_bump_lt {c : Cursor} (h : c.rest ≠ []) : c.bump.size < c.size := by
  unfold bump size
  split <;> simp_all

theorem rest_ne_nil_of_isAt {c : Cursor} {kind : TokenKind} (h : c.isAt kind = true) :
    c.rest ≠ [] := by
  intro e
  simp [isAt, kindAt, e] at h

theorem size_bump_lt_of_isAt {c : Cursor} {kind : TokenKind} (h : c.isAt kind = true) :
    c.bump.size < c.size :=
  size_bump_lt (rest_ne_nil_of_isAt h)

theorem rest_ne_nil_of_atKeyword {c : Cursor} {word : String} (h : c.atKeyword word = true) :
    c.rest ≠ [] := by
  intro e
  simp [atKeyword, e] at h

theorem rest_ne_nil_of_not_atStatementEnd {c : Cursor} (h : c.atStatementEnd ≠ true) :
    c.rest ≠ [] := by
  intro e
  simp [atStatementEnd, e] at h

theorem rest_ne_nil_of_size {c d : Cursor} (h : d.rest ≠ []) (l : ¬ c.size < d.size) :
    c.rest ≠ [] := by
  intro e
  have : 0 < d.rest.length := List.length_pos_iff.2 h
  exact l (by simpa [size, e] using this)

theorem size_skipUntil_le (c : Cursor) (p : Token → Bool) : (c.skipUntil p).size ≤ c.size := by
  simpa [skipUntil, size] using (List.dropWhile_sublist (!p ·)).length_le

@[simp] theorem size_report (c : Cursor) (fault : Fault) : (c.report fault).size = c.size := rfl

@[simp] theorem size_withInlineDepth (c : Cursor) (n : Nat) :
    (c.withInlineDepth n).size = c.size := rfl

@[simp] theorem size_skipId (c : Cursor) : c.skipId.size = c.size := rfl

/-- What every cursor that is reached by reading from `c` has in common with `c`. -/
structure Behind (next c : Cursor) : Prop where
  /-- The tokens in between were read; the last of them says where reading is. -/
  read : ∃ ts, ts ++ next.rest = c.rest ∧
    next.lastStop = (ts.getLast?.map Token.stop).getD c.lastStop
  pos : c.pos ≤ next.pos
  errors : c.errors <:+ next.errors
  nextId : c.nextId ≤ next.nextId
  inlineDepth : next.inlineDepth = c.inlineDepth
  stop : next.stop = c.stop

namespace Behind

/-- A cursor with the same tokens left, and no fewer identities and errors. -/
theorem ofSameRest {next c : Cursor} (rest : next.rest = c.rest) (pos : next.pos = c.pos)
    (lastStop : next.lastStop = c.lastStop) (errors : c.errors <:+ next.errors)
    (nextId : c.nextId ≤ next.nextId) (inlineDepth : next.inlineDepth = c.inlineDepth)
    (stop : next.stop = c.stop) : next.Behind c :=
  ⟨⟨[], rest, lastStop⟩, Nat.le_of_eq pos.symm, errors, nextId, inlineDepth, stop⟩

theorem refl (c : Cursor) : c.Behind c :=
  ofSameRest rfl rfl rfl List.suffix_rfl (Nat.le_refl _) rfl rfl

theorem trans {a b c : Cursor} (h : a.Behind b) (h' : b.Behind c) : a.Behind c where
  read := by
    obtain ⟨ts, rest, lastStop⟩ := h.read
    obtain ⟨us, rest', lastStop'⟩ := h'.read
    refine ⟨us ++ ts, by rw [List.append_assoc, rest, rest'], ?_⟩
    rw [lastStop, lastStop', List.getLast?_append]
    cases ts.getLast? <;> rfl
  pos := Nat.le_trans h'.pos h.pos
  errors := h'.errors.trans h.errors
  nextId := Nat.le_trans h'.nextId h.nextId
  inlineDepth := h.inlineDepth.trans h'.inlineDepth
  stop := h.stop.trans h'.stop

theorem rest {next c : Cursor} (h : next.Behind c) : next.rest <:+ c.rest :=
  h.read.imp fun _ both => both.1

theorem size_le {a b : Cursor} (h : a.Behind b) : a.size ≤ b.size := h.rest.length_le

/-- Reading inside of `n` one-line `if` statements, seen from outside. -/
theorem ofInlineDepth {next c : Cursor} {n m : Nat} (h : next.Behind (c.withInlineDepth n))
    (outside : m = c.inlineDepth) : (next.withInlineDepth m).Behind c :=
  ⟨h.read, h.pos, h.errors, h.nextId, outside, h.stop⟩

end Behind

theorem bump_behind (c : Cursor) : c.bump.Behind c := by
  unfold bump
  split
  · next t _ h =>
    exact ⟨⟨[t], h.symm, rfl⟩, Nat.le_succ _, List.suffix_rfl, Nat.le_refl _, rfl, rfl⟩
  · exact ⟨⟨[], rfl, rfl⟩, Nat.le_succ _, List.suffix_rfl, Nat.le_refl _, rfl, rfl⟩

theorem skipId_behind (c : Cursor) : c.skipId.Behind c :=
  .ofSameRest rfl rfl rfl List.suffix_rfl (Nat.le_succ _) rfl rfl

theorem report_behind (c : Cursor) (fault : Fault) : (c.report fault).Behind c :=
  .ofSameRest rfl rfl rfl (List.suffix_cons ..) (Nat.le_refl _) rfl rfl

theorem skipUntil_behind (c : Cursor) (p : Token → Bool) : (c.skipUntil p).Behind c :=
  ⟨⟨_, List.takeWhile_append_dropWhile, rfl⟩, Nat.le_add_right .., List.suffix_rfl,
    Nat.le_refl _, rfl, rfl⟩

end Cursor

/-- A value read at `c`, and the cursor behind it. -/
structure Step (c : Cursor) (α : Type) where
  value : α
  next : Cursor
  behind : next.Behind c

namespace Step

variable {c : Cursor} {α β : Type}

theorem size_le (r : Step c α) : r.next.size ≤ c.size := r.behind.size_le

/-- Reads nothing. -/
def pure (c : Cursor) (a : α) : Step c α := ⟨a, c, .refl c⟩

def map (f : α → β) (r : Step c α) : Step c β := ⟨f r.value, r.next, r.behind⟩

/-- The same step seen from an earlier cursor. -/
def widen {d : Cursor} (r : Step c α) (h : c.Behind d) : Step d α :=
  ⟨r.value, r.next, r.behind.trans h⟩

/-- Goes on behind a step. -/
def andThen (r : Step c α) (f : (a : α) → (d : Cursor) → d.size ≤ c.size → Step d β) :
    Step c β :=
  (f r.value r.next r.size_le).widen r.behind

/-- Goes on behind a step if it yields something. -/
def ifSome (r : Step c (Option α))
    (f : (a : α) → (d : Cursor) → d.size ≤ c.size → Step d (Option β)) : Step c (Option β) :=
  match r.value with
  | some a => (f a r.next r.size_le).widen r.behind
  | none => ⟨none, r.next, r.behind⟩

/-- Goes on behind a step if it succeeds. -/
def ifTrue (r : Step c Bool) (f : (d : Cursor) → d.size ≤ c.size → Step d (Option β)) :
    Step c (Option β) :=
  if r.value then (f r.next r.size_le).widen r.behind else ⟨none, r.next, r.behind⟩

end Step

open Cursor

/-- Yields nothing and reports why. -/
def fail {α : Type} (c : Cursor) (fault : Fault) : Step c (Option α) :=
  ⟨none, c.report fault, c.report_behind fault⟩

/-- Reads the next token if it has the given kind. -/
def eat (kind : TokenKind) (c : Cursor) : Step c Bool :=
  if c.isAt kind then ⟨true, c.bump, c.bump_behind⟩ else .pure c false

/-- Reads the next token if it is the given word. -/
def eatKeyword (word : String) (c : Cursor) : Step c Bool :=
  if c.atKeyword word then ⟨true, c.bump, c.bump_behind⟩ else .pure c false

/-- Reads a token of the given kind, or reports what is missing. -/
def expect (kind : TokenKind) (what : Expectation) (c : Cursor) : Step c Bool :=
  if c.isAt kind then ⟨true, c.bump, c.bump_behind⟩
  else ⟨false, c.report (.expected what), c.report_behind _⟩

/-- Reads an identifier. -/
def ident (what : Expectation) (c : Cursor) : Step c (Option Ident) :=
  match c.rest with
  | t :: _ =>
      if t.kind = .ident then ⟨some ⟨c.nextId, t.text, t.span⟩, c.bump.skipId,
          c.bump.skipId_behind.trans c.bump_behind⟩
      else fail c (.expected what)
  | [] => fail c (.expected what)

/-- The texts of the identifiers at the front that single dots join, and the cursor behind
them. Called where an identifier is next. -/
def dottedNames (c : Cursor) : Step c (List String) :=
  match h : c.rest with
  | t :: _ =>
      have shorter : c.bump.size < c.size := size_bump_lt (by simp [h])
      if c.bump.atPair .dot .ident then
        have : c.bump.bump.size < c.size := Nat.lt_of_le_of_lt c.bump.size_bump_le shorter
        ((dottedNames c.bump.bump).map (t.text :: ·)).widen
          (c.bump.bump_behind.trans c.bump_behind)
      else ⟨[t.text], c.bump, c.bump_behind⟩
  | [] => .pure c []
termination_by c.size

/-- The cursor behind the array suffixes `[]`. -/
def skipArraySuffixes (c : Cursor) : Step c Unit :=
  if h : c.atPair .lbracket .rbracket then
    have shorter : c.bump.size < c.size := size_bump_lt_of_isAt (Bool.and_eq_true_iff.1 h).1
    have : c.bump.bump.size < c.size := Nat.lt_of_le_of_lt c.bump.size_bump_le shorter
    (skipArraySuffixes c.bump.bump).widen
        (c.bump.bump_behind.trans c.bump_behind)
  else .pure c ()
termination_by c.size

/-- Reads `Name` or `java.util.Name`, with array suffixes that belong to no span. -/
def typeRef (c : Cursor) : Step c (Option TypeRef) :=
  if c.isAt .ident then
    (dottedNames c).andThen fun segments d _ =>
      (skipArraySuffixes d).andThen fun _ e _ =>
        ⟨some ⟨e.nextId, segments, d.spanFrom c.offset⟩, e.skipId, e.skipId_behind⟩
  else fail c (.expected .typeName)

end BbjAnalysis.Parser
