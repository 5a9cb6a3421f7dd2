import BbjAnalysis.Proofs.Program.Reader
import BbjAnalysis.Proofs.Program.Relabelling
import Mathlib.Data.List.Forall2

/-! # Two runs of the reader

Two texts are read that consist of the same kinds of tokens, and what is read from them
is compared up to the labels. The second text may go on behind the last line of the first.
Then the comparison ends there, and it tells something only as long as nothing is wrong
with the first text: reading on over the end of a text is always a fault.

A reading function passes the comparison if it takes cursors that stand alike to values
that are alike and to cursors that stand alike again (`Comparison.Steps`).
-/

namespace BbjAnalysis

open BbjAnalysis.Parser Cursor

/-- How two runs are compared: what is read in the first is to equal what is read in the
second once each is relabelled. -/
structure Comparison where
  first : Relabelling
  second : Relabelling
  /-- If the second text goes on, its tokens from the end of the last line of the first on. -/
  tail : Option (List Token)

namespace Comparison

variable (K : Comparison)

abbrev Alike {α : Type} [Labelled α] (a b : α) : Prop := relabel K.first a = relabel K.second b

def SameId (a b : NodeId) : Prop := a + K.first.ids = b + K.second.ids

def SameOffset (a b : Nat) : Prop := K.first.offset a = K.second.offset b

structure SameToken (t u : Token) : Prop where
  kind : t.kind = u.kind
  text : K.Alike t.text u.text
  start : K.SameOffset t.start u.start
  stop : K.SameOffset t.stop u.stop

/-- The tokens that are left of each text. The first text ends together with the second or with
a line. -/
inductive Tokens : List Token → List Token → Prop
  | nil (last : K.tail = none) : Tokens [] []
  | line {t u : Token} {us : List Token} (same : K.SameToken t u) (newline : t.kind = .newline)
    (goesOn : K.tail = some (u :: us)) : Tokens [t] (u :: us)
  | cons {t u : Token} {ts us : List Token} (same : K.SameToken t u) (rest : Tokens ts us) :
    Tokens (t :: ts) (u :: us)

/-- How many tokens more the second text has. -/
def surplus : Nat := (K.tail.getD []).tail.length

/-- The cursors stand at the same token of each text and remember alike things. -/
structure Cursors (c d : Cursor) : Prop where
  rest : K.Tokens c.rest d.rest
  lastStop : K.SameOffset c.lastStop d.lastStop
  stop : K.tail = none → K.SameOffset c.stop d.stop
  nextId : K.SameId c.nextId d.nextId
  inlineDepth : c.inlineDepth = d.inlineDepth
  errors : K.Alike c.errors d.errors

/-- Whether the comparison tells something of what was read up to the cursor. -/
def Covers (c : Cursor) : Prop := K.tail = none ∨ c.errors = []

/-- Whether the token at the cursor may be read on its own: not the end of the last line. -/
def Within (c : Cursor) : Prop := K.tail = none ∨ ∀ t ∈ c.rest.head?, t.kind ≠ .newline

variable {K}

namespace Alike

variable {α β : Type} [Labelled α] [Labelled β]

theorem option {a? b? : Option α} (alike : K.Alike a? b?) :
    (a? = none ∧ b? = none) ∨ ∃ a b, a? = some a ∧ b? = some b ∧ K.Alike a b := by
  cases a? with
  | none =>
      cases b? with
      | none => exact .inl ⟨rfl, rfl⟩
      | some b => cases alike
  | some a =>
      cases b? with
      | none => cases alike
      | some b => exact .inr ⟨a, b, rfl, rfl, Option.some.inj alike⟩

theorem mapOption {a? b? : Option α} (both : K.Alike a? b?) {f g : α → β}
    (alike : ∀ {a b}, K.Alike a b → K.Alike (f a) (g b)) : K.Alike (a?.map f) (b?.map g) := by
  rcases both.option with ⟨rfl, rfl⟩ | ⟨a, b, rfl, rfl, same⟩
  · rfl
  · exact congrArg some (alike same)

theorem cons {a b : α} {as bs : List α} (first : K.Alike a b) (rest : K.Alike as bs) :
    K.Alike (a :: as) (b :: bs) := (List.cons.injEq ..).mpr ⟨first, rest⟩

theorem append {as as' bs bs' : List α} (first : K.Alike as as') (second : K.Alike bs bs') :
    K.Alike (as ++ bs) (as' ++ bs') := by
  rw [Alike, Labelled.relabel_append, Labelled.relabel_append, first, second]

end Alike

theorem Covers.before {c next : Cursor} (covers : K.Covers next) (behind : next.Behind c) :
    K.Covers c :=
  covers.imp_right fun clean => List.suffix_nil.mp (by simpa only [clean] using behind.errors)

theorem not_covers_report {c next : Cursor} {fault : Fault} (lines : K.tail ≠ none)
    (behind : next.Behind (c.report fault)) : ¬ K.Covers next := by
  intro covers
  exact (covers.before behind).elim lines (List.cons_ne_nil _ _)

/-! ## Tokens -/

namespace SameToken

variable {t u : Token} (same : K.SameToken t u)
include same

theorem toLower_text : t.text.toLower = u.text.toLower :=
  calc t.text.toLower = (K.first.text t.text).toLower := (K.first.toLower_text _).symm
    _ = (K.second.text u.text).toLower := congrArg String.toLower same.text
    _ = u.text.toLower := K.second.toLower_text _

theorem isKeyword (word : String) : t.isKeyword word = u.isKeyword word := by
  rw [Token.isKeyword, Token.isKeyword, same.kind, same.toLower_text]

theorem span : K.Alike t.span u.span :=
  (Span.mk.injEq ..).mpr ⟨same.start, same.stop⟩

end SameToken

namespace Tokens

variable {ts us : List Token}

theorem length (h : K.Tokens ts us) : us.length = ts.length + K.surplus := by
  unfold surplus
  induction h with
  | nil last => rw [last]; rfl
  | line _ _ goesOn =>
      rw [goesOn]
      simp only [List.length_cons, List.length_nil, Option.getD_some, List.tail_cons]
      omega
  | cons _ _ ih => simp only [List.length_cons, ih]; omega

theorem head_kind (h : K.Tokens ts us) : ts.head?.map (·.kind) = us.head?.map (·.kind) := by
  cases h with
  | nil => rfl
  | line same | cons same => exact congrArg some same.kind

/-- A test that the end of a line passes is passed before the comparison ends. -/
theorem found (h : K.Tokens ts us) {p : Token → Bool}
    (line : ∀ t, t.kind = .newline → p t = true) : K.tail = none ∨ ts.dropWhile (!p ·) ≠ [] := by
  induction h with
  | nil last => exact .inl last
  | line _ newline =>
      refine .inr ?_
      simp only [List.dropWhile, line _ newline, Bool.not_true]
      exact List.cons_ne_nil _ _
  | @cons t u ts us _ _ ih =>
      refine ih.imp_right fun more => ?_
      cases passed : p t with
      | true =>
          simp only [List.dropWhile, passed, Bool.not_true]
          exact List.cons_ne_nil _ _
      | false => simpa only [List.dropWhile, passed, Bool.not_false] using more

/-- The tokens before the first that passes a test, and those from it on. -/
theorem split (h : K.Tokens ts us) {p q : Token → Bool}
    (test : ∀ {t u}, K.SameToken t u → p t = q u)
    (found : K.tail = none ∨ ts.dropWhile (!p ·) ≠ []) :
    List.Forall₂ K.SameToken (ts.takeWhile (!p ·)) (us.takeWhile (!q ·)) ∧
      K.Tokens (ts.dropWhile (!p ·)) (us.dropWhile (!q ·)) := by
  induction h with
  | nil last => exact ⟨.nil, .nil last⟩
  | @line t u us same newline goesOn =>
      cases passed : p t with
      | true =>
          have passed' : q u = true := test same ▸ passed
          simp only [List.takeWhile, List.dropWhile, passed, passed', Bool.not_true]
          exact ⟨.nil, .line same newline goesOn⟩
      | false =>
          simp only [List.dropWhile, passed, Bool.not_false] at found
          have last : K.tail = none := found.elim id (absurd rfl)
          cases last.symm.trans goesOn
  | @cons t u ts us same rest ih =>
      cases passed : p t with
      | true =>
          have passed' : q u = true := test same ▸ passed
          simp only [List.takeWhile, List.dropWhile, passed, passed', Bool.not_true]
          exact ⟨.nil, .cons same rest⟩
      | false =>
          have passed' : q u = false := test same ▸ passed
          simp only [List.takeWhile, List.dropWhile, passed, passed', Bool.not_false] at found ⊢
          exact ⟨.cons same (ih found).1, (ih found).2⟩

end Tokens

/-- Where the last of several tokens ends, or else where those before them end. -/
theorem lastStop_of_forall₂ {ts us : List Token} (same : List.Forall₂ K.SameToken ts us)
    {a b : Nat} (before : K.SameOffset a b) :
    K.SameOffset ((ts.getLast?.map Token.stop).getD a) ((us.getLast?.map Token.stop).getD b) := by
  induction same generalizing a b with
  | nil => exact before
  | cons same _ ih =>
      rw [List.getLast?_cons, List.getLast?_cons, Option.map_some, Option.map_some,
        Option.getD_some, Option.getD_some]
      simpa only [Option.getD_map] using ih same.stop

/-! ## Cursors -/

theorem within_of_isAt {c : Cursor} {kind : TokenKind} (next : c.isAt kind = true)
    (line : kind ≠ .newline) : K.Within c := by
  refine .inr fun t head newline => line ?_
  rw [isAt, kindAt, ← List.head?_eq_getElem?, Option.mem_def.mp head] at next
  rw [← newline]
  exact (Option.some.inj (beq_iff_eq.mp next)).symm

theorem within_of_atKeyword {c : Cursor} {word : String} (next : c.atKeyword word = true) :
    K.Within c := by
  refine .inr fun t head newline => ?_
  rw [atKeyword, List.head?_eq_some_iff.mp head |>.choose_spec] at next
  simp [Token.isKeyword, newline] at next

theorem within_of_not_atStatementEnd {c : Cursor} (inside : ¬ c.atStatementEnd = true) :
    K.Within c := by
  refine .inr fun t head newline => inside ?_
  rw [atStatementEnd, List.head?_eq_some_iff.mp head |>.choose_spec]
  simp [endsStatement, TokenKind.isStatementEnd, newline]

namespace Cursors

variable {c d : Cursor} (h : K.Cursors c d)
include h

theorem size : d.size = c.size + K.surplus := h.rest.length

/-- Both texts end here, or both have a token more, of the same kind. -/
theorem cases :
    (c.rest = [] ∧ d.rest = [] ∧ K.tail = none) ∨
      ∃ t ts u us, c.rest = t :: ts ∧ d.rest = u :: us ∧ K.SameToken t u ∧
        (K.Within c → K.Tokens ts us) := by
  obtain ⟨rest, -, -, -, -, -⟩ := h
  unfold Within
  generalize c.rest = ts at *
  generalize d.rest = us at *
  cases rest with
  | nil last => exact .inl ⟨rfl, rfl, last⟩
  | @line t u us same newline goesOn =>
      refine .inr ⟨t, [], u, us, rfl, rfl, same, fun within => ?_⟩
      have last : K.tail = none := within.elim id fun other => absurd newline (other t rfl)
      cases last.symm.trans goesOn
  | cons same rest => exact .inr ⟨_, _, _, _, rfl, rfl, same, fun _ => rest⟩

theorem rest_eq_nil_iff : c.rest = [] ↔ d.rest = [] := by
  rcases h.cases with ⟨ends, ends', -⟩ | ⟨t, ts, u, us, next, next', -⟩
  · simp only [ends, ends']
  · simp only [next, next', reduceCtorEq]

theorem sameToken {t u : Token} {ts us : List Token} (next : c.rest = t :: ts)
    (next' : d.rest = u :: us) : K.SameToken t u := by
  rcases h.cases with ⟨ends, -, -⟩ | ⟨_, _, _, _, eq, eq', same, -⟩
  · cases next.symm.trans ends
  · cases next.symm.trans eq
    cases next'.symm.trans eq'
    exact same

theorem kindAt_zero : c.kindAt 0 = d.kindAt 0 := by
  rw [kindAt, ← List.head?_eq_getElem?, h.rest.head_kind, List.head?_eq_getElem?, kindAt]

theorem isAt (kind : TokenKind) : c.isAt kind = d.isAt kind := by
  rw [Cursor.isAt, h.kindAt_zero, Cursor.isAt]

theorem atKeyword (word : String) : c.atKeyword word = d.atKeyword word := by
  rcases h.cases with ⟨ends, ends', -⟩ | ⟨t, ts, u, us, next, next', same, -⟩
  · simp only [Cursor.atKeyword, ends, ends']
  · simp only [Cursor.atKeyword, next, next', same.isKeyword]

theorem endsStatement {t u : Token} (same : K.SameToken t u) :
    c.endsStatement t = d.endsStatement u := by
  rw [Cursor.endsStatement, Cursor.endsStatement, same.kind, same.isKeyword, h.inlineDepth]

theorem atStatementEnd : c.atStatementEnd = d.atStatementEnd := by
  rcases h.cases with ⟨ends, ends', -⟩ | ⟨t, ts, u, us, next, next', same, -⟩
  · simp only [Cursor.atStatementEnd, ends, ends']
  · simp only [Cursor.atStatementEnd, next, next', h.endsStatement same]

theorem atEnd : c.atEnd = d.atEnd := by
  rcases h.cases with ⟨ends, ends', -⟩ | ⟨t, ts, u, us, next, next', -⟩
  · simp only [Cursor.atEnd, ends, ends']
  · simp only [Cursor.atEnd, next, next', List.isEmpty_cons]

theorem offset : K.SameOffset c.offset d.offset := by
  rcases h.cases with ⟨ends, ends', last⟩ | ⟨t, ts, u, us, next, next', same, -⟩
  · simpa only [Cursor.offset, ends, ends'] using h.stop last
  · simpa only [Cursor.offset, next, next'] using same.start

theorem here : K.Alike c.here d.here := by
  rcases h.cases with ⟨ends, ends', last⟩ | ⟨t, ts, u, us, next, next', same, -⟩
  · simp only [Cursor.here, ends, ends']
    exact (Span.mk.injEq ..).mpr ⟨h.stop last, h.stop last⟩
  · simpa only [Cursor.here, next, next'] using same.span

theorem spanFrom {a b : Nat} (start : K.SameOffset a b) :
    K.Alike (c.spanFrom a) (d.spanFrom b) := by
  have stop : K.SameOffset (max c.lastStop a) (max d.lastStop b) := by
    unfold SameOffset at *
    rw [K.first.offset_mono.map_max, K.second.offset_mono.map_max, h.lastStop, start]
  exact (Span.mk.injEq ..).mpr ⟨start, stop⟩

theorem nodeFrom {a b : Nat} (start : K.SameOffset a b) :
    K.Alike (c.nodeFrom a) (d.nodeFrom b) :=
  (Node.mk.injEq ..).mpr ⟨h.nextId, h.spanFrom start⟩

theorem skipId : K.Cursors c.skipId d.skipId where
  __ := h
  nextId := by
    unfold SameId Cursor.skipId
    rw [Nat.add_right_comm, h.nextId, Nat.add_right_comm]

theorem report {fault fault' : Fault} (same : K.Alike fault fault') :
    K.Cursors (c.report fault) (d.report fault') where
  __ := h
  errors := Alike.cons ((SyntaxError.mk.injEq ..).mpr ⟨same, h.here⟩) h.errors

theorem withInlineDepth {n m : Nat} (same : n = m) :
    K.Cursors (c.withInlineDepth n) (d.withInlineDepth m) where
  __ := h
  inlineDepth := same

theorem bump (within : K.Within c) : K.Cursors c.bump d.bump := by
  rcases h.cases with ⟨ends, ends', -⟩ | ⟨t, ts, u, us, next, next', same, rest⟩
  · simp only [Cursor.bump, ends, ends']
    exact { h with rest := by simpa only [ends, ends'] using h.rest }
  · simp only [Cursor.bump, next, next']
    exact { h with rest := rest within, lastStop := same.stop }

theorem bumpAt {kind : TokenKind} (next : c.isAt kind = true) (line : kind ≠ .newline) :
    K.Cursors c.bump d.bump := h.bump (within_of_isAt next line)

theorem bumpKeyword {word : String} (next : c.atKeyword word = true) :
    K.Cursors c.bump d.bump := h.bump (within_of_atKeyword next)

theorem atPair {kind next : TokenKind} (line : kind ≠ .newline) :
    c.atPair kind next = d.atPair kind next := by
  unfold Cursor.atPair
  rw [← h.isAt]
  cases isFirst : c.isAt kind with
  | false => rfl
  | true =>
      have behind := (h.bumpAt isFirst line).isAt next
      rwa [Cursor.isAt, Cursor.isAt, kindAt_bump, kindAt_bump] at behind

theorem kindAt_one (within : K.Within c) : c.kindAt 1 = d.kindAt 1 := by
  rw [← kindAt_bump, (h.bump within).kindAt_zero, kindAt_bump]

theorem skipUntil {p q : Token → Bool} (test : ∀ {t u}, K.SameToken t u → p t = q u)
    (found : K.tail = none ∨ (c.skipUntil p).rest ≠ []) :
    K.Cursors (c.skipUntil p) (d.skipUntil q) := by
  obtain ⟨passed, rest⟩ := h.rest.split test found
  exact { h with rest, lastStop := lastStop_of_forall₂ passed h.lastStop }

/-- Skips that stop at the end of a line do not run over the end of the comparison. -/
theorem skipWithinLine {p q : Token → Bool} (test : ∀ {t u}, K.SameToken t u → p t = q u)
    (line : ∀ t, t.kind = .newline → p t = true) : K.Cursors (c.skipUntil p) (d.skipUntil q) :=
  h.skipUntil test (h.rest.found line)

end Cursors

/-! ## Steps -/

/-- The steps yield alike values and lead to cursors that stand alike, as far as the comparison
tells something of them. -/
def Steps {α : Type} [Labelled α] {c d : Cursor} (r : Step c α) (s : Step d α) : Prop :=
  K.Covers r.next → K.Alike r.value s.value ∧ K.Cursors r.next s.next

namespace Steps

variable {α β : Type} [Labelled α] [Labelled β] {c d c₀ d₀ : Cursor}
  {r : Step c α} {s : Step d α}

theorem pure (h : K.Cursors c d) {a b : α} (alike : K.Alike a b) :
    K.Steps (.pure c a) (.pure d b) := fun _ => ⟨alike, h⟩

/-- A step that leads to a fault tells nothing where the second text goes on. -/
theorem ofFault {fault : Fault} (lines : K.tail ≠ none) (behind : r.next.Behind (c₀.report fault)) :
    K.Steps r s := fun covers => absurd covers (not_covers_report lines behind)

theorem widen (h : K.Steps r s) (before : c.Behind c₀) (before' : d.Behind d₀) :
    K.Steps (r.widen before) (s.widen before') := h

theorem map (h : K.Steps r s) {f g : α → β}
    (alike : ∀ {a b}, K.Alike a b → K.Alike (f a) (g b)) : K.Steps (r.map f) (s.map g) :=
  fun covers => (h covers).imp_left alike

theorem andThen (h : K.Steps r s) {f : (a : α) → (e : Cursor) → e.size ≤ c.size → Step e β}
    {g : (a : α) → (e : Cursor) → e.size ≤ d.size → Step e β}
    (next : ∀ {a b e e'} (l : e.size ≤ c.size) (l' : e'.size ≤ d.size),
      K.Alike a b → K.Cursors e e' → K.Steps (f a e l) (g b e' l')) :
    K.Steps (r.andThen f) (s.andThen g) := by
  intro covers
  obtain ⟨alike, cursors⟩ := h (covers.before (f r.value r.next r.size_le).behind)
  exact next r.size_le s.size_le alike cursors covers

theorem ifSome {r : Step c (Option α)} {s : Step d (Option α)} (h : K.Steps r s)
    {f : (a : α) → (e : Cursor) → e.size ≤ c.size → Step e (Option β)}
    {g : (a : α) → (e : Cursor) → e.size ≤ d.size → Step e (Option β)}
    (next : ∀ {a b e e'} (l : e.size ≤ c.size) (l' : e'.size ≤ d.size),
      K.Alike a b → K.Cursors e e' → K.Steps (f a e l) (g b e' l')) :
    K.Steps (r.ifSome f) (s.ifSome g) := by
  obtain ⟨a?, e, behind⟩ := r
  obtain ⟨b?, e', behind'⟩ := s
  intro covers
  cases a? with
  | none =>
      obtain ⟨alike, cursors⟩ := h covers
      obtain rfl : b? = none := Option.map_eq_none_iff.mp alike.symm
      exact ⟨rfl, cursors⟩
  | some a =>
      obtain ⟨alike, cursors⟩ := h (covers.before (f a e behind.size_le).behind)
      obtain ⟨b, rfl, same⟩ := Option.map_eq_some_iff.mp alike.symm
      exact next behind.size_le behind'.size_le same.symm cursors covers

theorem ifTrue {r : Step c Bool} {s : Step d Bool} (h : K.Steps r s)
    {f : (e : Cursor) → e.size ≤ c.size → Step e (Option β)}
    {g : (e : Cursor) → e.size ≤ d.size → Step e (Option β)}
    (next : ∀ {e e'} (l : e.size ≤ c.size) (l' : e'.size ≤ d.size),
      K.Cursors e e' → K.Steps (f e l) (g e' l')) :
    K.Steps (r.ifTrue f) (s.ifTrue g) := by
  obtain ⟨a, e, behind⟩ := r
  obtain ⟨b, e', behind'⟩ := s
  intro covers
  cases a with
  | false =>
      obtain ⟨alike, cursors⟩ := h covers
      obtain rfl : false = b := alike
      exact ⟨rfl, cursors⟩
  | true =>
      obtain ⟨alike, cursors⟩ := h (covers.before (f e behind.size_le).behind)
      obtain rfl : true = b := alike
      exact next behind.size_le behind'.size_le cursors covers

/-- Both runs take the same branch. -/
theorem dite {p q : Prop} [Decidable p] [Decidable q] (same : p ↔ q)
    {f : p → Step c α} {f' : q → Step d α} {g : ¬ p → Step c α} {g' : ¬ q → Step d α}
    (yes : ∀ (hp : p) (hq : q), K.Steps (f hp) (f' hq))
    (no : ∀ (hp : ¬ p) (hq : ¬ q), K.Steps (g hp) (g' hq)) :
    K.Steps (if h : p then f h else g h) (if h : q then f' h else g' h) := by
  by_cases hp : p
  · rw [dif_pos hp, dif_pos (same.mp hp)]
    exact yes hp (same.mp hp)
  · rw [dif_neg hp, dif_neg (fun hq => hp (same.mpr hq))]
    exact no hp _

theorem ite {p q : Prop} [Decidable p] [Decidable q] (same : p ↔ q) {r₁ r₂ : Step c α}
    {s₁ s₂ : Step d α} (yes : p → K.Steps r₁ s₁) (no : ¬ p → K.Steps r₂ s₂) :
    K.Steps (if p then r₁ else r₂) (if q then s₁ else s₂) :=
  dite same (fun hp _ => yes hp) (fun hp _ => no hp)

end Steps

end Comparison
end BbjAnalysis
