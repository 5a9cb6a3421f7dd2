import BbjAnalysis.Proofs.Program.Progress.Expr

/-! # The course of reading a program

Each function that reads a statement takes its course. A statement is read from at least one
token unless it ends where it begins, whatever goes wrong with it; so blocks never stand still,
and a program is read to its end. A statement costs at most two identities besides those that its
tokens pay for, and the separator behind it pays for these.
-/

namespace BbjAnalysis.Parser

open Cursor

variable {c : Cursor}

/-! ## Statements without a block -/

theorem done_runs (m : Mark) (c : Cursor) (make : Node → Statement) {n : Nat} :
    (done m c make).Runs n := .pure c _

theorem identList_runs (what : Expectation) (c : Cursor) : (identList what c).Runs 0 := by
  rw [identList]
  apply (ident_runs what c).ifSome
  intro name d _
  split
  · next comma =>
    have shorter : d.bump.size < d.size := size_bump_lt_of_isAt comma
    exact ((identList_runs what d.bump).map _).free.widen (leads_bump_of_isAt comma)
  · exact .pure d _
termination_by c.size

theorem typeList_runs (c : Cursor) : (typeList c).Runs 0 := by
  rw [typeList]
  apply (typeRef_runs c).andThen
  intro found d _
  split
  · split
    · next comma =>
      have shorter : d.bump.size < d.size := size_bump_lt_of_isAt comma
      exact ((typeList_runs d.bump).map _).free.widen (leads_bump_of_isAt comma)
    · exact .pure d _
  · exact .pure d _
termination_by c.size

theorem modifier_runs (c : Cursor) : (modifier c).Runs 0 := by
  unfold modifier
  split
  · next word => exact runs_bump _ (rest_ne_nil_of_atKeyword word)
  · split
    · next word => exact runs_bump _ (rest_ne_nil_of_atKeyword word)
    · split
      · next word => exact runs_bump _ (rest_ne_nil_of_atKeyword word)
      · exact .pure c none

theorem assignment_runs (m : Mark) (explicitLet : Bool) (c : Cursor) :
    (assignment m explicitLet c).Runs 1 := by
  apply (eat_runs .hash c).andThen
  intro isField d _
  apply (ident_runs _ d).ifSome
  intro name e _
  apply (expect_runs .eq .equals e).ifTrue
  intro f _
  apply (expr_runs f).andThen
  intro value g _
  exact done_runs m g _

theorem declare_runs (m : Mark) (c : Cursor) : (declare m c).Runs 0 := by
  apply (eatKeyword_runs "auto" c).andThen
  intro auto d _
  apply (typeRef_runs d).ifSome
  intro type e _
  apply (ident_runs .variableName e).ifSome
  intro name f _
  exact done_runs m f _

theorem global_runs (m : Mark) (c : Cursor) : (global m c).Runs 0 := by
  apply (identList_runs .globalName c).ifSome
  intro names d _
  exact done_runs m d _

theorem filePath_runs (c : Cursor) : (filePath c).Runs 0 := leads_skipUntil c 0 _

theorem useStatement_runs (m : Mark) (c : Cursor) : (useStatement m c).Runs 0 := by
  apply (eat_runs .colonColon c).andThen
  intro isPath d _
  split
  · apply (filePath_runs d).andThen
    intro path e _
    apply (expect_runs .colonColon .colonsAfterPath e).ifTrue
    intro f _
    apply (ident_runs .className f).ifSome
    intro name g _
    exact done_runs m g _
  · apply (typeRef_runs d).ifSome
    intro type e _
    exact done_runs m e _

theorem fieldDecl_runs (m : Mark) (c : Cursor) : (fieldDecl m c).Runs 1 := by
  apply (modifier_runs c).andThen
  intro modifier d _
  apply (eatKeyword_runs "static" d).andThen
  intro isStatic e _
  apply (typeRef_runs e).ifSome
  intro type f _
  apply (eat_runs .hash f).andThen
  intro _ g _
  apply (ident_runs .fieldName g).ifSome
  intro name h _
  apply (eat_runs .eq h).andThen
  intro hasInit i _
  split
  · apply (expr_runs i).andThen
    intro init j _
    exact done_runs m j _
  · exact done_runs m i _

theorem jump_runs (m : Mark) (verb : JumpVerb) (c : Cursor) : (jump m verb c).Runs 0 := by
  unfold jump
  split
  · next number =>
    exact (done_runs m c.bump _).widen (leads_bump_of_isAt (Bool.and_eq_true_iff.mp number).2)
  · apply (ident_runs .labelName c).ifSome
    intro target d _
    exact done_runs m d _

theorem onJump_runs (m : Mark) (c : Cursor) : (onJump m c).Runs 1 := by
  apply (expr_runs c).andThen
  intro selector d _
  have behind (verb : JumpVerb) {word : String} (next : d.atKeyword word = true) :
      (((identList .labelName d.bump).ifSome fun targets e _ =>
        done m e (.jump · verb (some selector) targets)).widen d.bump_behind).Runs 0 := by
    refine .widen ?_ (leads_bump_of_atKeyword next)
    apply (identList_runs .labelName d.bump).ifSome
    intro targets e _
    exact done_runs m e _
  by_cases goto : d.atKeyword "goto" = true
  · simp only [goto, if_true]
    exact behind .goto goto
  · by_cases gosub : d.atKeyword "gosub" = true
    · simp only [goto, gosub, if_true]
      exact behind .gosub gosub
    · simp only [goto, gosub]
      exact fail_runs d (expected_ne _)

theorem openOptions_runs (c : Cursor) : (openOptions c).Runs 0 := by
  rw [openOptions]
  split
  · next comma =>
    have shorter : c.bump.size < c.size := size_bump_lt_of_isAt comma
    refine .widen ?_ (leads_bump_of_isAt comma)
    apply (keyedValue_runs c.bump).ifSome
    intro option d _
    exact (openOptions_runs d).map _
  · exact .pure c _
termination_by c.size

theorem openStatement_runs (m : Mark) (c : Cursor) : (openStatement m c).Runs 2 := by
  apply (expect_runs .lparen .openParenAfterOpen c).ifTrue
  intro d _
  apply (expr_runs d).andThen
  intro channel e _
  apply (openOptions_runs e).ifSome
  intro options f _
  apply (expect_runs .rparen .closeParen f).ifTrue
  intro g _
  dsimp only
  split
  · exact done_runs m g _
  · apply (expr_runs g).andThen
    intro path h _
    exact done_runs m h _

theorem keyedItems_runs (c : Cursor) : (keyedItems c).Runs 2 := by
  rw [keyedItems]
  refine Step.Runs.ifSome (p := 2) ?_ fun item d _ => ?_
  · split
    · exact (keyedValue_runs c).map _
    · exact ((expr_runs c).map _).mono (Nat.le_succ 1)
  · split
    · next comma =>
      have shorter : d.bump.size < d.size := size_bump_lt_of_isAt comma
      exact ((keyedItems_runs d.bump).map _).widen (leads_bump_of_isAt comma)
    · exact .pure d _
termination_by c.size

theorem keyedStatement_runs (m : Mark) (verb : KeyedVerb) (c : Cursor) :
    (keyedStatement m verb c).Runs 2 := by
  apply (keyedItems_runs c).ifSome
  intro items d _
  exact done_runs m d _

/-- What is read pays for the item that is missing before it. -/
theorem eat_pays (kind : TokenKind) (c : Cursor) :
    (eat kind c).Ensures fun _ d => d = c ∨ d.size < c.size ∧ Leads c 0 d 2 := by
  unfold eat
  split
  · next next => exact .inr ⟨size_bump_lt_of_isAt next, leads_bump_of_isAt next⟩
  · exact .inl rfl

/-- An item may cost one identity more than its tokens pay for, but two items in a row do not:
either a token parts them, or the second one is no operator without a left operand. -/
theorem printItems_runs (c : Cursor) :
    (printItems c).Runs 1 ∧ (c.Climbed 1 → (printItems c).Runs 0) := by
  rw [printItems]
  split
  · exact ⟨.pure c _, fun _ => .pure c _⟩
  · next inside =>
    have parted {d e : Cursor} (leads : Leads d 0 e 2) (shorter : e.size < c.size) :
        (printItems e).Ensures fun _ f => Leads d 0 f 1 :=
      leads.trans ((Leads.add_iff 1).mpr (printItems_runs e).1)
    have behind (item : Expr) (d : Cursor) (l : d.size ≤ c.size) (ends : d.Climbed 1) :
        ((eat .comma d).andThen fun _ e _ =>
          if e.size < c.size then (printItems e).map (item :: ·)
          else ((printItems (e.report .unexpectedInPrint).bump).map (item :: ·)).widen
            ((e.report _).bump_behind.trans (e.report_behind _))).Ensures fun _ f =>
          Leads d 0 f 0 ∧ (¬ d.size < c.size → Leads d 0 f 1) := by
      apply (eat_pays .comma d).andThen
      rintro _ e _ (rfl | ⟨shorter, comma⟩)
      · split
        · next shorter => exact ⟨(printItems_runs e).2 ends, absurd shorter⟩
        · next stuck =>
          have next : (e.report .unexpectedInPrint).rest ≠ [] :=
            rest_ne_nil_of_size (rest_ne_nil_of_not_atStatementEnd inside) stuck
          have shorter : (e.report .unexpectedInPrint).bump.size < e.size :=
            size_bump_lt (c := e.report .unexpectedInPrint) next
          have passed := (leads_report e 0 (by simp)).trans (leads_bump next)
          have more := parted passed (Nat.lt_of_lt_of_le shorter l)
          exact ⟨more.forget, fun _ => more⟩
      · have fewer : e.size < c.size := Nat.lt_of_lt_of_le shorter l
        have more := parted comma fewer
        rw [if_pos fewer]
        exact ⟨more.forget, fun _ => more⟩
    have reaches := exprFrom_reaches 1 c
    constructor
    · refine Step.Ensures.andThen ((expr_runs c).and reaches) fun item d l ⟨leads, reached⟩ => ?_
      exact leads.trans (behind item d l reached.climbed).1
    · intro start
      refine Step.Ensures.andThen ((expr_pays start).and reaches) fun item d l ⟨paid, reached⟩ => ?_
      have after := behind item d l reached.climbed
      rcases paid with leads | ⟨rest, leads⟩
      · exact leads.trans after.1
      · have still : ¬ d.size < c.size := by simp [size, rest]
        exact (Leads.add_iff 1).mp (leads.trans (after.2 still))
termination_by c.size

theorem printStatement_runs (m : Mark) (c : Cursor) : (printStatement m c).Runs 1 := by
  apply (printItems_runs c).1.andThen
  intro items d _
  exact done_runs m d _

theorem returnStatement_runs (m : Mark) (c : Cursor) : (returnStatement m c).Runs 1 := by
  unfold returnStatement
  split
  · exact done_runs m c _
  · apply (expr_runs c).andThen
    intro value d _
    exact done_runs m d _

theorem simpleStatement_runs (m : Mark) (c : Cursor) (word : SimpleWord) :
    (simpleStatement m c word).Runs 2 := by
  cases word with
  | rem =>
      rw [simpleStatement]
      exact (done_runs m c.skipToLineEnd .rem).widen (leads_skipUntil c 2 _)
  | letWord => exact (assignment_runs m true c).mono (Nat.le_succ 1)
  | declare => exact (declare_runs m c).free
  | global => exact (global_runs m c).free
  | use => exact (useStatement_runs m c).free
  | field => exact (fieldDecl_runs m c).mono (Nat.le_succ 1)
  | jump verb => exact (jump_runs m verb c).free
  | on => exact (onJump_runs m c).mono (Nat.le_succ 1)
  | openWord => exact openStatement_runs m c
  | keyed verb => exact keyedStatement_runs m verb c
  | print => exact (printStatement_runs m c).mono (Nat.le_succ 1)
  | ret => exact (returnStatement_runs m c).mono (Nat.le_succ 1)
  | terminate verb => exact done_runs m c _

theorem bareStatement_runs (m : Mark) (c : Cursor) : (bareStatement m c).Runs 1 := by
  unfold bareStatement
  split
  · exact assignment_runs m false c
  · apply (expr_runs c).andThen
    intro value d _
    exact done_runs m d _

/-! ## Headers -/

theorem label_runs (c : Cursor) : (label c).Runs 0 := by
  unfold label
  split
  · split
    · next pair =>
      have identified : Leads c 2 c.skipId.skipId 0 :=
        (leads_skipId c 1).trans (leads_skipId c.skipId 0)
      have named := identified.trans (leads_bump_bump (c := c.skipId.skipId) pair)
      exact (Leads.add_iff 2).mp (named.mono (Nat.le_refl 2) (Nat.le_add_left 2 2))
    · exact .pure c none
  · exact .pure c none

theorem endStatement_runs (c : Cursor) : (endStatement c).Runs 0 := by
  unfold endStatement
  split
  · exact .pure c ()
  · exact (leads_report c 0 (expected_ne _)).trans (leads_skipUntil _ 0 _)

theorem paramList_runs (typed : Bool) (c : Cursor) : (paramList typed c).Runs 1 := by
  rw [paramList]
  refine .widen ?_ (leads_skipId c 0)
  refine Step.Runs.ifSome (p := 0) ?_ fun type d (l : d.size ≤ c.size) => ?_
  · split
    · exact (typeRef_runs c.skipId).map _
    · exact .pure c.skipId _
  · apply (ident_runs .parameterName d).ifSome
    intro name e l'
    dsimp only
    split
    · next comma =>
      have shorter : e.bump.size < e.size := size_bump_lt_of_isAt comma
      exact (((paramList_runs typed e.bump).map _).mono (Nat.le_succ 1)).widen
        (leads_bump_of_isAt comma)
    · exact .pure e _
termination_by c.size

theorem params_runs (typed : Bool) (c : Cursor) : (params typed c).Runs 1 := by
  apply (expect_runs .lparen .openParen c).ifTrue
  intro d _
  split
  · next closed => exact (runs_bump _ (rest_ne_nil_of_isAt closed)).free
  · apply (paramList_runs typed d).ifSome
    intro list e _
    exact (expect_runs .rparen .closeParen e).map _

theorem heritage_runs (c : Cursor) : (heritage c).Runs 0 := by
  rw [heritage]
  split
  · next word =>
    have shorter : c.bump.size < c.size := size_bump_lt (rest_ne_nil_of_atKeyword word)
    refine .widen ?_ (leads_bump_of_atKeyword word)
    apply (typeList_runs c.bump).andThen
    intro types d _
    exact ((heritage_runs d).map _).free
  · split
    · next word =>
      have shorter : c.bump.size < c.size := size_bump_lt (rest_ne_nil_of_atKeyword word)
      refine .widen ?_ (leads_bump_of_atKeyword word)
      apply (typeList_runs c.bump).andThen
      intro types d _
      exact ((heritage_runs d).map _).free
    · exact .pure c _
termination_by c.size

theorem endClassHeader_runs (c : Cursor) : (endClassHeader c).Runs 0 := by
  unfold endClassHeader
  split
  · exact .pure c ()
  · exact (leads_report c 0 (expected_ne _)).trans (leads_skipUntil _ 0 _)

theorem classHead_runs (isInterface : Bool) (c : Cursor) : (classHead isInterface c).Runs 0 := by
  apply (modifier_runs c).andThen
  intro modifier d _
  apply (ident_runs .className d).ifSome
  intro name e _
  apply (heritage_runs e).andThen
  intro types f _
  exact (endClassHeader_runs f).map _

theorem methodHead_runs (c : Cursor) : (methodHead c).Runs 1 := by
  apply (modifier_runs c).andThen
  intro modifier d _
  apply (eatKeyword_runs "static" d).andThen
  intro isStatic e _
  refine Step.Runs.ifSome (p := 0) ?_ fun returnType f _ => ?_
  · split
    · exact .pure e _
    · exact (typeRef_runs e).map _
  · apply (ident_runs .methodName f).ifSome
    intro name g _
    exact (params_runs true g).map _

theorem procedureHead_runs (c : Cursor) : (procedureHead c).Runs 1 := by
  apply (eatKeyword_runs "public" c).andThen
  intro isPublic d _
  apply (ident_runs .functionName d).ifSome
  intro name e _
  split
  · exact (params_runs false e).map _
  · exact .pure e _

theorem forHead_runs (c : Cursor) : (forHead c).Runs 1 := by
  apply (ident_runs .loopVariable c).ifSome
  intro name d _
  apply (expect_runs .eq .equals d).ifTrue
  intro e _
  apply (expr_runs e).andThen
  intro first f _
  split
  · next word =>
    refine .widen ?_ (leads_bump_of_atKeyword word)
    apply (expr_runs f.bump).andThen
    intro last g _
    apply (eatKeyword_runs "step" g).andThen
    intro hasStep h _
    split
    · exact (expr_runs h).map _
    · exact .pure h _
  · exact fail_runs f (expected_ne _)

theorem nextVariable_runs (c : Cursor) : (nextVariable c).Runs 0 := by
  unfold nextVariable
  split
  · exact ident_runs .loopVariable c
  · exact .pure c none

/-! ## Progress -/

/-- A label is read from a name and a colon. -/
theorem label_progress (c : Cursor) :
    (label c).Ensures fun found d => found = none ∧ d = c ∨ d.size < c.size := by
  unfold label
  split
  · split
    · next pair => exact .inr (size_bump_bump_lt (c := c.skipId.skipId) (isAt_of_atPair pair))
    · exact .inl ⟨rfl, rfl⟩
  · exact .inl ⟨rfl, rfl⟩

/-- What stands behind a statement is passed over. -/
theorem size_endStatement_lt (inside : c.atStatementEnd = false) :
    (endStatement c).next.size < c.size := by
  unfold endStatement
  rw [if_neg (by simp [inside])]
  cases rest : c.rest with
  | nil => simp [atStatementEnd, rest] at inside
  | cons t ts =>
      have more : c.endsStatement t = false := by simpa only [atStatementEnd, rest] using inside
      have skipped := skipUntil_of_passed (c := c.report (.expected .endOfStatement)) rest more
      have shorter : (c.report (.expected .endOfStatement)).bump.size < c.size :=
        size_bump_lt (c := c.report (.expected .endOfStatement)) (by simp [report, rest])
      show (Cursor.skipUntil _ _).size < c.size
      exact Nat.lt_of_le_of_lt (skipped ▸ size_skipUntil_le _ _) shorter

/-- Up to where a statement ends, a token is read, unless it ends where it begins. -/
theorem size_endStatement_statement_lt (inside : c.atStatementEnd = false) :
    (endStatement (statement c).next).next.size < c.size := by
  have behind := (statement c).behind
  -- where nothing was read for the statement, all that stands there is passed over
  by_cases shorter : (statement c).next.size < c.size
  · exact Nat.lt_of_le_of_lt (endStatement (statement c).next).size_le shorter
  · have still : (statement c).next.atStatementEnd = false := by
      rw [← inside]
      simp only [atStatementEnd, endsStatement, behind.rest_eq shorter, behind.inlineDepth]
    exact Nat.lt_of_lt_of_le (size_endStatement_lt still) behind.size_le

/-- A statement is read from at least one token, unless it ends where it begins. -/
theorem size_labelledStatement_lt (inside : c.atStatementEnd = false) :
    (labelledStatement c).next.size < c.size := by
  show (labelledStatement c).Ensures fun _ d => d.size < c.size
  rw [labelledStatement_eq]
  apply (label_progress c).andThen
  rintro found d - (⟨rfl, rfl⟩ | shorter)
  · rw [if_neg (by simp)]
    exact size_endStatement_statement_lt inside
  · split
    · exact shorter
    · exact Nat.lt_of_le_of_lt (Step.size_le _) shorter

/-- Outside of a one-line `if`, what is no line end and no semicolon does not end a statement. -/
theorem atStatementEnd_skipSeparators {t : Token} {ts : List Token} (depth : c.inlineDepth = 0)
    (next : c.skipSeparators.rest = t :: ts) : c.skipSeparators.atStatementEnd = false := by
  have found : (c.rest.dropWhile fun t => !!t.kind.isStatementEnd).head? = some t :=
    List.head?_eq_some_iff.mpr ⟨ts, next⟩
  have separates := List.head?_dropWhile_not (fun t => !!t.kind.isStatementEnd) c.rest
  rw [found] at separates
  have outside : c.skipSeparators.inlineDepth = 0 := depth
  simpa [atStatementEnd, next, endsStatement, outside] using separates

/-- Behind the separators there are two identities to spare for a statement, unless there were
none, and no text that ends. -/
theorem leads_skipSeparators {t : Token} {ts : List Token} (depth : c.inlineDepth = 0)
    (next : c.skipSeparators.rest = t :: ts) :
    Leads c (if c.atStatementEnd then 0 else 2) c.skipSeparators 2 := by
  split
  · next ends =>
    cases rest : c.rest with
    | nil => simp [skipSeparators, skipUntil, rest] at next
    | cons u us =>
        have separates : u.kind.isStatementEnd = true := by
          simpa [atStatementEnd, endsStatement, rest, depth] using ends
        have first : Leads c 0 c.bump 2 := leads_bump_of_cons rest
        rw [skipSeparators, skipUntil_of_passed rest (by simp [separates])]
        exact first.trans (leads_skipUntil c.bump 2 _)
  · exact leads_skipUntil c 2 _

theorem atStatementEnd_labelledStatement (c : Cursor) :
    (labelledStatement c).next.atStatementEnd = true := by
  show (labelledStatement c).Ensures fun _ d => d.atStatementEnd = true
  rw [labelledStatement_eq]
  apply (Step.Ensures.any (label c)).andThen
  intro found d _ _
  split
  · next ends => exact (Bool.and_eq_true_iff.mp ends).2
  · apply (Step.Ensures.any (statement d)).andThen
    intro more e _ _
    exact atStatementEnd_endStatement e

/-! ## Blocks -/

/-- A block runs to its end; where it has found a closing word, it stands before the word. -/
def Step.RunsToCloser (r : Step c Block) (n : Nat) : Prop :=
  r.Ensures fun block d => Leads c n d 0 ∧ (block.closer.isSome = true → d.rest ≠ [])

theorem closeBlock_runs {found : Option String} (expected : String)
    (more : found.isSome = true → c.rest ≠ []) : (closeBlock found expected c).Runs 0 := by
  unfold closeBlock
  split
  · next isFound => exact runs_bump () (more isFound)
  · exact leads_report c 0 (by simp)

/-- A block is followed by its closing word. -/
theorem Step.RunsToCloser.closed {r : Step c Block} {p q : Nat} (h : r.RunsToCloser p)
    (expected : String) {β : Type} {f : (b : Block) → (d : Cursor) → d.size ≤ c.size →
      (e : Cursor) → e.size ≤ d.size → Step e β}
    (next : ∀ b d l e l', (f b d l e l').Runs q) :
    (r.andThen fun b d l => (closeBlock b.closer expected d).andThen fun _ e l' =>
      f b d l e l').Runs (q + p) := by
  refine Ensures.andThen h fun b d l ⟨leads, more⟩ => ?_
  have closed := (closeBlock_runs expected more).andThen fun _ e l' => next b d l e l'
  exact leads.add closed

mutual

theorem statement_runs (c : Cursor) : (statement c).Runs 2 := by
  rw [statement.eq_def]
  split
  · exact .pure c none
  · next t ts rest =>
    have next : c.rest ≠ [] := by simp [rest]
    have shorter : c.skipId.bump.size < c.size := size_bump_lt (c := c.skipId) next
    split
    · exact .pure c none
    · split
      · have noted : Leads c 2 (c.report (.strayCloser t.text)) 2 := leads_report c 2 (by simp)
        have passed := noted.trans (leads_bump next)
        exact passed.forget
      · have marked : Leads c 2 c.skipId 1 := leads_skipId c 1
        have word : Leads c 2 c.skipId.bump 3 := marked.trans (leads_bump (c := c.skipId) next)
        dsimp only
        split
        · exact ((simpleStatement_runs _ _ _).mono (Nat.le_succ 2)).widen word
        · exact (blockStatement_runs _ _ _).widen word
        · exact (bareStatement_runs _ _).widen marked
termination_by c.size * 8

theorem labelledStatement_runs (c : Cursor) : (labelledStatement c).Runs 2 := by
  rw [labelledStatement_eq]
  apply (label_runs c).andThen
  intro found d _
  split
  · exact .pure d _
  · apply (statement_runs d).andThen
    intro more e _
    exact (endStatement_runs e).map _
termination_by c.size * 8 + 1

theorem statements_runs (closers : List String) (c : Cursor) (depth : c.inlineDepth = 0) :
    (statements closers c).RunsToCloser (if c.atStatementEnd then 0 else 2) := by
  have skipped := leads_skipUntil c (if c.atStatementEnd then 0 else 2) (!·.kind.isStatementEnd)
  have before : c.skipSeparators.size ≤ c.size := c.size_skipUntil_le _
  cases next : c.skipSeparators.rest with
  | nil =>
      rw [statements_of_end next]
      exact ⟨skipped.forget, nofun⟩
  | cons t ts =>
      cases closer : closers.find? t.isKeyword with
      | some word =>
          rw [statements_of_closer next closer]
          exact ⟨skipped.forget, fun _ => by simp [Step.pure, Step.widen, next]⟩
      | none =>
          have progress := size_labelledStatement_lt (atStatementEnd_skipSeparators depth next)
          have behind := (labelledStatement c.skipSeparators).behind
          have rest := statements_runs closers (labelledStatement c.skipSeparators).next
            (behind.inlineDepth.trans depth)
          rw [if_pos (atStatementEnd_labelledStatement c.skipSeparators)] at rest
          have first := (leads_skipSeparators depth next).trans
            (labelledStatement_runs c.skipSeparators)
          rw [statements_of_statement next closer]
          simp only [Step.andThen, Step.widen, if_pos progress]
          exact ⟨first.trans rest.1, rest.2⟩
termination_by c.size * 8 + 2

theorem block_runs (closers : List String) (c : Cursor) : (block closers c).RunsToCloser 2 := by
  rw [block]
  have inside := statements_runs closers (c.withInlineDepth 0) rfl
  have price : (if (c.withInlineDepth 0).atStatementEnd then 0 else 2) ≤ 2 := by split <;> decide
  have leads := (leads_withInlineDepth c _ 0).trans
    (inside.1.trans (leads_withInlineDepth _ 0 c.inlineDepth))
  exact ⟨leads.mono price (Nat.le_refl 0), inside.2⟩
termination_by c.size * 8 + 3

theorem inlineStatements_runs (c : Cursor) : (inlineStatements c).Runs 2 := by
  rw [inlineStatements]
  apply (labelledStatement_runs c).andThen
  intro found d _
  split
  · next semicolon =>
    have shorter : d.bump.size < d.size := size_bump_lt_of_isAt semicolon
    split
    · exact runs_bump found (rest_ne_nil_of_isAt semicolon)
    · exact ((inlineStatements_runs d.bump).map _).widen (leads_bump_of_isAt semicolon)
  · exact .pure d found
termination_by c.size * 8 + 2

theorem blockIf_runs (m : Mark) (condition : Expr) (c : Cursor) :
    (blockIf m condition c).Runs 2 := by
  rw [blockIf]
  refine Step.Ensures.andThen (block_runs _ c) fun first d l ⟨leads, more⟩ => ?_
  have shorter : d.bump.size ≤ d.size := d.size_bump_le
  have behind : Step.Runs (if first.closer = some "else" then
      ((block ["fi", "endif"] d.bump).andThen fun second e _ =>
        (closeBlock second.closer "fi" e).andThen fun _ f _ =>
          done m f (.branch · condition first.statements second.statements)).widen d.bump_behind
    else
      (closeBlock first.closer "fi" d).andThen fun _ e _ =>
        done m e (.branch · condition first.statements [])) 0 := by
    split
    · next isElse =>
      refine .widen ?_ (leads_bump (more (by simp [isElse])))
      apply (block_runs ["fi", "endif"] d.bump).closed
      intro second e _ f _
      exact done_runs m f _
    · apply (closeBlock_runs "fi" more).andThen
      intro _ e _
      exact done_runs m e _
  exact leads.add behind
termination_by c.size * 8 + 4

theorem inlineIf_runs (m : Mark) (condition : Expr) (c : Cursor) :
    (inlineIf m condition c).Runs 4 := by
  have same : (c.withInlineDepth (c.inlineDepth + 1)).size = c.size := size_withInlineDepth ..
  rw [inlineIf]
  have branches : Step.Runs ((inlineStatements (c.withInlineDepth (c.inlineDepth + 1))).andThen
      fun thenBranch d _ => (eatKeyword "else" d).andThen fun hasElse e _ =>
        if hasElse then (inlineStatements e).map fun elseBranch => (thenBranch, elseBranch)
        else .pure e (thenBranch, [])) 4 := by
    apply (inlineStatements_runs _).andThen
    intro thenBranch d l
    apply (eatKeyword_runs "else" d).andThen
    intro hasElse e l'
    split
    · exact (inlineStatements_runs e).map _
    · exact .pure e _
  exact (leads_withInlineDepth c 4 _).trans (branches.trans (leads_withInlineDepth _ 0 _))
termination_by c.size * 8 + 4

theorem blockStatement_runs (m : Mark) (c : Cursor) (word : BlockWord) :
    (blockStatement m c word).Runs 3 := by
  rw [blockStatement.eq_def]
  cases word with
  | classWord isInterface =>
      apply (classHead_runs isInterface c).ifSome
      intro head d _
      apply (block_runs _ d).closed
      intro body e _ f _
      exact done_runs m f _
  | method =>
      apply (methodHead_runs c).ifSome
      intro head d _
      apply (block_runs _ d).closed
      intro body e _ f _
      exact done_runs m f _
  | procedure =>
      apply (procedureHead_runs c).ifSome
      intro head d _
      apply (eat_runs .eq d).andThen
      intro isInline e _
      split
      · apply (expr_runs e).andThen
        intro body f _
        exact done_runs m f _
      · apply (block_runs _ e).closed
        intro body f _ g _
        exact done_runs m g _
  | ifWord =>
      apply (expr_runs c).andThen
      intro condition d _
      split
      · next then_ =>
        have shorter : d.bump.size ≤ d.size := d.size_bump_le
        refine .widen ?_ (leads_bump_of_atKeyword then_)
        split
        · exact (blockIf_runs m condition d.bump).mono (Nat.le_add_left 2 2)
        · exact inlineIf_runs m condition d.bump
      · exact (fail_runs d (expected_ne _)).free
  | forWord =>
      apply (forHead_runs c).ifSome
      intro head d _
      apply (block_runs _ d).closed
      intro body e _ f _
      apply (nextVariable_runs f).andThen
      intro next g _
      exact done_runs m g _
  | whileWord =>
      apply (expr_runs c).andThen
      intro condition d _
      apply (block_runs _ d).closed
      intro body e _ f _
      exact done_runs m f _
termination_by c.size * 8 + 5

end

/-! ## Programs -/

/-- Where no word closes a block, it runs to the end of the text. -/
theorem rest_statements (c : Cursor) (depth : c.inlineDepth = 0) :
    (statements [] c).next.rest = [] := by
  cases next : c.skipSeparators.rest with
  | nil =>
      rw [statements_of_end next]
      exact next
  | cons t ts =>
      have before : c.skipSeparators.size ≤ c.size := c.size_skipUntil_le _
      have progress := size_labelledStatement_lt (atStatementEnd_skipSeparators depth next)
      have behind := (labelledStatement c.skipSeparators).behind
      rw [statements_of_statement next rfl]
      simp only [Step.andThen, Step.widen, if_pos progress]
      exact rest_statements _ (behind.inlineDepth.trans depth)
termination_by c.size

/-- A whole text is read: reading ends behind the last token, and outside of every one-line `if`.
It takes a course of small moves on which the position never goes back and never leaves the text.
No block stands still, since a statement that does not end where it begins is read from at least
one token; and no token is passed over by force, since a statement is always read to its end. -/
theorem block_reads_all (tokens : List Token) (stop : Nat) :
    let first := Cursor.before tokens stop
    let last := (block [] first).next
    last.pos = tokens.length ∧ last.rest = [] ∧ last.inlineDepth = 0 ∧
      (∃ path : List Cursor, (first :: path).getLast (List.cons_ne_nil _ _) = last ∧
        (first :: path).IsChain Move ∧ (first :: path).Pairwise (·.pos ≤ ·.pos) ∧
        ∀ c ∈ first :: path, c.pos ≤ tokens.length) ∧
      (∀ e ∈ last.errors, e.fault ≠ .unexpectedToken) ∧
      (∀ c : Cursor, c.atStatementEnd = false → (labelledStatement c).next.size < c.size) ∧
      (∀ c d : Cursor, forceProgress d (endStatement c).next = .pure (endStatement c).next ()) := by
  intro first last
  have course : Course first last := (block_runs [] first).1.course
  have rest : last.rest = [] := by
    show (block [] first).next.rest = []
    rw [block]
    exact rest_statements (first.withInlineDepth 0) rfl
  have size : last.size = 0 := by simp [size, rest]
  have kept : last.pos + last.size = 0 + tokens.length := course.pos_add_size
  refine ⟨by omega, rest, (block [] first).behind.inlineDepth, ?_, ?_, ?_, ?_⟩
  · obtain ⟨path, ends, chain, sorted, within⟩ := course.exists_path
    refine ⟨path, ends, chain, sorted, fun c member => ?_⟩
    have bound : c.pos ≤ 0 + tokens.length := within c member
    omega
  · intro e found
    exact (course.noted found).elim (fun noted => by cases noted) id
  · intro c inside
    exact size_labelledStatement_lt inside
  · intro c d
    exact forceProgress_of_atStatementEnd d (atStatementEnd_endStatement c)

/-- A block begins inside of a one-line `if`, and a token that fits nowhere ends the text. -/
theorem block_reads_all_blockInInlineIf :
    let tokens := withoutBlanks (tokenize "if a then while b; wend else ~")
    let first := Cursor.before tokens 30
    first.atStatementEnd = false ∧ (labelledStatement first).next.size < first.size ∧
      (block [] first).next.pos = tokens.length :=
  have reads := block_reads_all (withoutBlanks (tokenize "if a then while b; wend else ~")) 30
  ⟨by decide +kernel, reads.2.2.2.2.2.1 _ (by decide +kernel), reads.1⟩

end BbjAnalysis.Parser
