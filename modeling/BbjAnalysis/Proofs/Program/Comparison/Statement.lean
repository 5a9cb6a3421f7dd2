import BbjAnalysis.Proofs.Program.Comparison.Simple

/-! # Two runs that read a program

Headers, statements and blocks pass the comparison. A block is special: where the second text
goes on behind the first, a block that the end of the first text ends is a block that the second
may go on with. Such a block is never closed, and all blocks but that of the program report it
(`Blocks`).
-/

namespace BbjAnalysis.Comparison

open BbjAnalysis.Parser Cursor
open Relabelling (relabel_statement)

variable {K : Comparison} {c d : Cursor} {m m' : Mark}

/-! ## Labels and the ends of statements -/

theorem label_steps (h : K.Cursors c d) : K.Steps (label c) (label d) := by
  rcases h.cases with ⟨ends, ends', -⟩ | ⟨t, ts, u, us, next, next', same, -⟩
  · simp only [label, ends, ends']
    exact .pure h rfl
  · simp only [label, next, next']
    refine .ite (by rw [h.atPair (by decide)]) (fun pair _ => ?_) (fun _ => .pure h rfl)
    have name : c.skipId.skipId.isAt .ident = true := isAt_of_atPair pair
    have colon : c.skipId.skipId.bump.isAt .colon = true := isAt_bump_of_atPair pair
    have first := h.skipId.skipId.bumpAt name (by decide)
    have second := first.bumpAt colon (by decide)
    refine ⟨congrArg some ((Statement.label.injEq ..).mpr ⟨?_, ?_⟩), second⟩
    · exact (Node.mk.injEq ..).mpr ⟨h.nextId, second.spanFrom h.offset⟩
    · exact (Ident.mk.injEq ..).mpr ⟨h.skipId.nextId, same.text, same.span⟩

theorem skipToStatementEnd (h : K.Cursors c d) :
    K.Cursors c.skipToStatementEnd d.skipToStatementEnd :=
  h.skipWithinLine h.endsStatement fun t newline => by
    simp [endsStatement, TokenKind.isStatementEnd, newline]

theorem endStatement_steps (h : K.Cursors c d) : K.Steps (endStatement c) (endStatement d) :=
  .ite (by rw [h.atStatementEnd]) (fun _ => .pure h rfl)
    (fun _ _ => ⟨rfl, skipToStatementEnd (h.report rfl)⟩)

/-! ## Headers -/

theorem paramList_steps {c d : Cursor} (h : K.Cursors c d) (typed : Bool) :
    K.Steps (paramList typed c) (paramList typed d) := by
  rw [paramList, paramList]
  have type : K.Steps
      (if typed then (typeRef c.skipId).map (·.map some) else .pure c.skipId (some none))
      (if typed then (typeRef d.skipId).map (·.map some) else .pure d.skipId (some none)) := by
    refine .ite .rfl (fun _ => ?_) (fun _ => .pure h.skipId rfl)
    exact (typeRef_steps h.skipId).map fun both => both.mapOption (congrArg some)
  refine .widen ?_ _ _
  apply type.ifSome
  intro type type' e e' (l : e.size ≤ c.size) _ sameType after
  apply (ident_steps after .parameterName).ifSome
  intro name name' f f' k k' named further
  have param : K.Alike (⟨c.nextId, type, name⟩ : Param) ⟨d.nextId, type', name'⟩ :=
    (Param.mk.injEq ..).mpr ⟨h.nextId, sameType, named⟩
  refine .dite (by rw [further.isAt]) (fun next _ => ?_) (fun _ _ => ?_)
  · have shorter : f.bump.size < f.size := size_bump_lt_of_isAt next
    have before : f.size ≤ c.size := Nat.le_trans k l
    exact .widen (.map (paramList_steps (further.bumpAt next (by decide)) typed)
      fun more => more.mapOption (.cons param)) _ _
  · exact .pure further (congrArg some (Alike.cons param rfl))
termination_by c.size

theorem params_steps (h : K.Cursors c d) (typed : Bool) :
    K.Steps (params typed c) (params typed d) := by
  apply (expect_steps h (by decide) .openParen).ifTrue
  intro e e' l l' after
  refine .ite (by rw [after.isAt]) (fun next _ => ⟨rfl, after.bumpAt next (by decide)⟩)
    (fun _ => ?_)
  apply (paramList_steps after typed).ifSome
  intro list list' f f' k k' same further
  exact (expect_steps further (by decide) .closeParen).map fun _ => congrArg some same

theorem heritage_steps {c d : Cursor} (h : K.Cursors c d) :
    K.Steps (heritage c) (heritage d) := by
  rw [heritage, heritage]
  refine .dite (by rw [h.atKeyword]) (fun next _ => ?_) (fun _ _ => ?_)
  · have shorter : c.bump.size < c.size := size_bump_lt (rest_ne_nil_of_atKeyword next)
    refine .widen ?_ _ _
    apply (typeList_steps (h.bumpKeyword next)).andThen
    intro types types' e e' l l' same after
    refine (heritage_steps after).map fun {a b} more => ?_
    exact (Prod.mk.injEq ..).mpr ⟨same.append (congrArg Prod.fst more), congrArg Prod.snd more⟩
  · refine .dite (by rw [h.atKeyword]) (fun next _ => ?_) (fun _ _ => .pure h rfl)
    have shorter : c.bump.size < c.size := size_bump_lt (rest_ne_nil_of_atKeyword next)
    refine .widen ?_ _ _
    apply (typeList_steps (h.bumpKeyword next)).andThen
    intro types types' e e' l l' same after
    refine (heritage_steps after).map fun {a b} more => ?_
    exact (Prod.mk.injEq ..).mpr ⟨congrArg Prod.fst more, same.append (congrArg Prod.snd more)⟩
termination_by c.size

theorem endClassHeader_steps (h : K.Cursors c d) :
    K.Steps (endClassHeader c) (endClassHeader d) :=
  .ite (by rw [h.atStatementEnd]) (fun _ => .pure h rfl)
    (fun _ _ => ⟨rfl, skipToStatementEnd (h.report rfl)⟩)

theorem classHead_steps (h : K.Cursors c d) (isInterface : Bool) :
    K.Steps (classHead isInterface c) (classHead isInterface d) := by
  apply (modifier_steps h).andThen
  intro modifier modifier' e₁ e₁' _ _ sameModifier h₁
  apply (ident_steps h₁ .className).ifSome
  intro name name' e₂ e₂' _ _ named h₂
  apply (heritage_steps h₂).andThen
  intro types types' e₃ e₃' _ _ same h₃
  refine (endClassHeader_steps h₃).map fun _ => congrArg some ?_
  exact (ClassHead.mk.injEq ..).mpr ⟨rfl, alike_modifier sameModifier, named,
    congrArg Prod.fst same, congrArg Prod.snd same⟩

/-- The token behind the next is the same, but where the first text ends with the next one. -/
theorem Cursors.kindAt_one_or_last (h : K.Cursors c d) :
    c.kindAt 1 = d.kindAt 1 ∨ K.tail ≠ none ∧ c.kindAt 1 = none ∧ c.isAt .newline = true := by
  have tokens := h.rest
  generalize hc : c.rest = ts at tokens
  generalize hd : d.rest = us at tokens
  cases tokens with
  | nil => exact .inl (by simp [kindAt, hc, hd])
  | cons same rest =>
      refine .inl ?_
      rw [kindAt, hc, kindAt, hd, List.getElem?_cons_succ, List.getElem?_cons_succ,
        ← List.head?_eq_getElem?, rest.head_kind, List.head?_eq_getElem?]
  | line same newline goesOn =>
      refine .inr ⟨?_, by simp [kindAt, hc], (isAt_iff_head hc _).mpr newline⟩
      rw [goesOn]
      exact Option.some_ne_none _

/-- The token behind the next decides whether a type comes first. Where the next token ends the
last line there is no type in either case, and this is reported. -/
theorem returnType_steps (h : K.Cursors c d) :
    K.Steps
      (if c.kindAt 1 = some .lparen then .pure c (some none)
        else (typeRef c).map (·.map some) : Step c (Option (Option TypeRef)))
      (if d.kindAt 1 = some .lparen then .pure d (some none)
        else (typeRef d).map (·.map some)) := by
  rcases h.kindAt_one_or_last with same | ⟨lines, last, newline⟩
  · refine .ite (by rw [same]) (fun _ => .pure h rfl) (fun _ => ?_)
    exact (typeRef_steps h).map fun both => both.mapOption (congrArg some)
  · have noParen : c.kindAt 1 ≠ some .lparen := by simp [last]
    have noType : ¬ c.isAt .ident = true := by
      rw [isAt, beq_iff_eq.mp newline]
      decide
    rw [if_neg noParen, typeRef, if_neg noType]
    exact .ofFault lines (Behind.refl _)

theorem methodHead_steps (h : K.Cursors c d) : K.Steps (methodHead c) (methodHead d) := by
  apply (modifier_steps h).andThen
  intro modifier modifier' e₁ e₁' _ _ sameModifier h₁
  apply (eatKeyword_steps h₁ "static").andThen
  intro isStatic isStatic' e₂ e₂' _ _ sameStatic h₂
  apply (returnType_steps h₂).ifSome
  intro type type' e₃ e₃' _ _ typed h₃
  apply (ident_steps h₃ .methodName).ifSome
  intro name name' e₄ e₄' _ _ named h₄
  refine (params_steps h₄ true).map fun both => both.mapOption fun same => ?_
  exact (MethodHead.mk.injEq ..).mpr
    ⟨alike_modifier sameModifier, sameStatic, typed, named, same⟩

theorem procedureHead_steps (h : K.Cursors c d) :
    K.Steps (procedureHead c) (procedureHead d) := by
  apply (eatKeyword_steps h "public").andThen
  intro isPublic isPublic' e e' l l' samePublic after
  apply (ident_steps after .functionName).ifSome
  intro name name' f f' k k' named further
  refine .ite (by rw [further.isAt]) (fun _ => ?_) (fun _ => .pure further (congrArg some
    ((ProcedureHead.mk.injEq ..).mpr ⟨samePublic, named, rfl⟩)))
  refine (params_steps further false).map fun both => both.mapOption fun same => ?_
  exact (ProcedureHead.mk.injEq ..).mpr ⟨samePublic, named, same⟩

theorem forHead_steps (h : K.Cursors c d) : K.Steps (forHead c) (forHead d) := by
  apply (ident_steps h .loopVariable).ifSome
  intro name name' e₁ e₁' _ _ named h₁
  apply (expect_steps h₁ (by decide) .equals).ifTrue
  intro e₂ e₂' _ _ h₂
  apply (expr_steps h₂).andThen
  intro first first' e₃ e₃' _ _ sameFirst h₃
  refine .ite (by rw [h₃.atKeyword]) (fun next => ?_) (fun _ => fail_steps h₃ _ rfl)
  refine .widen ?_ _ _
  apply (expr_steps (h₃.bumpKeyword next)).andThen
  intro last last' e₄ e₄' _ _ sameLast h₄
  apply (eatKeyword_steps h₄ "step").andThen
  intro hasStep hasStep' e₅ e₅' _ _ same h₅
  obtain rfl : hasStep = hasStep' := same
  refine .ite .rfl (fun _ => ?_) (fun _ => ?_)
  · refine (expr_steps h₅).map fun step => congrArg some ?_
    exact (ForHead.mk.injEq ..).mpr ⟨named, sameFirst, sameLast, congrArg some step⟩
  · exact .pure h₅ (congrArg some ((ForHead.mk.injEq ..).mpr ⟨named, sameFirst, sameLast, rfl⟩))

theorem nextVariable_steps (h : K.Cursors c d) : K.Steps (nextVariable c) (nextVariable d) :=
  .ite (by rw [h.isAt]) (fun _ => ident_steps h _) (fun _ => .pure h rfl)

/-! ## Blocks -/

/-- Alike blocks in front of cursors that stand alike, at the closing word if there is one. -/
structure SameBlock (K : Comparison) (a b : Block) (e e' : Cursor) : Prop where
  statements : K.Alike a.statements b.statements
  closer : a.closer = b.closer
  cursors : K.Cursors e e'
  found : ∀ word, a.closer = some word → e.atKeyword word = true

/-- The steps yield alike blocks, but for a block that runs up to the end of the first text where
the second text goes on. -/
def Blocks (r : Step c Block) (s : Step d Block) : Prop :=
  K.Covers r.next → K.tail = none ∨ r.value.closer ≠ none →
    K.SameBlock r.value s.value r.next s.next

theorem closeBlock_steps (h : K.Cursors c d) {found : Option String} (word : String)
    (closer : ∀ w, found = some w → c.atKeyword w = true) :
    K.Steps (closeBlock found word c) (closeBlock found word d) := by
  refine .ite .rfl (fun isFound _ => ?_) (fun _ _ => ⟨rfl, h.report rfl⟩)
  obtain ⟨w, eq⟩ := Option.isSome_iff_exists.mp isFound
  exact ⟨rfl, h.bumpKeyword (closer w eq)⟩

section Blocks

variable {α : Type} [Labelled α] {r : Step c Block} {s : Step d Block}

theorem Blocks.pure (h : K.Cursors c d) (closer : Option String)
    (found : ∀ word, closer = some word → c.atKeyword word = true) :
    K.Blocks (.pure c ⟨[], closer⟩) (.pure d ⟨[], closer⟩) :=
  fun _ _ => ⟨rfl, rfl, h, found⟩

theorem Blocks.widen (h : K.Blocks r s) {c₀ d₀ : Cursor} (before : c.Behind c₀)
    (before' : d.Behind d₀) : K.Blocks (r.widen before) (s.widen before') := h

/-- More statements before those of a block. -/
theorem Blocks.prepend (h : K.Blocks r s) {found found' : List Statement}
    (alike : K.Alike found found') :
    K.Blocks (r.map fun more => { more with statements := found ++ more.statements })
      (s.map fun more => { more with statements := found' ++ more.statements }) := by
  intro covers told
  have same := h covers told
  exact ⟨alike.append same.statements, same.closer, same.cursors, same.found⟩

/-- A block behind something else. -/
theorem Steps.andThenBlock {r : Step c α} {s : Step d α} (h : K.Steps r s)
    {f : (a : α) → (e : Cursor) → e.size ≤ c.size → Step e Block}
    {g : (a : α) → (e : Cursor) → e.size ≤ d.size → Step e Block}
    (next : ∀ {a b e e'} (l : e.size ≤ c.size) (l' : e'.size ≤ d.size),
      K.Alike a b → K.Cursors e e' → K.Blocks (f a e l) (g b e' l')) :
    K.Blocks (r.andThen f) (s.andThen g) := by
  intro covers told
  obtain ⟨alike, cursors⟩ := h (covers.before (f r.value r.next r.size_le).behind)
  exact next r.size_le s.size_le alike cursors covers told

/-- To go on behind a block that the end of the text may have ended. -/
theorem Blocks.andThen (h : K.Blocks r s)
    {f : (a : Block) → (e : Cursor) → e.size ≤ c.size → Step e α}
    {g : (a : Block) → (e : Cursor) → e.size ≤ d.size → Step e α}
    (ends : K.tail ≠ none → r.value.closer = none → ¬ K.Covers (r.andThen f).next)
    (next : ∀ {a b e e'} (l : e.size ≤ c.size) (l' : e'.size ≤ d.size), K.SameBlock a b e e' →
      K.Steps (f a e l) (g b e' l')) : K.Steps (r.andThen f) (s.andThen g) := by
  intro covers
  have told : K.tail = none ∨ r.value.closer ≠ none := by
    by_cases lines : K.tail = none
    · exact .inl lines
    · exact .inr fun closer => ends lines closer covers
  exact next r.size_le s.size_le (h (covers.before (f r.value r.next r.size_le).behind) told) covers

/-- To read the closing word of a block and go on. -/
theorem Blocks.closed (h : K.Blocks r s) (word : String)
    {f : Block → (e : Cursor) → Step e α} {g : Block → (e : Cursor) → Step e α}
    (next : ∀ {a b e e'} (_ : e.size ≤ c.size), K.Alike a.statements b.statements →
      K.Cursors e e' → K.Steps (f a e) (g b e')) :
    K.Steps
      (r.andThen fun body e _ =>
        (closeBlock body.closer word e).andThen fun _ e' _ => f body e')
      (s.andThen fun body e _ =>
        (closeBlock body.closer word e).andThen fun _ e' _ => g body e') := by
  refine h.andThen ?_ fun {a b e e'} l l' same => ?_
  · intro lines closer
    have reported : (closeBlock r.value.closer word r.next).next.Behind
        (r.next.report (.missingCloser word)) := by
      rw [closer]
      exact .refl _
    have behind := (f r.value (closeBlock r.value.closer word r.next).next).behind
    exact not_covers_report lines (behind.trans reported)
  · rw [← same.closer]
    apply (closeBlock_steps same.cursors word same.found).andThen
    intro _ _ e₁ e₁' (k : e₁.size ≤ e.size) _ _ after
    exact next (Nat.le_trans k l) same.statements after

end Blocks

/-! ## Statements -/

theorem announcedBy_alike {t u : Token} (same : K.SameToken t u) :
    announcedBy t = announcedBy u := by
  unfold announcedBy
  rw [same.kind, same.toLower_text]

theorem alike_toList {α : Type} [Labelled α] {a? b? : Option α} (both : K.Alike a? b?) :
    K.Alike a?.toList b?.toList := by
  rcases both.option with ⟨rfl, rfl⟩ | ⟨a, b, rfl, rfl, same⟩
  · rfl
  · exact .cons same rfl

theorem skipSeparators (h : K.Cursors c d)
    (more : K.tail = none ∨ c.skipSeparators.rest ≠ []) :
    K.Cursors c.skipSeparators d.skipSeparators :=
  h.skipUntil (fun same => by rw [same.kind]) more

theorem branch_alike {n n' : Node} (node : K.Alike n n') {condition condition' : Expr}
    (same : K.Alike condition condition') {first first' second second' : List Statement}
    (one : K.Alike first first') (two : K.Alike second second') :
    K.Alike (Statement.branch n condition first second)
      (Statement.branch n' condition' first' second') := by
  rw [Alike, relabel_statement, relabel_statement]
  simp only [node, same, one, two]

/-- An `if` on one line ends the depth that its branches are read in. -/
theorem branch_steps {r : Step c (List Statement × List Statement)}
    {s : Step d (List Statement × List Statement)} (h : K.Steps r s) (mark : K.SameMark m m')
    {condition condition' : Expr} (same : K.Alike condition condition') {c₀ d₀ : Cursor}
    (behind : (r.next.withInlineDepth (r.next.inlineDepth - 1)).Behind c₀)
    (behind' : (s.next.withInlineDepth (s.next.inlineDepth - 1)).Behind d₀) :
    K.Steps
      (⟨some (Statement.branch ((r.next.withInlineDepth (r.next.inlineDepth - 1)).close m)
          condition r.value.1 r.value.2),
        r.next.withInlineDepth (r.next.inlineDepth - 1), behind⟩ : Step c₀ (Option _))
      ⟨some (Statement.branch ((s.next.withInlineDepth (s.next.inlineDepth - 1)).close m')
          condition' s.value.1 s.value.2),
        s.next.withInlineDepth (s.next.inlineDepth - 1), behind'⟩ := by
  intro covers
  obtain ⟨branches, after⟩ := h covers
  have last := after.withInlineDepth (congrArg (· - 1) after.inlineDepth)
  exact ⟨congrArg some (branch_alike (last.close mark) same (congrArg Prod.fst branches)
    (congrArg Prod.snd branches)), last⟩

mutual

theorem statement_steps {c d : Cursor} (h : K.Cursors c d) :
    K.Steps (statement c) (statement d) := by
  rw [statement.eq_def d]
  split
  · next hd =>
    rw [statement.eq_def c]
    split
    · exact .pure h rfl
    · next hc => cases hc.symm.trans (h.rest_eq_nil_iff.mpr hd)
  · next u us hd =>
    rw [statement.eq_def c]
    split
    · next hc => cases hd.symm.trans (h.rest_eq_nil_iff.mp hc)
    · next t ts hc =>
      have same := h.sameToken hc hd
      have shorter : c.skipId.bump.size < c.size :=
        size_bump_lt (c := c.skipId) (by simp [skipId, hc])
      refine .ite (by rw [h.atStatementEnd]) (fun _ => .pure h rfl) (fun inside => ?_)
      refine .ite (by rw [funext same.isKeyword]) (fun _ _ => ?_) (fun _ => ?_)
      · have reported :
            K.Cursors (c.report (.strayCloser t.text)) (d.report (.strayCloser u.text)) :=
          h.report (congrArg Fault.strayCloser same.text)
        exact ⟨rfl, reported.bump (within_of_not_atStatementEnd (c := c) inside)⟩
      · have mark : K.SameMark ⟨c.nextId, c.offset⟩ ⟨d.nextId, d.offset⟩ := ⟨h.nextId, h.offset⟩
        have behind : K.Cursors c.skipId.bump d.skipId.bump :=
          h.skipId.bump (within_of_not_atStatementEnd (c := c) inside)
        rw [← announcedBy_alike same]
        cases announcedBy t with
        | none => exact (bareStatement_steps h.skipId mark).widen _ _
        | some word =>
            cases word with
            | inl word => exact (simpleStatement_steps behind mark word).widen _ _
            | inr word => exact (blockStatement_steps behind mark word).widen _ _
termination_by c.size * 8

theorem labelledStatement_steps {c d : Cursor} (h : K.Cursors c d) :
    K.Steps (labelledStatement c) (labelledStatement d) := by
  rw [labelledStatement_eq, labelledStatement_eq]
  apply (label_steps h).andThen
  intro found found' e e' l l' both after
  have isSome : found.isSome = found'.isSome := by
    rcases both.option with ⟨rfl, rfl⟩ | ⟨s, s', rfl, rfl, -⟩ <;> rfl
  refine .ite (by rw [isSome, after.atStatementEnd]) (fun _ => .pure after (alike_toList both))
    (fun _ => ?_)
  apply (statement_steps after).andThen
  intro more more' f f' k k' further last
  exact (endStatement_steps last).map fun _ => (alike_toList both).append (alike_toList further)
termination_by c.size * 8 + 1

theorem statements_blocks {c d : Cursor} (h : K.Cursors c d) (closers : List String) :
    K.Blocks (statements closers c) (statements closers d) := by
  have before : c.skipSeparators.size ≤ c.size := c.size_skipUntil_le _
  cases next : c.skipSeparators.rest with
  | nil =>
      intro _ told
      rw [statements_of_end next] at told ⊢
      have last : K.tail = none := told.elim id (absurd rfl)
      have skipped := skipSeparators h (.inl last)
      rw [statements_of_end (skipped.rest_eq_nil_iff.mp next)]
      exact ⟨rfl, rfl, skipped, fun _ none => by cases none⟩
  | cons t ts =>
      have skipped := skipSeparators h (.inr (by rw [next]; exact List.cons_ne_nil _ _))
      rcases skipped.cases with ⟨ends, -, -⟩ | ⟨_, _, u, us, next₁, next', same, -⟩
      · cases next.symm.trans ends
      cases next.symm.trans next₁
      have sameCloser : closers.find? u.isKeyword = closers.find? t.isKeyword := by
        rw [funext same.isKeyword]
      cases closer : closers.find? t.isKeyword with
      | some word =>
          rw [statements_of_closer next closer,
            statements_of_closer next' (sameCloser.trans closer)]
          refine .widen (.pure skipped _ fun word' eq => ?_) _ _
          obtain rfl : word = word' := Option.some.inj eq
          simpa only [atKeyword, next] using List.find?_some closer
      | none =>
          rw [statements_of_statement next closer,
            statements_of_statement next' (sameCloser.trans closer)]
          refine .widen ?_ _ _
          apply (labelledStatement_steps skipped).andThenBlock
          intro found found' e e' l l' alike after
          by_cases shorter : e.size < c.skipSeparators.size
          · rw [if_pos shorter, if_pos (by rw [after.size, skipped.size]; omega)]
            exact (statements_blocks after closers).prepend alike
          · rw [if_neg shorter, if_neg (by rw [after.size, skipped.size]; omega)]
            have progress := size_bump_report_lt next shorter
            refine .widen ?_ _ _
            by_cases last : K.tail = none
            · have reported : K.Cursors (e.report .unexpectedToken) (e'.report .unexpectedToken) :=
                after.report rfl
              exact (statements_blocks (reported.bump (.inl last)) closers).prepend alike
            · intro covers
              exact absurd covers (not_covers_report last ((Step.behind _).trans (bump_behind _)))
termination_by c.size * 8 + 2

theorem block_blocks {c d : Cursor} (h : K.Cursors c d) (closers : List String) :
    K.Blocks (block closers c) (block closers d) := by
  rw [block, block]
  intro covers told
  have same := statements_blocks (h.withInlineDepth rfl) closers covers told
  exact ⟨same.statements, same.closer, same.cursors.withInlineDepth h.inlineDepth, same.found⟩
termination_by c.size * 8 + 3

theorem inlineStatements_steps {c d : Cursor} (h : K.Cursors c d) :
    K.Steps (inlineStatements c) (inlineStatements d) := by
  rw [inlineStatements, inlineStatements]
  apply (labelledStatement_steps h).andThen
  intro found found' e e' l l' same after
  refine .dite (by rw [after.isAt]) (fun next _ => ?_) (fun _ _ => .pure after same)
  have shorter : e.bump.size < e.size := size_bump_lt_of_isAt next
  have behind := after.bumpAt next (by decide)
  refine .ite (by rw [behind.atEnd, behind.isAt]) (fun _ _ => ⟨same, behind⟩) (fun _ => ?_)
  exact .widen (.map (inlineStatements_steps behind) same.append) _ _
termination_by c.size * 8 + 2

theorem blockIf_steps {c d : Cursor} (h : K.Cursors c d) {m m' : Mark} (mark : K.SameMark m m')
    {condition condition' : Expr} (same : K.Alike condition condition') :
    K.Steps (blockIf m condition c) (blockIf m' condition' d) := by
  rw [blockIf, blockIf]
  refine (block_blocks h _).andThen ?_ fun {first first' e e'} l l' block => ?_
  · intro lines closer
    generalize Parser.block ["else", "fi", "endif"] c = r at *
    obtain ⟨⟨statements, found⟩, e, behind⟩ := r
    obtain rfl : found = none := closer
    exact not_covers_report lines (Behind.refl (e.report (.missingCloser "fi")))
  · have shorter : e.bump.size ≤ e.size := e.size_bump_le
    refine .ite (by rw [block.closer]) (fun isElse => ?_) (fun _ => ?_)
    · refine .widen ?_ _ _
      apply (block_blocks (block.cursors.bumpKeyword (block.found _ isElse)) _).closed
      intro second second' f f' k sameSecond last
      exact done_steps last mark fun node => branch_alike node same block.statements sameSecond
    · rw [← block.closer]
      apply (closeBlock_steps block.cursors "fi" block.found).andThen
      intro _ _ f f' k k' _ last
      exact done_steps last mark fun node => branch_alike node same block.statements rfl
termination_by c.size * 8 + 4

theorem inlineIf_steps {c d : Cursor} (h : K.Cursors c d) {m m' : Mark} (mark : K.SameMark m m')
    {condition condition' : Expr} (same : K.Alike condition condition') :
    K.Steps (inlineIf m condition c) (inlineIf m' condition' d) := by
  have sameSize : (c.withInlineDepth (c.inlineDepth + 1)).size = c.size := size_withInlineDepth ..
  rw [inlineIf, inlineIf]
  refine branch_steps ?_ mark same _ _
  apply (inlineStatements_steps (h.withInlineDepth (congrArg (· + 1) h.inlineDepth))).andThen
  intro first first' e e' (l : e.size ≤ c.size) _ one after
  apply (eatKeyword_steps after "else").andThen
  intro hasElse hasElse' f f' k k' sameForm further
  obtain rfl : hasElse = hasElse' := sameForm
  refine .ite .rfl (fun _ => ?_) (fun _ => ?_)
  · exact (inlineStatements_steps further).map fun two => (Prod.mk.injEq ..).mpr ⟨one, two⟩
  · exact .pure further ((Prod.mk.injEq ..).mpr ⟨one, rfl⟩)
termination_by c.size * 8 + 4

theorem blockStatement_steps {c d : Cursor} (h : K.Cursors c d) {m m' : Mark}
    (mark : K.SameMark m m') (word : BlockWord) :
    K.Steps (blockStatement m c word) (blockStatement m' d word) := by
  rw [blockStatement.eq_def m c word, blockStatement.eq_def m' d word]
  cases word with
  | classWord isInterface =>
      apply (classHead_steps h isInterface).ifSome
      intro head head' e e' l l' sameHead after
      apply (block_blocks after _).closed
      intro body body' f f' k members last
      refine done_steps last mark fun {n n'} node => ?_
      rw [Alike, relabel_statement, relabel_statement]
      simp only [node, sameHead, members]
  | method =>
      apply (methodHead_steps h).ifSome
      intro head head' e e' l l' sameHead after
      apply (block_blocks after _).closed
      intro body body' f f' k sameBody last
      refine done_steps last mark fun {n n'} node => ?_
      rw [Alike, relabel_statement, relabel_statement]
      simp only [node, sameHead, sameBody]
  | procedure =>
      apply (procedureHead_steps h).ifSome
      intro head head' e e' l l' sameHead after
      apply (eat_steps after (by decide)).andThen
      intro isInline isInline' f f' k k' sameForm further
      obtain rfl : isInline = isInline' := sameForm
      refine .ite .rfl (fun _ => ?_) (fun _ => ?_)
      · apply (expr_steps further).andThen
        intro body body' g g' m m' sameBody last
        exact done_steps last mark fun node =>
          (Statement.inlineProcedure.injEq ..).mpr ⟨node, sameHead, sameBody⟩
      · apply (block_blocks further _).closed
        intro body body' g g' m sameBody last
        refine done_steps last mark fun {n n'} node => ?_
        rw [Alike, relabel_statement, relabel_statement]
        simp only [node, sameHead, sameBody]
  | ifWord =>
      apply (expr_steps h).andThen
      intro condition condition' e e' l l' same after
      refine .ite (by rw [after.atKeyword]) (fun next => ?_) (fun _ => fail_steps after _ rfl)
      have shorter : e.bump.size ≤ e.size := e.size_bump_le
      have behind := after.bumpKeyword next
      refine .widen (.ite (by rw [behind.atEnd, behind.isAt]) (fun _ => ?_) (fun _ => ?_)) _ _
      · exact blockIf_steps behind mark same
      · exact inlineIf_steps behind mark same
  | forWord =>
      apply (forHead_steps h).ifSome
      intro head head' e e' l l' sameHead after
      apply (block_blocks after _).closed
      intro body body' f f' k sameBody further
      apply (nextVariable_steps further).andThen
      intro next next' g g' m m' sameNext last
      refine done_steps last mark fun {n n'} node => ?_
      rw [Alike, relabel_statement, relabel_statement]
      simp only [node, sameHead, sameBody, sameNext]
  | whileWord =>
      apply (expr_steps h).andThen
      intro condition condition' e e' l l' same after
      apply (block_blocks after _).closed
      intro body body' f f' k sameBody last
      refine done_steps last mark fun {n n'} node => ?_
      rw [Alike, relabel_statement, relabel_statement]
      simp only [node, same, sameBody]
termination_by c.size * 8 + 5

end

end BbjAnalysis.Comparison
