import BbjAnalysis.Proofs.Program.Comparison.Expr

/-! # Two runs that read a statement without a block

The functions that read the statements of one line pass the comparison, each by the steps it
is put together from.
-/

namespace BbjAnalysis.Comparison

open BbjAnalysis.Parser Cursor
open Relabelling (relabel_statement)

variable {K : Comparison} {c d : Cursor}

/-! ## Marks -/

structure SameMark (K : Comparison) (m m' : Mark) : Prop where
  id : K.SameId m.id m'.id
  start : K.SameOffset m.start m'.start

variable {m m' : Mark}

theorem Cursors.close (h : K.Cursors c d) (mark : K.SameMark m m') :
    K.Alike (c.close m) (d.close m') :=
  (Node.mk.injEq ..).mpr ⟨mark.id, h.spanFrom mark.start⟩

theorem done_steps (h : K.Cursors c d) (mark : K.SameMark m m') {make make' : Node → Statement}
    (alike : ∀ {n n' : Node}, K.Alike n n' → K.Alike (make n) (make' n')) :
    K.Steps (done m c make) (done m' d make') :=
  .pure h (congrArg some (alike (h.close mark)))

/-! ## Lists of names -/

theorem identList_steps {c d : Cursor} (h : K.Cursors c d) (what : Expectation) :
    K.Steps (identList what c) (identList what d) := by
  rw [identList, identList]
  apply (ident_steps h what).ifSome
  intro name name' e e' l l' same after
  refine .dite (by rw [after.isAt]) (fun next _ => ?_) (fun _ _ => ?_)
  · have shorter : e.bump.size < e.size := size_bump_lt_of_isAt next
    exact .widen (.map (identList_steps (after.bumpAt next (by decide)) what)
      fun more => more.mapOption (.cons same)) _ _
  · exact .pure after (congrArg some (Alike.cons same rfl))
termination_by c.size

theorem typeList_steps {c d : Cursor} (h : K.Cursors c d) :
    K.Steps (typeList c) (typeList d) := by
  rw [typeList, typeList]
  apply (typeRef_steps h).andThen
  intro found found' e e' l l' both after
  rcases both.option with ⟨rfl, rfl⟩ | ⟨type, type', rfl, rfl, same⟩
  · exact .pure after rfl
  · refine .dite (by rw [after.isAt]) (fun next _ => ?_) (fun _ _ => ?_)
    · have shorter : e.bump.size < e.size := size_bump_lt_of_isAt next
      exact .widen (.map (typeList_steps (after.bumpAt next (by decide))) (.cons same)) _ _
    · exact .pure after (.cons same rfl)
termination_by c.size

theorem modifier_steps (h : K.Cursors c d) : K.Steps (modifier c) (modifier d) := by
  unfold modifier
  refine .ite (by rw [h.atKeyword]) (fun next _ => ⟨rfl, h.bumpKeyword next⟩) (fun _ => ?_)
  refine .ite (by rw [h.atKeyword]) (fun next _ => ⟨rfl, h.bumpKeyword next⟩) (fun _ => ?_)
  exact .ite (by rw [h.atKeyword]) (fun next _ => ⟨rfl, h.bumpKeyword next⟩)
    (fun _ => .pure h rfl)

theorem join_of_forall₂ {ts us : List Token} (same : List.Forall₂ K.SameToken ts us) :
    K.Alike (String.join (ts.map (·.text))) (String.join (us.map (·.text))) := by
  have texts : (ts.map (·.text)).map K.first.text = (us.map (·.text)).map K.second.text := by
    induction same with
    | nil => rfl
    | cons same _ ih => exact (List.cons.injEq ..).mpr ⟨same.text, ih⟩
  show K.first.text _ = K.second.text _
  rw [Relabelling.text_join, texts, Relabelling.text_join]

theorem alike_modifier {a b : Option Modifier} (both : K.Alike a b) : a = b := by
  rcases both.option with ⟨rfl, rfl⟩ | ⟨x, y, rfl, rfl, same⟩
  · rfl
  · exact congrArg some same

/-! ## Declarations -/

theorem assignment_steps (h : K.Cursors c d) (mark : K.SameMark m m') (explicitLet : Bool) :
    K.Steps (assignment m explicitLet c) (assignment m' explicitLet d) := by
  apply (eat_steps h (by decide)).andThen
  intro isField isField' e e' l l' same after
  obtain rfl : isField = isField' := same
  apply (ident_steps after _).ifSome
  intro name name' f f' k k' named further
  apply (expect_steps further (by decide) .equals).ifTrue
  intro g g' m m' behind
  apply (expr_steps behind).andThen
  intro value value' i i' n n' alike last
  refine done_steps last mark fun {n n'} node => ?_
  rw [Alike, relabel_statement, relabel_statement]
  have target : K.Alike (if isField then AssignTarget.field name else .var name)
      (if isField then .field name' else .var name') := by
    cases isField
    · exact congrArg AssignTarget.var named
    · exact congrArg AssignTarget.field named
  simp only [node, target, alike]

theorem declare_steps (h : K.Cursors c d) (mark : K.SameMark m m') :
    K.Steps (declare m c) (declare m' d) := by
  apply (eatKeyword_steps h "auto").andThen
  intro auto auto' e e' l l' same after
  obtain rfl : auto = auto' := same
  apply (typeRef_steps after).ifSome
  intro type type' f f' k k' typed further
  apply (ident_steps further .variableName).ifSome
  intro name name' g g' m m' named last
  exact done_steps last mark fun node => (Statement.declare.injEq ..).mpr ⟨node, rfl, typed, named⟩

theorem global_steps (h : K.Cursors c d) (mark : K.SameMark m m') :
    K.Steps (global m c) (global m' d) := by
  apply (identList_steps h .globalName).ifSome
  intro names names' e e' l l' named last
  exact done_steps last mark fun node => (Statement.globals.injEq ..).mpr ⟨node, named⟩

theorem filePath_steps (h : K.Cursors c d) : K.Steps (filePath c) (filePath d) := by
  intro _
  have test {t u : Token} (same : K.SameToken t u) :
      (c.endsStatement t || t.kind == .colonColon) =
        (d.endsStatement u || u.kind == .colonColon) := by
    rw [h.endsStatement same, same.kind]
  have line (t : Token) (newline : t.kind = .newline) :
      (c.endsStatement t || t.kind == .colonColon) = true := by
    simp [endsStatement, TokenKind.isStatementEnd, newline]
  have passed := (h.rest.split test (h.rest.found line)).1
  exact ⟨join_of_forall₂ passed, h.skipWithinLine test line⟩

theorem useStatement_steps (h : K.Cursors c d) (mark : K.SameMark m m') :
    K.Steps (useStatement m c) (useStatement m' d) := by
  apply (eat_steps h (by decide)).andThen
  intro isPath isPath' e e' l l' same after
  obtain rfl : isPath = isPath' := same
  refine .ite .rfl (fun _ => ?_) (fun _ => ?_)
  · apply (filePath_steps after).andThen
    intro path path' f f' k k' alike further
    apply (expect_steps further (by decide) .colonsAfterPath).ifTrue
    intro g g' m m' behind
    apply (ident_steps behind .className).ifSome
    intro name name' i i' n n' named last
    refine done_steps last mark fun node => (Statement.useClass.injEq ..).mpr ⟨node, ?_, named⟩
    have empty : path.isEmpty = path'.isEmpty :=
      calc path.isEmpty = (K.first.text path).isEmpty := (K.first.isEmpty_text path).symm
        _ = (K.second.text path').isEmpty := congrArg String.isEmpty alike
        _ = path'.isEmpty := K.second.isEmpty_text path'
    rw [← empty]
    split
    · rfl
    · exact congrArg some alike
  · apply (typeRef_steps after).ifSome
    intro type type' f f' k k' typed last
    exact done_steps last mark fun node => (Statement.useJava.injEq ..).mpr ⟨node, typed⟩

theorem fieldDecl_steps (h : K.Cursors c d) (mark : K.SameMark m m') :
    K.Steps (fieldDecl m c) (fieldDecl m' d) := by
  apply (modifier_steps h).andThen
  intro modifier modifier' e₁ e₁' _ _ sameModifier h₁
  apply (eatKeyword_steps h₁ "static").andThen
  intro isStatic isStatic' e₂ e₂' _ _ sameStatic h₂
  apply (typeRef_steps h₂).ifSome
  intro type type' e₃ e₃' _ _ typed h₃
  apply (eat_steps h₃ (by decide)).andThen
  intro _ _ e₄ e₄' _ _ _ h₄
  apply (ident_steps h₄ .fieldName).ifSome
  intro name name' e₅ e₅' _ _ named h₅
  apply (eat_steps h₅ (by decide)).andThen
  intro hasInit hasInit' e₆ e₆' _ _ sameInit h₆
  obtain rfl : hasInit = hasInit' := sameInit
  refine .ite .rfl (fun _ => ?_) (fun _ => ?_)
  · apply (expr_steps h₆).andThen
    intro init init' e₇ e₇' _ _ alike last
    refine done_steps last mark fun node => (Statement.fieldDecl.injEq ..).mpr ⟨node, ?_⟩
    exact (FieldDecl.mk.injEq ..).mpr
      ⟨alike_modifier sameModifier, sameStatic, typed, named, congrArg some alike⟩
  · refine done_steps h₆ mark fun node => (Statement.fieldDecl.injEq ..).mpr ⟨node, ?_⟩
    exact (FieldDecl.mk.injEq ..).mpr ⟨alike_modifier sameModifier, sameStatic, typed, named, rfl⟩

/-! ## Jumps -/

theorem jump_steps (h : K.Cursors c d) (mark : K.SameMark m m') (verb : JumpVerb) :
    K.Steps (jump m verb c) (jump m' verb d) := by
  unfold jump
  refine .ite (by rw [h.isAt]) (fun next => ?_) (fun _ => ?_)
  · have number := (Bool.and_eq_true_iff.mp next).2
    refine .widen (done_steps (h.bumpAt number (by decide)) mark fun node => ?_) _ _
    exact (Statement.jump.injEq ..).mpr ⟨node, rfl, rfl, rfl⟩
  · apply (ident_steps h .labelName).ifSome
    intro target target' e e' l l' named last
    refine done_steps last mark fun node => (Statement.jump.injEq ..).mpr ⟨node, rfl, rfl, ?_⟩
    exact Alike.cons named rfl

theorem onJump_steps (h : K.Cursors c d) (mark : K.SameMark m m') :
    K.Steps (onJump m c) (onJump m' d) := by
  apply (expr_steps h).andThen
  intro selector selector' e e' l l' selected after
  have behind {verb : JumpVerb} {word : String} (next : e.atKeyword word = true) :
      K.Steps
        (((identList .labelName e.bump).ifSome fun targets f _ =>
          done m f (.jump · verb (some selector) targets)).widen e.bump_behind)
        (((identList .labelName e'.bump).ifSome fun targets f _ =>
          done m' f (.jump · verb (some selector') targets)).widen e'.bump_behind) := by
    refine .widen ?_ _ _
    apply (identList_steps (after.bumpKeyword next) .labelName).ifSome
    intro targets targets' f f' k k' named last
    refine done_steps last mark fun node => (Statement.jump.injEq ..).mpr ⟨node, rfl, ?_, named⟩
    exact congrArg some selected
  simp only [← after.atKeyword]
  by_cases goto : e.atKeyword "goto" = true
  · simp only [goto, if_true]
    exact behind goto
  · by_cases gosub : e.atKeyword "gosub" = true
    · simp only [goto, gosub, if_true]
      exact behind gosub
    · simp only [goto, gosub]
      exact fail_steps after _ rfl

/-! ## Files -/

theorem openOptions_steps {c d : Cursor} (h : K.Cursors c d) :
    K.Steps (openOptions c) (openOptions d) := by
  rw [openOptions, openOptions]
  refine .dite (by rw [h.isAt]) (fun next _ => ?_) (fun _ _ => .pure h rfl)
  have shorter : c.bump.size < c.size := size_bump_lt_of_isAt next
  refine .widen ?_ _ _
  apply (keyedValue_steps (h.bumpAt next (by decide))).ifSome
  intro option option' e e' l l' same after
  exact .map (openOptions_steps after) fun more => more.mapOption (.cons same)
termination_by c.size

theorem optionsSpan_alike {a b : Nat} (offset : K.SameOffset a b) {os os' : List StatementOption}
    (same : K.Alike os os') : K.Alike (optionsSpan a os) (optionsSpan b os') := by
  show K.first.span _ = K.second.span _
  rw [Relabelling.span_optionsSpan, Relabelling.span_optionsSpan, offset, same]

theorem openStatement_steps (h : K.Cursors c d) (mark : K.SameMark m m') :
    K.Steps (openStatement m c) (openStatement m' d) := by
  apply (expect_steps h (by decide) .openParenAfterOpen).ifTrue
  intro e₁ e₁' _ _ h₁
  apply (expr_steps h₁).andThen
  intro channel channel' e₂ e₂' _ _ sameChannel h₂
  apply (openOptions_steps h₂).ifSome
  intro options options' e₃ e₃' _ _ sameOptions h₃
  apply (expect_steps h₃ (by decide) .closeParen).ifTrue
  intro e₄ e₄' _ _ h₄
  have span := optionsSpan_alike h₂.lastStop sameOptions
  refine .ite (by rw [h₄.atStatementEnd]) (fun _ => ?_) (fun _ => ?_)
  · refine done_steps h₄ mark fun node => (Statement.openFile.injEq ..).mpr ⟨node, ?_⟩
    exact (OpenFile.mk.injEq ..).mpr ⟨sameChannel, sameOptions, span, rfl⟩
  · apply (expr_steps h₄).andThen
    intro path path' e₅ e₅' _ _ samePath last
    refine done_steps last mark fun node => (Statement.openFile.injEq ..).mpr ⟨node, ?_⟩
    exact (OpenFile.mk.injEq ..).mpr ⟨sameChannel, sameOptions, span, congrArg some samePath⟩

theorem keyedItems_steps {c d : Cursor} (h : K.Cursors c d) :
    K.Steps (keyedItems c) (keyedItems d) := by
  rw [keyedItems, keyedItems]
  have first : K.Steps
      (if atOption c then (keyedValue c).map (·.map fun o => Args.empty.consOption o)
        else (expr c).map fun e => some (Args.empty.consPositional e))
      (if atOption d then (keyedValue d).map (·.map fun o => Args.empty.consOption o)
        else (expr d).map fun e => some (Args.empty.consPositional e)) := by
    refine .ite (by rw [atOption_alike h]) (fun _ => ?_) (fun _ => ?_)
    · exact (keyedValue_steps h).map fun both =>
        both.mapOption fun same => Alike.consOption (K := K) same rfl
    · exact (expr_steps h).map fun same => congrArg some (Alike.consPositional (K := K) same rfl)
  apply first.ifSome
  intro item item' e e' l l' same after
  refine .dite (by rw [after.isAt]) (fun next _ => ?_) (fun _ _ => .pure after (congrArg some same))
  have shorter : e.bump.size < e.size := size_bump_lt_of_isAt next
  refine .widen (.map (keyedItems_steps (after.bumpAt next (by decide))) ?_) _ _
  exact fun more => more.mapOption fun further => (Args.mk.injEq ..).mpr
    ⟨same.positional.append further.positional, same.options.append further.options⟩
termination_by c.size

theorem keyedStatement_steps (h : K.Cursors c d) (mark : K.SameMark m m') (verb : KeyedVerb) :
    K.Steps (keyedStatement m verb c) (keyedStatement m' verb d) := by
  apply (keyedItems_steps h).ifSome
  intro items items' e e' l l' same last
  refine done_steps last mark fun node => (Statement.keyedFile.injEq ..).mpr ⟨node, ?_⟩
  exact (KeyedFile.mk.injEq ..).mpr ⟨rfl, same.positional, same.options⟩

/-! ## Printing and returning -/

theorem printItems_steps {c d : Cursor} (h : K.Cursors c d) :
    K.Steps (printItems c) (printItems d) := by
  rw [printItems, printItems]
  refine .dite (by rw [h.atStatementEnd]) (fun _ _ => .pure h rfl) (fun inside _ => ?_)
  apply (expr_steps h).andThen
  intro item item' e e' l l' same after
  apply (eat_steps after (by decide)).andThen
  intro _ _ f f' k k' _ further
  refine .dite (by rw [further.size, h.size]; omega) (fun shorter _ => ?_) (fun stuck _ => ?_)
  · exact (printItems_steps further).map (.cons same)
  · have shorter : (f.report .unexpectedInPrint).bump.size < f.size :=
      size_bump_lt (c := f.report .unexpectedInPrint)
        (rest_ne_nil_of_size (rest_ne_nil_of_not_atStatementEnd inside) stuck)
    refine .widen ?_ _ _
    by_cases lines : K.tail = none
    · have fault : K.Alike Fault.unexpectedInPrint Fault.unexpectedInPrint := rfl
      have reported := (further.report fault).bump (.inl lines)
      exact (printItems_steps reported).map (.cons same)
    · exact .ofFault lines ((Step.behind _).trans (bump_behind _))
termination_by c.size

theorem printStatement_steps (h : K.Cursors c d) (mark : K.SameMark m m') :
    K.Steps (printStatement m c) (printStatement m' d) := by
  apply (printItems_steps h).andThen
  intro items items' e e' l l' same last
  exact done_steps last mark fun node => (Statement.print.injEq ..).mpr ⟨node, same⟩

theorem returnStatement_steps (h : K.Cursors c d) (mark : K.SameMark m m') :
    K.Steps (returnStatement m c) (returnStatement m' d) := by
  refine .ite (by rw [h.atStatementEnd]) (fun _ => ?_) (fun _ => ?_)
  · exact done_steps h mark fun node => (Statement.ret.injEq ..).mpr ⟨node, rfl⟩
  · apply (expr_steps h).andThen
    intro value value' e e' l l' same last
    refine done_steps last mark fun node => (Statement.ret.injEq ..).mpr ⟨node, ?_⟩
    exact congrArg some same

/-! ## All of them -/

theorem simpleStatement_steps (h : K.Cursors c d) (mark : K.SameMark m m') (word : SimpleWord) :
    K.Steps (simpleStatement m c word) (simpleStatement m' d word) := by
  cases word with
  | rem =>
      have line : K.Cursors c.skipToLineEnd d.skipToLineEnd :=
        h.skipWithinLine (fun same => by rw [same.kind]) (fun t newline => by rw [newline]; rfl)
      exact (done_steps line mark fun node => congrArg Statement.rem node).widen
        (c.skipUntil_behind _) (d.skipUntil_behind _)
  | letWord => exact assignment_steps h mark true
  | declare => exact declare_steps h mark
  | global => exact global_steps h mark
  | use => exact useStatement_steps h mark
  | field => exact fieldDecl_steps h mark
  | jump verb => exact jump_steps h mark verb
  | on => exact onJump_steps h mark
  | openWord => exact openStatement_steps h mark
  | keyed verb => exact keyedStatement_steps h mark verb
  | print => exact printStatement_steps h mark
  | ret => exact returnStatement_steps h mark
  | terminate verb =>
      exact done_steps h mark fun node => (Statement.terminate.injEq ..).mpr ⟨node, rfl⟩

theorem atAssignment (h : K.Cursors c d) :
    (c.atPair .ident .eq || (c.atPair .hash .ident && c.kindAt 2 = some .eq)) =
      (d.atPair .ident .eq || (d.atPair .hash .ident && d.kindAt 2 = some .eq)) := by
  have hash : c.atPair .hash .ident = d.atPair .hash .ident := h.atPair (by decide)
  rw [h.atPair (by decide), ← hash]
  cases pair : c.atPair .hash .ident with
  | false => rfl
  | true =>
      have name := h.bumpAt (isAt_of_atPair pair) (by decide)
      rw [← kindAt_bump, name.kindAt_one (within_of_isAt (isAt_bump_of_atPair pair) (by decide)),
        kindAt_bump]

theorem bareStatement_steps (h : K.Cursors c d) (mark : K.SameMark m m') :
    K.Steps (bareStatement m c) (bareStatement m' d) := by
  refine .ite (by rw [atAssignment h]) (fun _ => assignment_steps h mark false) (fun _ => ?_)
  apply (expr_steps h).andThen
  intro value value' e e' l l' same last
  exact done_steps last mark fun node => (Statement.expr.injEq ..).mpr ⟨node, same⟩

end BbjAnalysis.Comparison
