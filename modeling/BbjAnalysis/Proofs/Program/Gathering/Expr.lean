import BbjAnalysis.Proofs.Program.Gathering

/-! # What is gathered from an expression

Each function that reads names, types or a part of an expression gathers the parts of what it
yields.
-/

namespace BbjAnalysis.Parser

open Cursor HasParts BbjAnalysis.Part

variable {b c d : Cursor} {ps : List Part}

/-! ## Tokens, names and types -/

theorem fail_finds {α : Type} [SizeOf α] [HasParts α] (c : Cursor) (fault : Fault) :
    (fail (α := α) c fault).Finds := fun _ _ acc => (failed_report c fault).early acc.behind

theorem eat_passes (kind : TokenKind) (c : Cursor) (plain : kind ≠ .error) :
    (eat kind c).Passes := by
  intro b ps acc
  unfold eat
  split
  · next next => exact acc.bumpAt next plain
  · exact acc

theorem eatKeyword_passes (word : String) (c : Cursor) : (eatKeyword word c).Passes := by
  intro b ps acc
  unfold eatKeyword
  split
  · next next => exact acc.bumpKeyword next
  · exact acc

theorem expect_checks (kind : TokenKind) (what : Expectation) (c : Cursor)
    (plain : kind ≠ .error) : (expect kind what c).Checks := by
  intro b ps acc
  unfold expect
  split
  · next next => exact acc.bumpAt next plain
  · exact (failed_report c _).early acc.behind

/-- The name that is next. -/
theorem gathered_name {t : Token} {ts : List Token} (laid : c.Laid) (next : c.rest = t :: ts)
    (isName : t.kind = .ident) :
    Gathered c c.bump.skipId (parts (⟨c.nextId, t.text, t.span⟩ : Ident)) := by
  have read : Gathered c c.bump [] := by
    refine (Gathered.start laid).bump fun u first => ?_
    rw [next] at first
    cases first
    rw [isName]
    decide
  have place : c.offset = t.start ∧ c.bump.lastStop = t.stop ∧ c.bump.nextId = c.nextId := by
    simp only [offset, Cursor.bump, next, and_self]
  have moved : c.offset < t.stop := by
    rw [← place.2.1]
    exact read.moved (size_bump_lt (by simp [next]))
  refine read.skipId.regroup ?_ (by simp)
  apply Collected.name laid c.bump_behind rfl rfl place.2.2.symm
  · exact ⟨place.1.symm, moved, Nat.le_of_eq place.2.1.symm⟩
  · rintro i ⟨⟩
    exact ⟨t, by rw [next]; exact List.mem_cons_self, isName, rfl, rfl⟩
  · rintro t ⟨⟩

theorem ident_finds (what : Expectation) (c : Cursor) : (ident what c).Finds := by
  intro b ps acc
  unfold ident
  split
  · next t ts next =>
    split
    · next isName => exact acc.append (gathered_name acc.laid_next next isName)
    · exact fail_finds c _ acc
  · exact fail_finds c _ acc

theorem ident_begins (what : Expectation) (c : Cursor) :
    (ident what c).Ensures fun name? _ => ∀ name ∈ name?, name.span.start = c.offset := by
  unfold ident
  split
  · next t ts next =>
    split
    · intro name read
      cases read
      simp only [offset, next, Token.span]
    · intro name read
      cases read
  · intro name read
    cases read

theorem dottedNames_passes (c : Cursor) (next : c.isAt .ident = true) (acc : Gathered b c ps) :
    (dottedNames c).Ensures fun _ d => Gathered b d ps ∧ d.size < c.size := by
  have first := acc.bumpAt next (by decide)
  rw [dottedNames.eq_def]
  split
  · split
    · next pair =>
      have shorter : c.bump.bump.size < c.size := size_bump_bump_lt next
      have joined := first.bumpAt (isAt_of_atPair pair) (by decide)
      have more := dottedNames_passes c.bump.bump (isAt_bump_of_atPair pair) joined
      exact (more.map fun passed => ⟨passed.1, Nat.lt_trans passed.2 shorter⟩).widen _
    · exact ⟨first, size_bump_lt_of_isAt next⟩
  · next none => simp [isAt, kindAt, none] at next
termination_by c.size

theorem bump_of_rest {t : Token} {ts : List Token} (rest : c.rest = t :: ts) :
    c.bump.rest = ts ∧ c.bump.lastStop = t.stop := by
  simp only [Cursor.bump, rest, and_self]

/-- The names are read as identifiers that dots join, from the next token up to the last one read.
-/
theorem dottedNames_dotted (c : Cursor) (next : c.isAt .ident = true) :
    (dottedNames c).Ensures fun segments d => ∃ ts, ts ++ d.rest = c.rest ∧ Dotted segments ts ∧
      Fill ts ⟨c.offset, d.lastStop⟩ := by
  rw [dottedNames.eq_def]
  split
  · next t ts rest =>
    have isName : t.kind = .ident := (isAt_iff_head rest .ident).mp next
    have begins : c.offset = t.start := by simp only [offset, rest]
    have behind := bump_of_rest rest
    split
    · next pair =>
      have shorter : c.bump.bump.size < c.size := size_bump_bump_lt next
      have more := dottedNames_dotted c.bump.bump (isAt_bump_of_atPair pair)
      apply Step.Ensures.widen
      apply more.map
      rintro segments d ⟨us, read, dotted, -, stops⟩
      obtain ⟨dot, vs, atDot⟩ :=
        List.exists_cons_of_ne_nil (rest_ne_nil_of_isAt (isAt_of_atPair pair))
      have joins : dot.kind = .dot := (isAt_iff_head atDot .dot).mp (isAt_of_atPair pair)
      refine ⟨t :: dot :: us, ?_, .cons isName joins dotted, ?_, ?_⟩
      · rw [rest, ← behind.1, atDot, ← (bump_of_rest atDot).1, ← read]
        rfl
      · rw [begins]
        rfl
      · rw [← stops]
        cases us with
        | nil => cases dotted
        | cons u us => rfl
    · refine ⟨[t], ?_, .name isName, ?_, ?_⟩
      · rw [behind.1, rest]
        rfl
      · rw [begins]
        rfl
      · rw [behind.2]
        rfl
  · next none => simp [isAt, kindAt, none] at next
termination_by c.size

theorem skipArraySuffixes_passes (c : Cursor) : (skipArraySuffixes c).Passes := by
  intro b ps acc
  rw [skipArraySuffixes]
  split
  · next pair =>
    have shorter := size_bump_bump_lt (isAt_of_atPair pair)
    have opened := acc.bumpAt (isAt_of_atPair pair) (by decide)
    have closed := opened.bumpAt (isAt_bump_of_atPair pair) (by decide)
    exact (skipArraySuffixes_passes c.bump.bump closed).widen _
  · exact acc
termination_by c.size

/-- The array suffixes of a type are read behind its span. -/
theorem typeRef_finds (c : Cursor) : (typeRef c).Finds := by
  apply Step.Finds.of_start
  intro acc
  unfold typeRef
  split
  · next next =>
    apply ((dottedNames_passes c next acc).and (dottedNames_dotted c next)).andThen
    rintro segments d _ ⟨⟨named, shorter⟩, ts, read, dotted, fill⟩
    apply (skipArraySuffixes_passes d (.start named.laid_next)).andThen
    intro _ e _ suffixes
    have moved := named.moved shorter
    have onward := (suffixes.behind.laid suffixes.laid).2
    have most : max d.lastStop c.offset = d.lastStop := Nat.max_eq_left (by omega)
    -- the span ends behind the last name, at `d`, while the identity is given away at `e`
    refine (named.append suffixes).skipId.regroup ?_ (by simp)
    apply Collected.name acc.laid (suffixes.behind.trans named.behind) rfl rfl rfl
    · simp only [spanFrom, most]
      exact ⟨True.intro, moved, onward⟩
    · rintro i ⟨⟩
    · rintro t ⟨⟩
      rw [spanFrom, most]
      exact ⟨ts, ⟨[], d.rest, read⟩, dotted, fill⟩
  · exact fail_finds c _ acc

/-! ## Expressions -/

/-- Closes a node of an expression behind its children. -/
theorem built_gathers (make : Node → Expr) (acc : Gathered b c ps) (moved : c.size < b.size)
    (whole : ∀ n, (make n).node = n ∧ (make n).children = ps ∧
      (Part.expr (make n)).isMissing = false) :
    (built b.offset c make).Ensures fun e d => Gathered b d (parts e) := by
  obtain ⟨node, children, present⟩ := whole (c.nodeFrom b.offset)
  exact acc.enclose (congrArg some node) children rfl (fun _ => ⟨present, acc.moved moved⟩) trivial

/-- Puts the placeholder where something went wrong. -/
theorem missing_gathers (failed : Failed b c) (laid : b.Laid) :
    (built b.offset c .missing).Ensures fun e d => Gathered b d (parts e) :=
  (failed.gathered laid).enclose rfl rfl rfl (fun clean => absurd clean failed.errors) trivial

/-- A sign and a name behind it. -/
theorem named_gathers (what : Expectation) {make : Node → Ident → Expr} (sign : Gathered b c [])
    (moved : c.size < b.size)
    (whole : ∀ n i, (make n i).node = n ∧ (make n i).children = parts i ∧
      (Part.expr (make n i)).isMissing = false) :
    ((ident what c).andThen fun found d _ =>
      built b.offset d (found.elim .missing fun name node => make node name)).Ensures
        fun e d => Gathered b d (parts e) := by
  apply (ident_finds what c sign).andThen
  intro found d shorter acc
  cases found with
  | none => exact missing_gathers acc sign.laid
  | some name => exact built_gathers _ acc (by omega) (whole · name)

theorem absentExpr_gathers (laid : c.Laid) :
    (absentExpr c).Ensures fun e d => Gathered c d (parts e) := by
  have failed := failed_report c (.expected .expression)
  have place : Span.empty c.offset = c.spanFrom c.offset := by
    rw [spanFrom, Nat.max_eq_right laid.lastStop_le_offset, Span.empty]
  refine (failed.gathered laid).enclose (p := .expr (.missing _)) ?_ rfl rfl
    (fun clean => absurd clean failed.errors) trivial
  exact congrArg (fun span => some (Node.mk c.nextId span)) place

/-- Positional arguments and options are kept apart, whatever their order in the text. -/
theorem parts_consOption_perm (option : StatementOption) (args : Args) :
    (parts option ++ parts args).Perm (parts (args.consOption option)) :=
  List.perm_append_comm_assoc (parts option) (parts args.positional) (parts args.options)

theorem isPlain_args (args : Args) : ∀ p ∈ parts args, p.isPlain = true := by
  intro p member
  simp only [List.mem_append, parts, List.mem_flatMap, List.mem_singleton] at member
  rcases member with ⟨e, -, rfl⟩ | ⟨o, -, rfl⟩ <;> rfl

theorem gathered_empty (acc : Gathered b c ps) : Gathered b c (ps ++ parts Args.empty) := by
  simpa [Args.empty] using acc

theorem plain_of_operatorAt {least : Nat} {op : BinaryOp} (found : operatorAt c least = some op) :
    ∀ t ∈ c.rest.head?, t.kind ≠ .error := by
  intro t first stray
  obtain ⟨ts, rest⟩ := List.head?_eq_some_iff.mp first
  simp [operatorAt, rest, binaryOpOf, stray] at found

theorem plain_of_unaryOpOf {t : Token} {op : UnaryOp} (sign : unaryOpOf t = some op) :
    t.kind ≠ .error := by
  intro stray
  simp [unaryOpOf, stray] at sign

mutual

theorem exprFrom_gathers (least : Nat) (c : Cursor) : (exprFrom least c).Gathers := by
  apply Step.Gathers.of_start
  intro acc
  rw [exprFrom]
  apply (unaryExpr_gathers c acc).andThen
  intro lhs d _ acc
  exact operands_gathers least lhs d acc
termination_by c.size * 8 + 3

theorem operands_gathers (least : Nat) (lhs : Expr) (c : Cursor) {b : Cursor}
    (acc : Gathered b c (parts lhs)) :
    (operands least b.offset lhs c).Ensures fun e d => Gathered b d (parts e) := by
  have room := acc.behind.size_le
  rw [operands.eq_def]
  split
  · next op operator =>
    have shorter : c.bump.size < c.size := size_bump_lt (rest_ne_nil_of_operatorAt operator)
    have read := acc.bump (plain_of_operatorAt operator)
    apply Step.Ensures.widen
    apply (exprFrom_gathers op.rightPrecedence c.bump read).andThen
    intro rhs d _ acc
    have whole := built_gathers (.binary · op lhs rhs) acc (by omega) fun _ =>
      ⟨rfl, by simp [Expr.children], rfl⟩
    apply whole.andThen
    intro e d' _ acc
    exact operands_gathers least e d' acc
  · exact acc
termination_by c.size * 8

theorem unaryExpr_gathers (c : Cursor) : (unaryExpr c).Gathers := by
  apply Step.Gathers.of_start
  intro acc
  rw [unaryExpr.eq_def]
  split
  · next t ts next =>
    have shorter : c.bump.size < c.size := size_bump_lt (by simp [next])
    split
    · next op sign =>
      have read : Gathered c c.bump [] := by
        apply acc.bump
        simpa [next] using plain_of_unaryOpOf sign
      apply Step.Ensures.widen
      apply (unaryExpr_gathers c.bump read).andThen
      intro operand d _ acc
      exact built_gathers _ acc (by omega) fun _ => ⟨rfl, by simp [Expr.children], rfl⟩
    · exact postfixExpr_gathers c acc
  · exact postfixExpr_gathers c acc
termination_by c.size * 8 + 2

theorem postfixExpr_gathers (c : Cursor) : (postfixExpr c).Gathers := by
  apply Step.Gathers.of_start
  intro acc
  rw [postfixExpr]
  apply (primaryExpr_gathers c acc).andThen
  intro e d _ acc
  exact accesses_gathers e d acc
termination_by c.size * 8 + 1

theorem accesses_gathers (base : Expr) (c : Cursor) {b : Cursor}
    (acc : Gathered b c (parts base)) :
    (accesses b.offset base c).Ensures fun e d => Gathered b d (parts e) := by
  have room := acc.behind.size_le
  rw [accesses.eq_def]
  split
  · next pair =>
    have dot := isAt_of_atPair pair
    have shorter : c.bump.size < c.size := size_bump_lt_of_isAt dot
    have read := acc.bumpAt dot (by decide)
    apply Step.Ensures.widen
    apply ((ident_finds .memberName c.bump).gathers read).andThen
    intro found d _ acc
    cases found with
    | none =>
        rw [parts_none, List.append_nil] at acc
        exact acc
    | some name =>
        dsimp only
        split
        · next opened =>
          apply (arguments_gathers d opened acc).andThen
          intro args e _ acc
          have whole := built_gathers (.methodCall · base name args.positional args.options)
            acc (by omega) fun _ => ⟨rfl, by simp [Expr.children], rfl⟩
          apply whole.andThen
          intro call e' _ acc
          exact accesses_gathers call e' acc
        · have whole := built_gathers (.member · base name) acc (by omega) fun _ =>
            ⟨rfl, by simp [Expr.children], rfl⟩
          apply whole.andThen
          intro access d' _ acc
          exact accesses_gathers access d' acc
  · split
    · next bracket =>
      have shorter : c.bump.size < c.size := size_bump_lt_of_isAt bracket
      apply Step.Ensures.widen
      apply (exprList_gathers c.bump (acc.bumpAt bracket (by decide))).andThen
      intro indices d _ acc
      apply ((expect_checks .rbracket .closeBracket d (by decide)).passes acc).andThen
      intro _ e _ acc
      have whole := built_gathers (.index · base indices) acc (by omega) fun _ =>
        ⟨rfl, by simp [Expr.children], rfl⟩
      apply whole.andThen
      intro access e' _ acc
      exact accesses_gathers access e' acc
    · exact acc
termination_by c.size * 8

theorem exprList_gathers (c : Cursor) : (exprList c).Gathers := by
  intro b ps acc
  rw [exprList]
  apply (exprFrom_gathers 1 c acc).andThen
  intro e d _ acc
  split
  · next comma =>
    have shorter : d.bump.size < d.size := size_bump_lt_of_isAt comma
    apply Step.Ensures.widen
    apply (exprList_gathers d.bump (acc.bumpAt comma (by decide))).map
    intro es e acc
    simpa using acc
  · exact acc
termination_by c.size * 8 + 4

theorem primaryExpr_gathers (c : Cursor) : (primaryExpr c).Gathers := by
  apply Step.Gathers.of_start
  intro acc
  have laid := acc.laid
  rw [primaryExpr.eq_def]
  split
  · exact absentExpr_gathers laid
  · next t ts next =>
    have shorter : c.bump.size < c.size := size_bump_lt (by simp [next])
    have read (plain : t.kind ≠ .error) : Gathered c c.bump [] := by
      apply acc.bump
      simpa [next] using plain
    split
    · next kind =>
      have acc := read (by simp [kind])
      exact (built_gathers _ acc shorter fun _ => ⟨rfl, rfl, rfl⟩).widen _
    · next kind =>
      have acc := read (by simp [kind])
      exact (built_gathers _ acc shorter fun _ => ⟨rfl, rfl, rfl⟩).widen _
    · next kind =>
      exact (named_gathers .fieldName (read (by simp [kind])) shorter fun _ _ =>
        ⟨rfl, rfl, rfl⟩).widen _
    · next kind =>
      split
      · exact (named_gathers .label (read (by simp [kind])) shorter fun _ _ =>
          ⟨rfl, rfl, rfl⟩).widen _
      · exact absentExpr_gathers laid
    · next kind =>
      apply Step.Ensures.widen
      apply (exprFrom_gathers 1 c.bump (read (by simp [kind]))).andThen
      intro inner d _ acc
      apply ((expect_checks .rparen .closeParen d (by decide)).passes acc).andThen
      intro _ e _ acc
      exact built_gathers _ acc (by omega) fun _ => ⟨rfl, by simp [Expr.children], rfl⟩
    · next kind =>
      split
      · apply Step.Ensures.widen
        apply (typeRef_finds c.bump (read (by simp [kind]))).andThen
        intro found d _ acc
        cases found with
        | none => exact missing_gathers acc laid
        | some type =>
            apply (optionalArguments_gathers d acc).andThen
            intro args e _ acc
            exact built_gathers _ acc (by omega) fun _ => ⟨rfl, by simp [Expr.children], rfl⟩
      · have acc := gathered_name laid next kind
        apply Step.Ensures.widen
        split
        · next opened =>
          apply (arguments_gathers c.bump.skipId opened acc).andThen
          intro args e l acc
          exact built_gathers _ acc (Nat.lt_of_le_of_lt l shorter) fun _ =>
            ⟨rfl, by simp [Expr.children], rfl⟩
        · exact built_gathers _ acc shorter fun _ => ⟨rfl, by simp [Expr.children], rfl⟩
    · exact absentExpr_gathers laid
termination_by c.size * 8

theorem optionalArguments_gathers (c : Cursor) : (optionalArguments c).Gathers := by
  intro b ps acc
  rw [optionalArguments]
  split
  · next opened => exact arguments_gathers c opened acc
  · exact gathered_empty acc
termination_by c.size * 8 + 7

theorem arguments_gathers (c : Cursor) (opened : c.isAt .lparen = true) :
    (arguments c).Gathers := by
  intro b ps acc
  have shorter : c.bump.size ≤ c.size := c.size_bump_le
  have acc := acc.bumpAt opened (by decide)
  rw [arguments]
  apply Step.Ensures.widen
  split
  · next closed => exact gathered_empty (acc.bumpAt closed (by decide))
  · apply (argumentList_gathers c.bump acc).andThen
    intro args d _ acc
    exact ((expect_checks .rparen .closeParen d (by decide)).passes acc).map id
termination_by c.size * 8 + 6

theorem argumentList_gathers (c : Cursor) : (argumentList c).Gathers := by
  apply Step.Gathers.of_start
  intro acc
  have laid := acc.laid
  rw [argumentList]
  split
  · apply (keyedValue_finds c acc).andThen
    intro found d _ acc
    cases found with
    | none => exact Failed.gathered acc laid
    | some option =>
        apply (furtherArguments_gathers d acc).map
        intro args e acc
        apply acc.perm (parts_consOption_perm option args)
        intro p member
        rcases List.mem_cons.mp member with rfl | member
        · rfl
        · exact isPlain_args args p member
  · apply (exprFrom_gathers 1 c acc).andThen
    intro e d _ acc
    exact (furtherArguments_gathers d acc).map id
termination_by c.size * 8 + 5

theorem furtherArguments_gathers (c : Cursor) : (furtherArguments c).Gathers := by
  intro b ps acc
  rw [furtherArguments]
  split
  · next comma =>
    have shorter : c.bump.size < c.size := size_bump_lt_of_isAt comma
    exact (argumentList_gathers c.bump (acc.bumpAt comma (by decide))).widen _
  · exact gathered_empty acc
termination_by c.size * 8

theorem keyedValue_finds (c : Cursor) : (keyedValue c).Finds := by
  apply Step.Finds.of_start
  intro acc
  rw [keyedValue]
  apply Step.Ensures.widen
  have key := (ident_finds .optionName c.skipId (.start acc.laid)).and
    (ident_begins .optionName c.skipId)
  refine key.ifSome (fun found => Failed.outside found.1) ?_
  rintro key d l ⟨acc, begins⟩
  have shorter : d.size ≤ c.size := l
  apply (expect_checks .eq .equals d (by decide) acc).ifTrue (·.outside)
  intro e _ acc
  apply (exprFrom_gathers 1 e acc).andThen
  intro value f _ acc
  have filled := acc.moved_of_mem (p := .ident key) (by simp) rfl
  exact acc.complete rfl (by simp [Part.children]) rfl (fun clean => ⟨rfl, filled clean⟩)
    (begins key rfl).symm
termination_by c.size * 8 + 4

end

theorem expr_gathers (c : Cursor) : (expr c).Gathers := exprFrom_gathers 1 c

end BbjAnalysis.Parser
