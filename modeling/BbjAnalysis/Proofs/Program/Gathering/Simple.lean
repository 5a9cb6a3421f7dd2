import BbjAnalysis.Proofs.Program.Gathering.Expr

/-! # What is gathered from a statement without a block

A statement is closed around the parts that were gathered since its first token, or something is
wrong with it. Remarks and paths of files are the only places where tokens that fit nowhere are
passed over in silence.
-/

namespace BbjAnalysis.Parser

open Cursor HasParts BbjAnalysis.Part

variable {b c d : Cursor} {ps : List Part}

/-- The mark that is set at a cursor before a statement. -/
def Cursor.mark (c : Cursor) : Mark := ⟨c.nextId, c.offset⟩

/-- The statement that begins at `c` is gathered, up to the last token read, or something is wrong
with it. -/
def Completes (c : Cursor) : Option Statement → Cursor → Prop
  | some s, d => Gathered c d (parts s) ∧ s.span = d.spanFrom c.offset
  | none, d => Failed c d

/-- A statement that takes up room is closed. -/
theorem filled_completes {make : Node → Statement} (acc : Gathered c.skipId d ps)
    (filled : d.errors = c.errors → c.offset < d.lastStop)
    (whole : ∀ n, (make n).node = n ∧ (make n).children = ps ∧
      ShapedFrom c.rest (.statement (make n))) :
    (done c.mark d make).Ensures (Completes c) := by
  obtain ⟨node, children, shaped⟩ := whole (d.close c.mark)
  refine ⟨?_, congrArg Node.span node⟩
  exact acc.complete (congrArg some node) children rfl (fun clean => ⟨rfl, filled clean⟩) shaped

/-- A statement is closed behind its first word. -/
theorem done_completes {make : Node → Statement} (acc : Gathered c.skipId d ps)
    (moved : d.size < c.size)
    (whole : ∀ n, (make n).node = n ∧ (make n).children = ps ∧
      ShapedFrom c.rest (.statement (make n))) :
    (done c.mark d make).Ensures (Completes c) :=
  filled_completes acc (fun _ => acc.moved moved) whole

/-! ## Lists -/

theorem identList_finds (what : Expectation) (c : Cursor) : (identList what c).Finds := by
  intro b ps acc
  rw [identList]
  apply (ident_finds what c).ifSome acc
  intro name d _ acc
  split
  · next comma =>
    have shorter : d.bump.size < d.size := size_bump_lt_of_isAt comma
    apply Step.Ensures.widen
    apply (identList_finds what d.bump (acc.bumpAt comma (by decide))).map
    exact fun found => found.map fun names => by simp
  · exact acc
termination_by c.size

theorem typeList_gathers (c : Cursor) : (typeList c).Gathers := by
  apply Step.Gathers.of_start
  intro acc
  have laid := acc.laid
  rw [typeList]
  apply (typeRef_finds c acc).andThen
  intro found d _ acc
  cases found with
  | none => exact Failed.gathered acc laid
  | some type =>
      dsimp only
      split
      · next comma =>
        have shorter : d.bump.size < d.size := size_bump_lt_of_isAt comma
        apply Step.Ensures.widen
        apply (typeList_gathers d.bump (Gathered.bumpAt acc comma (by decide))).map
        intro types e acc
        simpa using acc
      · exact acc
termination_by c.size

theorem modifier_passes (c : Cursor) : (modifier c).Passes := by
  intro b ps acc
  unfold modifier
  split
  · next word => exact acc.bumpKeyword word
  · split
    · next word => exact acc.bumpKeyword word
    · split
      · next word => exact acc.bumpKeyword word
      · exact acc

/-! ## Statements -/

theorem assignment_completes (explicitLet : Bool) (acc : Gathered c.skipId d []) :
    (assignment c.mark explicitLet d).Ensures (Completes c) := by
  apply (eat_passes .hash d (by decide) acc).andThen
  intro isField e _ acc
  apply (ident_finds _ e acc).ifSome (·.outside)
  intro name f _ acc
  apply (expect_checks .eq .equals f (by decide) acc).ifTrue (·.outside)
  intro g _ acc
  apply (expr_gathers g acc).andThen
  intro value h _ acc
  have filled := acc.moved_of_mem (p := .expr value) (by simp) rfl
  exact filled_completes acc filled fun _ => ⟨rfl, by simp [Statement.children], trivial⟩

theorem declare_completes (acc : Gathered c.skipId d []) (moved : d.size < c.size) :
    (declare c.mark d).Ensures (Completes c) := by
  apply (eatKeyword_passes "auto" d acc).andThen
  intro auto e _ acc
  apply (typeRef_finds e acc).ifSome (·.outside)
  intro type f _ acc
  apply (ident_finds .variableName f acc).ifSome (·.outside)
  intro name g _ acc
  exact done_completes acc (by omega) fun _ => ⟨rfl, by simp [Statement.children], trivial⟩

theorem global_completes (acc : Gathered c.skipId d []) (moved : d.size < c.size) :
    (global c.mark d).Ensures (Completes c) := by
  apply (identList_finds .globalName d acc).ifSome (·.outside)
  intro names e _ acc
  exact done_completes acc (by omega) fun _ => ⟨rfl, by simp [Statement.children], trivial⟩

theorem fieldDecl_completes (acc : Gathered c.skipId d []) (moved : d.size < c.size) :
    (fieldDecl c.mark d).Ensures (Completes c) := by
  apply (modifier_passes d acc).andThen
  intro modifier e _ acc
  apply (eatKeyword_passes "static" e acc).andThen
  intro isStatic f _ acc
  apply (typeRef_finds f acc).ifSome (·.outside)
  intro type g _ acc
  apply (eat_passes .hash g (by decide) acc).andThen
  intro _ h _ acc
  apply (ident_finds .fieldName h acc).ifSome (·.outside)
  intro name i _ acc
  apply (eat_passes .eq i (by decide) acc).andThen
  intro hasInit j _ acc
  split
  · apply (expr_gathers j acc).andThen
    intro init k _ acc
    exact done_completes acc (by omega) fun _ => ⟨rfl, by simp [Statement.children], trivial⟩
  · exact done_completes acc (by omega) fun _ => ⟨rfl, by simp [Statement.children], trivial⟩

theorem jump_completes (verb : JumpVerb) (acc : Gathered c.skipId d []) (moved : d.size < c.size) :
    (jump c.mark verb d).Ensures (Completes c) := by
  unfold jump
  split
  · next number =>
    have isNumber := (Bool.and_eq_true_iff.mp number).2
    have shorter := size_bump_lt_of_isAt isNumber
    apply Step.Ensures.widen
    exact done_completes (acc.bumpAt isNumber (by decide)) (by omega) fun _ => ⟨rfl, rfl, trivial⟩
  · apply (ident_finds .labelName d acc).ifSome (·.outside)
    intro target e _ acc
    exact done_completes acc (by omega) fun _ => ⟨rfl, by simp [Statement.children], trivial⟩

theorem onJump_completes (acc : Gathered c.skipId d []) (moved : d.size < c.size) :
    (onJump c.mark d).Ensures (Completes c) := by
  apply (expr_gathers d acc).andThen
  intro selector e _ acc
  have behind (verb : JumpVerb) {word : String} (next : e.atKeyword word = true) :
      (((identList .labelName e.bump).ifSome fun targets f _ =>
        done c.mark f (.jump · verb (some selector) targets)).widen e.bump_behind).Ensures
          (Completes c) := by
    apply Step.Ensures.widen
    have shorter := e.size_bump_le
    apply (identList_finds .labelName e.bump (acc.bumpKeyword next)).ifSome (·.outside)
    intro targets f _ acc
    exact done_completes acc (by omega) fun _ => ⟨rfl, by simp [Statement.children], trivial⟩
  by_cases goto : e.atKeyword "goto" = true
  · simp only [goto, if_true]
    exact behind .goto goto
  · by_cases gosub : e.atKeyword "gosub" = true
    · simp only [goto, gosub, if_true]
      exact behind .gosub gosub
    · simp only [goto, gosub]
      exact ((failed_report e _).early acc.behind).outside

theorem openOptions_finds (c : Cursor) : (openOptions c).Finds := by
  intro b ps acc
  rw [openOptions]
  split
  · next comma =>
    have shorter : c.bump.size < c.size := size_bump_lt_of_isAt comma
    apply Step.Ensures.widen
    apply (keyedValue_finds c.bump).ifSome (acc.bumpAt comma (by decide))
    intro option d _ acc
    apply (openOptions_finds d acc).map
    exact fun found => found.map fun options => by simp
  · show Gathered b c (ps ++ [])
    simpa using acc
termination_by c.size

/-- Options are read in the order of the text. -/
theorem openOptions_ordered (c : Cursor) (laid : c.Laid) : (openOptions c).Ensures fun options? _ =>
    ∀ options : List StatementOption, options ∈ options? → KeysInOrder options := by
  rw [openOptions]
  split
  · next comma =>
    have shorter : c.bump.size < c.size := size_bump_lt_of_isAt comma
    apply Step.Ensures.widen
    apply (keyedValue_finds c.bump (.start (c.bump_behind.laid laid).1)).ifSome
    · nofun
    · intro option d _ (acc : Gathered c.bump d (parts option))
      have rest := (openOptions_finds d (.start acc.laid_next)).and
        (openOptions_ordered d acc.laid_next)
      apply rest.map
      rintro options? e ⟨found, ordered⟩ _ listed
      obtain ⟨options, rfl, rfl⟩ := Option.map_eq_some_iff.mp listed
      have found : Gathered d e (parts options) := found
      -- the key of the first option was read before `d`, and those of the others behind it
      refine List.pairwise_cons.mpr ⟨fun o member => ?_, ordered options rfl⟩
      have first := (acc.fits _ (key_mem_allOf (o := option) List.mem_cons_self)).name _ rfl
      have later := (found.fits _ (key_mem_allOf (o := o) (by simpa [parts] using member))).name
        _ rfl
      exact Nat.le_trans first.2.2 (Nat.le_trans acc.laid_next.lastStop_le_offset later.1)
  · rintro options ⟨⟩
    exact .nil
termination_by c.size

/-- The span around options lies where they lie. -/
theorem optionsSpan_within {offset stop : Nat} {options : List StatementOption}
    (within : ∀ o ∈ options, o.span.start ≤ o.span.stop ∧ o.span.stop ≤ stop)
    (least : offset ≤ stop) :
    (optionsSpan offset options).start ≤ (optionsSpan offset options).stop ∧
      (optionsSpan offset options).stop ≤ stop := by
  have around (rest : List StatementOption) (s : Span) (first : s.start ≤ s.stop ∧ s.stop ≤ stop)
      (within : ∀ o ∈ rest, o.span.start ≤ o.span.stop ∧ o.span.stop ≤ stop) :
      (rest.foldl (fun s o => s.cover o.span) s).start ≤
          (rest.foldl (fun s o => s.cover o.span) s).stop ∧
        (rest.foldl (fun s o => s.cover o.span) s).stop ≤ stop := by
    induction rest generalizing s with
    | nil => exact first
    | cons o rest ih =>
        have lies := within o List.mem_cons_self
        apply ih
        · simp only [Span.cover]
          omega
        · exact fun o' member => within o' (List.mem_cons_of_mem o member)
  cases options with
  | nil => exact ⟨Nat.le_refl _, least⟩
  | cons o rest =>
      exact around rest o.span (within o List.mem_cons_self) fun o' member =>
        within o' (List.mem_cons_of_mem o member)

/-- The span around options is the least one that they lie in. -/
theorem optionsSpan_isHull (offset : Nat) {options : List StatementOption} (some : options ≠ []) :
    (optionsSpan offset options).IsHull (options.map (·.span)) := by
  have around (rest : List StatementOption) (s : Span) :
      (rest.foldl (fun s o => s.cover o.span) s).IsHull (s :: rest.map (·.span)) := by
    induction rest generalizing s with
    | nil => exact .singleton s
    | cons o rest ih => exact (ih (s.cover o.span)).ofCover
  cases options with
  | nil => exact absurd rfl some
  | cons o rest => exact around rest o.span

theorem openStatement_completes (acc : Gathered c.skipId d []) (moved : d.size < c.size) :
    (openStatement c.mark d).Ensures (Completes c) := by
  apply (expect_checks .lparen .openParenAfterOpen d (by decide) acc).ifTrue (·.outside)
  intro e _ acc
  apply (expr_gathers e acc).andThen
  intro channel f _ acc
  have room : f.lastStop ≤ f.stop :=
    Nat.le_trans acc.laid_next.lastStop_le_offset acc.laid_next.offset_le_stop
  have text : f.stop = c.stop := acc.behind.stop
  have options := (openOptions_finds f acc).and (openOptions_ordered f acc.laid_next)
  refine options.ifSome (fun found => Failed.outside found.1) ?_
  rintro options g _ ⟨acc, ordered⟩
  have acc : Gathered c.skipId g ([] ++ parts channel ++ parts options) := acc
  have text' : g.stop = c.stop := acc.behind.stop
  have lies (o : StatementOption) (member : o ∈ options) :
      o.span.start ≤ o.span.stop ∧ o.span.stop ≤ g.stop := by
    have gathered : .option o ∈ [] ++ parts channel ++ parts options :=
      List.mem_append_right _ (List.mem_flatMap.mpr ⟨o, member, List.mem_cons_self⟩)
    exact (acc.fits _ (mem_allOf_of_mem gathered)).span _ rfl
  -- the span around no options at all begins at the last token read, which is in the text, too
  have around := optionsSpan_within lies (show f.lastStop ≤ g.stop by omega)
  have acc := acc.append (.optionsSpan acc.laid_next around.1 around.2)
  apply (expect_checks .rparen .closeParen g (by decide) acc).ifTrue (·.outside)
  intro h _ acc
  dsimp only
  split
  · exact done_completes acc (by omega) fun _ =>
      ⟨rfl, by simp [Statement.children], ordered options rfl, optionsSpan_isHull _⟩
  · apply (expr_gathers h acc).andThen
    intro path i _ acc
    exact done_completes acc (by omega) fun _ =>
      ⟨rfl, by simp [Statement.children], ordered options rfl, optionsSpan_isHull _⟩

/-- Arguments and options of several items are kept apart, each in their order. -/
theorem parts_items_perm (item rest : Args) : (parts item ++ parts rest).Perm
    (parts (⟨item.positional ++ rest.positional, item.options ++ rest.options⟩ : Args)) := by
  simp only [parts_args, parts_append, List.append_assoc]
  exact (List.perm_append_comm_assoc _ _ _).append_left _

theorem keyedItems_finds (c : Cursor) : (keyedItems c).Finds := by
  apply Step.Finds.of_start
  intro acc
  rw [keyedItems]
  refine Step.Ensures.ifSome (P := Found c []) ?_ (fun (failed : Failed c _) => failed) ?_
  · split
    · apply (keyedValue_finds c acc).map
      exact fun found => found.map fun option => by simp [Args.consOption, Args.empty]
    · apply (expr_gathers c acc).map
      intro e d acc
      simpa [Found, Args.consPositional, Args.empty] using acc
  · intro item d _ acc
    split
    · next comma =>
      have shorter : d.bump.size < d.size := size_bump_lt_of_isAt comma
      apply Step.Ensures.widen
      have read := Gathered.bumpAt acc comma (by decide)
      apply (keyedItems_finds d.bump read).map
      intro found e more
      cases found with
      | none => exact more
      | some rest =>
          apply Gathered.perm more (parts_items_perm item rest)
          intro p member
          rcases List.mem_append.mp member with member | member
          · exact isPlain_args item p member
          · exact isPlain_args rest p member
    · exact acc
termination_by c.size

theorem keyedStatement_completes (verb : KeyedVerb) (acc : Gathered c.skipId d [])
    (moved : d.size < c.size) : (keyedStatement c.mark verb d).Ensures (Completes c) := by
  apply (keyedItems_finds d acc).ifSome (·.outside)
  intro items e _ acc
  exact done_completes acc (by omega) fun _ => ⟨rfl, by simp [Statement.children], trivial⟩

theorem printItems_gathers (c : Cursor) : (printItems c).Gathers := by
  intro b ps acc
  rw [printItems]
  split
  · show Gathered b c (ps ++ [])
    simpa using acc
  · next inside =>
    apply (expr_gathers c acc).andThen
    intro item d _ acc
    apply (eat_passes .comma d (by decide) acc).andThen
    intro _ e _ acc
    split
    · apply (printItems_gathers e acc).map
      intro items f acc
      simpa using acc
    · next stuck =>
      have next : (e.report .unexpectedInPrint).rest ≠ [] :=
        rest_ne_nil_of_size (rest_ne_nil_of_not_atStatementEnd inside) stuck
      have shorter : (e.report .unexpectedInPrint).bump.size < e.size :=
        size_bump_lt (c := e.report .unexpectedInPrint) next
      have failed := (failed_report e .unexpectedInPrint).late (bump_behind _)
      apply Step.Ensures.widen
      apply (printItems_gathers _ (acc.fail failed)).map
      intro items f acc
      simpa using acc
termination_by c.size

theorem printStatement_completes (acc : Gathered c.skipId d []) (moved : d.size < c.size) :
    (printStatement c.mark d).Ensures (Completes c) := by
  apply (printItems_gathers d acc).andThen
  intro items e _ acc
  exact done_completes acc (by omega) fun _ => ⟨rfl, by simp [Statement.children], trivial⟩

theorem returnStatement_completes (acc : Gathered c.skipId d []) (moved : d.size < c.size) :
    (returnStatement c.mark d).Ensures (Completes c) := by
  unfold returnStatement
  split
  · exact done_completes acc moved fun _ => ⟨rfl, rfl, trivial⟩
  · apply (expr_gathers d acc).andThen
    intro value e _ acc
    exact done_completes acc (by omega) fun _ => ⟨rfl, by simp [Statement.children], trivial⟩

/-! ## Statements that hold tokens of any kind -/

/-- A remark runs to the end of its line. -/
theorem remark_completes (laid : c.Laid) (behind : d.Behind c.skipId) (moved : d.size < c.size) :
    ((done c.mark d.skipToLineEnd .rem).widen (d.skipUntil_behind _)).Ensures (Completes c) := by
  have onward : d.skipToLineEnd.Behind c.skipId := (d.skipUntil_behind _).trans behind
  have behind : d.skipToLineEnd.Behind c := onward.trans c.skipId_behind
  have shorter : d.skipToLineEnd.size < c.size :=
    Nat.lt_of_le_of_lt (d.size_skipUntil_le _) moved
  have filled := behind.offset_lt laid shorter
  have remark : Collected c d.skipToLineEnd [.statement (.rem (d.skipToLineEnd.close c.mark))] :=
    (Collected.nothing (c := c.skipId) laid onward).complete rfl rfl rfl
      (fun _ => ⟨rfl, filled⟩) trivial
  refine ⟨⟨remark, fun clean t passed stray => ?_⟩, rfl⟩
  obtain ⟨starts, _, stops⟩ := passed.within laid behind
  refine ⟨_, mem_allOf_of_mem List.mem_cons_self, .remark ⟨starts, ?_⟩⟩
  exact Nat.le_trans stops (Nat.le_max_left _ _)

theorem filePath_reads (c : Cursor) : (filePath c).Ensures fun path d =>
    ∃ between, between ++ d.rest = c.rest ∧ (∀ u ∈ between, u.kind ≠ .colonColon) ∧
      path = String.join (between.map Token.text) ∧ d.Behind c := by
  refine ⟨_, List.takeWhile_append_dropWhile, ?_, rfl, c.skipUntil_behind _⟩
  intro u member isColons
  have inside := List.all_eq_true.mp List.all_takeWhile u member
  simp [isColons] at inside

theorem kind_of_isKeyword {t : Token} {word : String} (isWord : t.isKeyword word = true) :
    t.kind = .ident := by
  simp only [Token.isKeyword, Bool.and_eq_true, beq_iff_eq] at isWord
  exact isWord.1

theorem expect_reads (kind : TokenKind) (what : Expectation) (c : Cursor) :
    (expect kind what c).Ensures fun ok d =>
      if ok then c.isAt kind = true ∧ d = c.bump else Failed c d := by
  unfold expect
  split
  · next next => exact ⟨next, rfl⟩
  · exact failed_report c _

theorem ident_reads (what : Expectation) (c : Cursor) : (ident what c).Ensures fun name? d =>
    (name? = none → Failed c d) ∧ ∀ name ∈ name?, ∃ t ts, c.rest = t :: ts ∧ t.kind = .ident ∧
      name = ⟨c.nextId, t.text, t.span⟩ ∧ d = c.bump.skipId := by
  unfold ident
  split
  · next t ts next =>
    split
    · next isName =>
      refine ⟨by simp, ?_⟩
      rintro name ⟨⟩
      exact ⟨t, ts, next, isName, rfl, rfl⟩
    · exact ⟨fun _ => failed_report c _, by simp [fail]⟩
  · exact ⟨fun _ => failed_report c _, by simp [fail]⟩

/-- Of the tokens of `use ::path::Class`, only those of the path may be of any kind. -/
theorem Excused.ofPath {tokens : List Token} {word first second last t : Token}
    {between : List Token} {node : Node} {path : Option String} {name : Ident}
    (run : word :: first :: (between ++ [second, last]) <:+: tokens)
    (use : word.isKeyword "use" = true) (opens : first.kind = .colonColon)
    (closes : second.kind = .colonColon) (isName : last.kind = .ident)
    (inside : ∀ u ∈ between, u.kind ≠ .colonColon)
    (joined : path.getD "" = String.join (between.map Token.text))
    (named : last.text = name.text ∧ last.span = name.span)
    (span : node.span = ⟨word.start, last.stop⟩)
    (member : t ∈ word :: first :: (between ++ [second, last])) (stray : t.kind = .error) :
    Excused tokens t (.useClass node path name) := by
  have isWord : word.kind = .ident := kind_of_isKeyword use
  have inPath : t ∈ between := by
    simp only [List.mem_cons, List.mem_append, List.not_mem_nil, or_false] at member
    rcases member with rfl | rfl | member | rfl | rfl
    · cases isWord.symm.trans stray
    · cases opens.symm.trans stray
    · exact member
    · cases closes.symm.trans stray
    · cases isName.symm.trans stray
  exact .path run use opens closes inside joined named span inPath

/-- The path of a file runs to the next `::`, and a name follows. -/
theorem usePath_completes {word first : Token} (laid : c.Laid)
    (next : c.rest = word :: first :: d.rest) (behind : d.Behind c.skipId)
    (use : word.isKeyword "use" = true) (opens : first.kind = .colonColon) :
    ((filePath d).andThen fun path e _ =>
      (expect .colonColon .colonsAfterPath e).ifTrue fun f _ =>
        (ident .className f).ifSome fun name g _ =>
          done c.mark g (.useClass · (if path.isEmpty then none else some path) name)).Ensures
      (Completes c) := by
  apply (filePath_reads d).andThen
  rintro path e _ ⟨between, split, inside, joined, onward⟩
  have behind := onward.trans behind
  apply (expect_reads .colonColon .colonsAfterPath e).ifTrue
  · exact fun failed => Failed.outside (Failed.early failed behind)
  rintro f _ ⟨closes, rfl⟩
  have behind := e.bump_behind.trans behind
  apply (ident_reads .className e.bump).ifSome
  · exact fun reads => ((reads.1 rfl).early behind).outside
  rintro name g _ ⟨_, found⟩
  obtain ⟨last, ts, rest, isName, rfl, rfl⟩ := found name rfl
  obtain ⟨second, us, rest'⟩ := List.exists_cons_of_ne_nil (rest_ne_nil_of_isAt closes)
  have colons : second.kind = .colonColon := (isAt_iff_head rest' _).mp closes
  have same : us = last :: ts := by simpa only [Cursor.bump, rest'] using rest
  have left : e.bump.bump.skipId.rest = ts := by
    simp only [Cursor.skipId, Cursor.bump, rest', same]
  have ends : e.bump.bump.skipId.lastStop = last.stop := by
    simp only [Cursor.skipId, Cursor.bump, rest', same]
  have tokens : word :: first :: (between ++ [second, last]) ++ ts = c.rest := by
    rw [next, ← split, rest', same]
    simp
  -- the statement is closed around the name
  have name := gathered_name (behind.laid (show c.skipId.Laid from laid)).1 rest isName
  have collected := (Collected.nothing (c := c.skipId) laid behind).append name.toCollected
  have shorter : e.bump.bump.skipId.size < c.size :=
    Nat.lt_of_lt_of_le (size_bump_lt (by simp [rest])) behind.size_le
  have moved := (collected.behind.trans c.skipId_behind).offset_lt laid shorter
  have span : (e.bump.bump.skipId.close c.mark).span = ⟨word.start, last.stop⟩ := by
    have starts : c.offset = word.start := by simp only [offset, next]
    show Span.mk c.offset (max _ c.offset) = _
    rw [Nat.max_eq_left (Nat.le_of_lt moved), ends, starts]
  have run : word :: first :: (between ++ [second, last]) <:+: c.rest := ⟨[], ts, tokens⟩
  have reads : ReadsPath c.rest (e.bump.bump.skipId.close c.mark)
      (if path.isEmpty then none else some path) ⟨e.bump.nextId, last.text, last.span⟩ :=
    .intro run use opens colons inside (by rw [joined]) ⟨rfl, rfl⟩ span
  refine ⟨⟨collected.complete rfl rfl rfl (fun _ => ⟨rfl, moved⟩) reads, ?_⟩, rfl⟩
  -- what fits nowhere lies in the path
  rintro clean t ⟨passed, all, member⟩ stray
  have read : passed ++ ts = word :: first :: (between ++ [second, last]) ++ ts := by
    rw [tokens, ← left]
    exact all
  rw [List.append_cancel_right read] at member
  refine ⟨_, mem_allOf_of_mem List.mem_cons_self, ?_⟩
  apply Excused.ofPath run use opens colons isName inside ?_ ⟨rfl, rfl⟩ span member stray
  rw [← joined]
  split
  · next empty => exact (String.isEmpty_iff.mp empty).symm
  · rfl

theorem eat_reads (kind : TokenKind) (c : Cursor) : (eat kind c).Ensures fun ok d =>
    if ok then c.isAt kind = true ∧ d = c.bump else d = c := by
  unfold eat
  split
  · next next => exact ⟨next, rfl⟩
  · exact rfl

theorem useStatement_completes {word : Token} (next : c.rest = word :: d.rest)
    (use : word.isKeyword "use" = true) (acc : Gathered c.skipId d []) (moved : d.size < c.size) :
    (useStatement c.mark d).Ensures (Completes c) := by
  apply (eat_reads .colonColon d).andThen
  intro isPath e _ reads
  cases isPath with
  | true =>
      obtain ⟨colons, rfl⟩ := reads
      obtain ⟨first, ts, rest⟩ := List.exists_cons_of_ne_nil (rest_ne_nil_of_isAt colons)
      have left := (bump_of_rest rest).1
      have next : c.rest = word :: first :: d.bump.rest := by rw [next, rest, left]
      have opens := (isAt_iff_head rest _).mp colons
      exact usePath_completes acc.laid next (d.bump_behind.trans acc.behind) use opens
  | false =>
      obtain rfl : e = d := reads
      rw [if_neg Bool.false_ne_true]
      apply (typeRef_finds e acc).ifSome (·.outside)
      intro type f _ acc
      exact done_completes acc (by omega) fun _ => ⟨rfl, by simp [Statement.children], trivial⟩

theorem plain_of_announcedBy {t : Token} {word : SimpleWord ⊕ BlockWord}
    (announced : announcedBy t = some word) : t.kind ≠ .error := by
  intro stray
  simp [announcedBy, stray] at announced

theorem isKeyword_of_announcedBy_use {t : Token} (announced : announcedBy t = some (.inl .use)) :
    t.isKeyword "use" = true := by
  unfold announcedBy at announced
  split at announced
  · next isName =>
    have word : t.text.toLower = "use" := by
      unfold Parser.announced at announced
      split at announced <;> first | assumption | cases announced
    simp [Token.isKeyword, isName, word]
  · cases announced

/-- The statement behind a word that opens no block. -/
theorem simpleStatement_completes {t : Token} {ts : List Token} {word : SimpleWord} (laid : c.Laid)
    (next : c.rest = t :: ts) (announced : announcedBy t = some (.inl word)) :
    (simpleStatement c.mark c.skipId.bump word).Ensures (Completes c) := by
  have moved : c.skipId.bump.size < c.size := size_bump_lt (c := c.skipId) (by simp [skipId, next])
  have acc : Gathered c.skipId c.skipId.bump [] := by
    apply (Gathered.start (c := c.skipId) laid).bump
    simpa [skipId, next] using plain_of_announcedBy announced
  cases word with
  | rem => exact remark_completes laid acc.behind moved
  | letWord => exact assignment_completes true acc
  | declare => exact declare_completes acc moved
  | global => exact global_completes acc moved
  | use =>
      have next : c.rest = t :: c.skipId.bump.rest := by simp only [Cursor.bump, skipId, next]
      exact useStatement_completes next (isKeyword_of_announcedBy_use announced) acc moved
  | field => exact fieldDecl_completes acc moved
  | jump verb => exact jump_completes verb acc moved
  | on => exact onJump_completes acc moved
  | openWord => exact openStatement_completes acc moved
  | keyed verb => exact keyedStatement_completes verb acc moved
  | print => exact printStatement_completes acc moved
  | ret => exact returnStatement_completes acc moved
  | terminate verb => exact done_completes acc moved fun _ => ⟨rfl, rfl, trivial⟩

theorem bareStatement_completes (laid : c.Laid) :
    (bareStatement c.mark c.skipId).Ensures (Completes c) := by
  have acc : Gathered c.skipId c.skipId [] := .start laid
  unfold bareStatement
  split
  · exact assignment_completes false acc
  · apply (expr_gathers c.skipId acc).andThen
    intro value d _ acc
    have filled := acc.moved_of_mem (p := .expr value) (by simp) rfl
    exact filled_completes acc filled fun _ => ⟨rfl, by simp [Statement.children], trivial⟩

end BbjAnalysis.Parser
