import BbjAnalysis.Proofs.Program.Gathering.Simple
import BbjAnalysis.Proofs.Program.Progress.Statement

/-! # What is gathered from a program

Statements with blocks are closed like all others. Where statements are read one after the other,
each token read in between is a line end or a semicolon, or lies in one of them, unless something
is wrong.
-/

namespace BbjAnalysis.Parser

open Cursor HasParts BbjAnalysis.Part

variable {b c d : Cursor} {ps : List Part} {ss ss' : List Statement}

/-! ## Headers -/

/-- What is left behind a statement is passed over, and noted. -/
theorem endStatement_reads (c : Cursor) :
    (endStatement c).Ensures fun _ d => d = c ∨ Failed c d := by
  unfold endStatement
  split
  · exact .inl rfl
  · exact .inr ((failed_report c _).late (skipUntil_behind _ _))

theorem endClassHeader_passes (c : Cursor) : (endClassHeader c).Passes := by
  intro b ps acc
  unfold endClassHeader
  split
  · exact acc
  · exact acc.fail ((failed_report c _).late (skipUntil_behind _ _))

theorem paramList_finds (typed : Bool) (c : Cursor) : (paramList typed c).Finds := by
  intro b ps acc
  -- the identity of a parameter is given away before its type and its name are read
  have acc := acc.append (.param acc.laid_next)
  rw [paramList]
  apply Step.Ensures.widen
  refine Step.Ensures.ifSome (P := Found b (ps ++ [.param c.nextId])) ?_
    (fun (failed : Failed b _) => failed) ?_
  · split
    · exact (typeRef_finds c.skipId acc).map fun found => found.map fun _ => rfl
    · show Gathered b c.skipId (_ ++ [])
      simpa using acc
  · intro type d l acc
    have fewer : d.size ≤ c.size := l
    apply (ident_finds .parameterName d).ifSome acc
    intro name e _ (acc : Gathered b e _)
    dsimp only
    split
    · next comma =>
      have shorter : e.bump.size < e.size := size_bump_lt_of_isAt comma
      apply Step.Ensures.widen
      apply (paramList_finds typed e.bump (acc.bumpAt comma (by decide))).map
      exact fun found => found.map fun params => by simp
    · show Gathered b e (ps ++ parts [_])
      simpa using acc
termination_by c.size

theorem params_finds (typed : Bool) (c : Cursor) : (params typed c).Finds := by
  intro b ps acc
  apply (expect_checks .lparen .openParen c (by decide)).ifTrue acc
  intro d _ acc
  split
  · next closed =>
    show Gathered b d.bump (ps ++ [])
    simpa using Gathered.bumpAt acc closed (by decide)
  · apply (paramList_finds typed d).ifSome acc
    intro list e _ acc
    exact ((expect_checks .rparen .closeParen e (by decide)).passes acc).map id

theorem heritage_gathers (c : Cursor) : (heritage c).Gathers := by
  apply Step.Gathers.of_start
  intro acc
  have plain (types : List TypeRef) : ∀ p ∈ parts types, p.isPlain = true := by
    intro p member
    obtain ⟨type, -, inside⟩ := List.mem_flatMap.mp member
    cases List.mem_singleton.mp inside
    rfl
  rw [heritage]
  split
  · next word =>
    have shorter : c.bump.size < c.size := size_bump_lt (rest_ne_nil_of_atKeyword word)
    apply Step.Ensures.widen
    apply (typeList_gathers c.bump (acc.bumpKeyword word)).andThen
    intro types d _ acc
    apply (heritage_gathers d acc).map
    intro more e acc
    simpa using acc
  · split
    · next word =>
      have shorter : c.bump.size < c.size := size_bump_lt (rest_ne_nil_of_atKeyword word)
      apply Step.Ensures.widen
      apply (typeList_gathers c.bump (acc.bumpKeyword word)).andThen
      intro types d _ acc
      apply (heritage_gathers d acc).map
      intro more e acc
      apply acc.perm ?_ ?_
      · rw [parts_pair, parts_pair, parts_append]
        exact List.perm_append_comm_assoc _ _ _
      · intro p member
        rw [parts_pair] at member
        rcases List.mem_append.mp member with here | member
        · exact plain types p here
        · exact (List.mem_append.mp member).elim (plain _ p) (plain _ p)
    · exact acc
termination_by c.size

theorem classHead_finds (isInterface : Bool) (c : Cursor) : (classHead isInterface c).Finds := by
  intro b ps acc
  apply (modifier_passes c acc).andThen
  intro modifier d _ acc
  apply (ident_finds .className d).ifSome acc
  intro name e _ acc
  apply (heritage_gathers e acc).andThen
  intro types f _ acc
  apply (endClassHeader_passes f acc).map
  intro _ g acc
  show Gathered b g (ps ++ parts (ClassHead.mk ..))
  simpa [parts] using acc

theorem methodHead_finds (c : Cursor) : (methodHead c).Finds := by
  intro b ps acc
  apply (modifier_passes c acc).andThen
  intro modifier d _ acc
  apply (eatKeyword_passes "static" d acc).andThen
  intro isStatic e _ acc
  refine Step.Ensures.ifSome (P := Found b ps) ?_ (fun (failed : Failed b _) => failed) ?_
  · split
    · show Gathered b e (ps ++ [])
      simpa using acc
    · exact (typeRef_finds e acc).map fun found => found.map fun _ => rfl
  · intro returnType f _ acc
    apply (ident_finds .methodName f).ifSome acc
    intro name g _ acc
    apply (params_finds true g acc).map
    exact fun found => found.map fun params => by simp

theorem procedureHead_finds (c : Cursor) : (procedureHead c).Finds := by
  intro b ps acc
  apply (eatKeyword_passes "public" c acc).andThen
  intro isPublic d _ acc
  apply (ident_finds .functionName d).ifSome acc
  intro name e _ (acc : Gathered b e _)
  split
  · apply (params_finds false e acc).map
    exact fun found => found.map fun params => by simp
  · show Gathered b e (ps ++ parts (ProcedureHead.mk ..))
    simpa using acc

theorem forHead_finds (c : Cursor) : (forHead c).Finds := by
  intro b ps acc
  apply (ident_finds .loopVariable c).ifSome acc
  intro name d _ acc
  apply (expect_checks .eq .equals d (by decide)).ifTrue acc
  intro e _ acc
  apply (expr_gathers e acc).andThen
  intro first f _ acc
  split
  · next word =>
    apply Step.Ensures.widen
    apply (expr_gathers f.bump (acc.bumpKeyword word)).andThen
    intro last g _ acc
    apply (eatKeyword_passes "step" g acc).andThen
    intro hasStep h _ acc
    split
    · apply (expr_gathers h acc).map
      intro step i acc
      show Gathered b i (ps ++ parts (ForHead.mk ..))
      simpa using acc
    · show Gathered b h (ps ++ parts (ForHead.mk ..))
      simpa using acc
  · exact (failed_report f _).early acc.behind

theorem nextVariable_gathers (c : Cursor) : (nextVariable c).Gathers := by
  intro b ps acc
  unfold nextVariable
  split
  · exact (ident_finds .loopVariable c).gathers acc
  · show Gathered b c (ps ++ [])
    simpa using acc

/-! ## Statements in a row -/

/-- Statements are gathered from all that was read between two cursors: each token is a line end or
a semicolon, or lies in one of the statements. -/
structure Covered (c d : Cursor) (ss : List Statement) : Prop where
  gathered : Gathered c d (parts ss)
  covers : d.errors = c.errors → ∀ t, Passed c d t → t.kind.isStatementEnd = false →
    ∃ s ∈ ss, s.span.start ≤ t.start ∧ t.stop ≤ s.span.stop

namespace Covered

/-- Only line ends and semicolons are passed over. -/
theorem skip (laid : c.Laid) (behind : d.Behind c)
    (ends : ∀ t, Passed c d t → t.kind.isStatementEnd = true) : Covered c d [] where
  gathered := by
    refine .nothing laid behind fun _ t passed stray => ?_
    have := ends t passed
    simp [stray, TokenKind.isStatementEnd] at this
  covers _ t passed inside := by
    rw [ends t passed] at inside
    cases inside

theorem start (laid : c.Laid) : Covered c c [] :=
  skip laid (.refl c) fun _ passed => absurd passed (Passed.not_of_rest_eq rfl)

theorem skipSeparators (laid : c.Laid) : Covered c c.skipSeparators [] := by
  refine skip laid (c.skipUntil_behind _) ?_
  rintro t ⟨ts, rest, member⟩
  have all : c.rest.takeWhile (!!·.kind.isStatementEnd) ++ c.skipSeparators.rest = c.rest :=
    List.takeWhile_append_dropWhile
  rw [List.append_cancel_right (rest.trans all.symm)] at member
  have passes := List.all_eq_true.mp List.all_takeWhile t member
  simpa using passes

theorem bumpSemicolon (laid : c.Laid) (next : c.isAt .semicolon = true) : Covered c c.bump [] := by
  refine skip laid c.bump_behind fun t passed => ?_
  obtain ⟨ts, rest⟩ := List.head?_eq_some_iff.mp passed.bump
  rw [(isAt_iff_head rest _).mp next]
  rfl

/-- Where something is wrong, nothing needs to be covered. -/
theorem failed (laid : c.Laid) (failed : Failed c d) : Covered c d [] :=
  ⟨failed.gathered laid, fun clean => absurd clean failed.errors⟩

theorem single {s : Statement} (acc : Gathered c d (parts s))
    (span : s.span = d.spanFrom c.offset) : Covered c d [s] where
  gathered := acc
  covers clean t passed inside := by
    obtain ⟨starts, _, stops⟩ := passed.within acc.laid acc.behind
    refine ⟨s, List.mem_cons_self, ?_⟩
    rw [span]
    exact ⟨starts, Nat.le_trans stops (Nat.le_max_left _ _)⟩

theorem append (front : Covered b c ss) (back : Covered c d ss') : Covered b d (ss ++ ss') where
  gathered := by
    rw [parts_append]
    exact front.gathered.append back.gathered
  covers clean t passed inside := by
    have first := front.gathered.behind
    have second := back.gathered.behind
    obtain ⟨clean, clean'⟩ := first.errors_eq second clean
    rcases passed.split first second with passed | passed
    · obtain ⟨s, member, within⟩ := front.covers clean t passed inside
      exact ⟨s, List.mem_append_left _ member, within⟩
    · obtain ⟨s, member, within⟩ := back.covers clean' t passed inside
      exact ⟨s, List.mem_append_right _ member, within⟩

theorem laid_next (h : Covered b c ss) : c.Laid := h.gathered.laid_next

theorem fail (h : Covered b c ss) (failed : Failed c d) : Covered b d ss := by
  have all := h.append (.failed h.laid_next failed)
  rwa [List.append_nil] at all

end Covered

theorem Completes.covered {s? : Option Statement} (h : Completes c s? d) (laid : c.Laid) :
    Covered c d s?.toList := by
  cases s? with
  | none => exact .failed laid h
  | some s => exact .single h.1 h.2

theorem label_covers (laid : c.Laid) :
    (label c).Ensures fun s? d => Covered c d s?.toList := by
  unfold label
  split
  · next t ts rest =>
    split
    · next pair =>
      have isName := (isAt_iff_head rest _).mp (isAt_of_atPair pair)
      have same : c.skipId.bump.skipId = c.skipId.skipId.bump := by
        simp only [Cursor.skipId, Cursor.bump, rest]
      have name := gathered_name (c := c.skipId) laid rest isName
      rw [same] at name
      have colon : c.skipId.skipId.bump.isAt .colon = true :=
        isAt_bump_of_atPair (c := c.skipId.skipId) pair
      have acc := name.bumpAt colon (by decide)
      have filled := acc.moved_of_mem (p := .ident _) List.mem_cons_self rfl
      exact .single (acc.complete rfl rfl rfl (fun clean => ⟨rfl, filled clean⟩) trivial) rfl
    · exact .start laid
  · exact .start laid

/-! ## Blocks -/

/-- The statements of a block are gathered, and its closing word comes next. -/
def Step.GathersBlock (r : Step c Block) : Prop := ∀ ⦃b ps⦄, Gathered b c ps →
  r.Ensures fun block d => Gathered b d (ps ++ parts block.statements) ∧
    ∀ word ∈ block.closer, d.atKeyword word = true

theorem closeBlock_passes {found : Option String} (expected : String) (acc : Gathered b c ps)
    (closer : ∀ word ∈ found, c.atKeyword word = true) :
    (closeBlock found expected c).Ensures fun _ d => Gathered b d ps := by
  cases found with
  | none => exact acc.report _
  | some word => exact acc.bumpKeyword (closer word rfl)

/-- A block is followed by its closing word. -/
theorem Step.GathersBlock.closed {r : Step c Block} (h : r.GathersBlock) (acc : Gathered b c ps)
    (expected : String) {β : Type} {Q : β → Cursor → Prop}
    {f : (block : Block) → (d : Cursor) → d.size ≤ c.size → (e : Cursor) → e.size ≤ d.size →
      Step e β}
    (next : ∀ block d l e l', Gathered b e (ps ++ parts block.statements) →
      (f block d l e l').Ensures Q) :
    (r.andThen fun block d l => (closeBlock block.closer expected d).andThen fun _ e l' =>
      f block d l e l').Ensures Q := by
  apply (h acc).andThen
  rintro block d l ⟨acc, closer⟩
  apply (closeBlock_passes expected acc closer).andThen
  intro _ e l' acc
  exact next block d l e l' acc

theorem Gathered.ofInlineDepth {n m : Nat} (h : Gathered (c.withInlineDepth n) d ps)
    (outside : m = c.inlineDepth) : Gathered c (d.withInlineDepth m) ps where
  laid := h.laid
  behind := h.behind.ofInlineDepth outside
  fits p member :=
    have fits := h.fits p member
    ⟨fits.id, fits.span, fits.name, fits.token, fits.dotted, fits.shaped⟩
  apart := h.apart
  ordered := h.ordered
  neatly clean :=
    have neatly := h.neatly clean
    ⟨neatly.within, neatly.beside, neatly.neat⟩
  strays := h.strays

mutual

theorem statement_covers (c : Cursor) (laid : c.Laid) :
    (statement c).Ensures fun s? d => Covered c d s?.toList := by
  rw [statement.eq_def]
  split
  · exact .start laid
  · next t ts rest =>
    have shorter : c.skipId.bump.size < c.size :=
      size_bump_lt (c := c.skipId) (by simp [skipId, rest])
    split
    · exact .start laid
    · split
      · exact .failed laid ((failed_report c _).late (bump_behind _))
      · dsimp only
        split
        · next word announced =>
          apply Step.Ensures.widen
          apply (simpleStatement_completes laid rest announced).imp
          exact fun completes => completes.covered laid
        · next word announced =>
          have read : Gathered c.skipId c.skipId.bump [] := by
            apply (Gathered.start (c := c.skipId) laid).bump
            simpa [skipId, rest] using plain_of_announcedBy announced
          apply Step.Ensures.widen
          apply (blockStatement_completes c.skipId.bump word read shorter).imp
          exact fun completes => completes.covered laid
        · apply Step.Ensures.widen
          apply (bareStatement_completes laid).imp
          exact fun completes => completes.covered laid
termination_by c.size * 8

theorem labelledStatement_covers (c : Cursor) (laid : c.Laid) :
    (labelledStatement c).Ensures fun ss d => Covered c d ss := by
  rw [labelledStatement_eq]
  apply (label_covers laid).andThen
  intro found d _ front
  split
  · exact front
  · apply (statement_covers d front.laid_next).andThen
    intro more e _ back
    apply (endStatement_reads e).map
    rintro _ f (rfl | failed)
    · exact front.append back
    · exact (front.append back).fail failed
termination_by c.size * 8 + 1

theorem statements_covers (closers : List String) (c : Cursor) (depth : c.inlineDepth = 0)
    (laid : c.Laid) : (statements closers c).Ensures fun block d =>
      Covered c d block.statements ∧ ∀ word ∈ block.closer, d.atKeyword word = true := by
  have front := Covered.skipSeparators laid
  have before : c.skipSeparators.size ≤ c.size := c.size_skipUntil_le _
  cases next : c.skipSeparators.rest with
  | nil =>
      rw [statements_of_end next]
      refine ⟨front, ?_⟩
      rintro word ⟨⟩
  | cons t ts =>
      cases closer : closers.find? t.isKeyword with
      | some word =>
          rw [statements_of_closer next closer]
          refine ⟨front, ?_⟩
          rintro word ⟨⟩
          have isWord : t.isKeyword word = true := by simpa using List.find?_some closer
          show c.skipSeparators.atKeyword word = true
          simpa only [atKeyword, next] using isWord
      | none =>
          -- the first statement takes up a token, so that the others are read from fewer
          have progress := size_labelledStatement_lt (atStatementEnd_skipSeparators depth next)
          have behind := (labelledStatement c.skipSeparators).behind
          have first := labelledStatement_covers c.skipSeparators front.laid_next
          have rest := statements_covers closers (labelledStatement c.skipSeparators).next
            (behind.inlineDepth.trans depth) (Covered.laid_next first)
          rw [statements_of_statement next closer]
          simp only [Step.andThen, Step.widen, if_pos progress]
          exact ⟨front.append (first.append rest.1), rest.2⟩
termination_by c.size * 8 + 2

theorem block_gathers (closers : List String) (c : Cursor) : (block closers c).GathersBlock := by
  intro b ps acc
  have inside := statements_covers closers (c.withInlineDepth 0) rfl acc.laid_next
  rw [block]
  exact ⟨acc.append (inside.1.gathered.ofInlineDepth rfl), inside.2⟩
termination_by c.size * 8 + 3

theorem inlineStatements_covers (c : Cursor) (laid : c.Laid) :
    (inlineStatements c).Ensures fun ss d => Covered c d ss := by
  rw [inlineStatements]
  apply (labelledStatement_covers c laid).andThen
  intro found d _ front
  split
  · next semicolon =>
    have shorter : d.bump.size < d.size := size_bump_lt_of_isAt semicolon
    have read := Covered.bumpSemicolon front.laid_next semicolon
    split
    · have all := front.append read
      rwa [List.append_nil] at all
    · apply Step.Ensures.widen
      apply (inlineStatements_covers d.bump read.laid_next).map
      exact fun more => front.append (read.append more)
  · exact front
termination_by c.size * 8 + 2

theorem blockIf_completes (condition : Expr) (c : Cursor) {b : Cursor}
    (acc : Gathered b.skipId c (parts condition)) (moved : c.size < b.size) :
    (blockIf b.mark condition c).Ensures (Completes b) := by
  rw [blockIf]
  apply (block_gathers _ c acc).andThen
  rintro first d _ ⟨acc, closer⟩
  have shorter : d.bump.size ≤ d.size := d.size_bump_le
  dsimp only
  split
  · next isElse =>
    apply Step.Ensures.widen
    apply (block_gathers ["fi", "endif"] d.bump).closed (acc.bumpKeyword (closer "else" isElse))
    intro second e _ f _ acc
    exact done_completes acc (by omega) fun _ => ⟨rfl, by simp [Statement.children], trivial⟩
  · apply (closeBlock_passes "fi" acc closer).andThen
    intro _ e _ acc
    exact done_completes acc (by omega) fun _ => ⟨rfl, by simp [Statement.children], trivial⟩
termination_by c.size * 8 + 4

theorem inlineIf_completes (condition : Expr) (c : Cursor) {b : Cursor}
    (acc : Gathered b.skipId c (parts condition)) (moved : c.size < b.size) :
    (inlineIf b.mark condition c).Ensures (Completes b) := by
  have same : (c.withInlineDepth (c.inlineDepth + 1)).size = c.size := size_withInlineDepth ..
  rw [inlineIf]
  have branches : Step.Ensures ((inlineStatements (c.withInlineDepth (c.inlineDepth + 1))).andThen
      fun thenBranch d _ => (eatKeyword "else" d).andThen fun hasElse e _ =>
        if hasElse then (inlineStatements e).map fun elseBranch => (thenBranch, elseBranch)
        else .pure e (thenBranch, [])) fun both d =>
          Gathered (c.withInlineDepth (c.inlineDepth + 1)) d (parts both) ∧
            d.Behind (c.withInlineDepth (c.inlineDepth + 1)) := by
    have laid : (c.withInlineDepth (c.inlineDepth + 1)).Laid := acc.laid_next
    apply (inlineStatements_covers (c.withInlineDepth (c.inlineDepth + 1)) laid).andThen
    intro thenBranch d l front
    apply (eatKeyword_passes "else" d front.gathered).andThen
    intro hasElse e l' acc
    split
    · apply (inlineStatements_covers e acc.laid_next).map
      intro elseBranch f back
      have both := acc.append back.gathered
      exact ⟨both, both.behind⟩
    · have both := acc.append (.start acc.laid_next)
      exact ⟨both, both.behind⟩
  obtain ⟨both, behind⟩ := branches
  -- behind both branches one `if` less is open, as before them
  have all := acc.append (both.ofInlineDepth (congrArg (· - 1) behind.inlineDepth))
  have fewer := behind.size_le
  have closed : (done b.mark _ (.branch · condition _ _)).Ensures (Completes b) :=
    done_completes all (Nat.lt_of_le_of_lt fewer moved) fun _ => ⟨rfl, rfl, trivial⟩
  exact closed
termination_by c.size * 8 + 4

theorem blockStatement_completes (c : Cursor) (word : BlockWord) {b : Cursor}
    (acc : Gathered b.skipId c []) (moved : c.size < b.size) :
    (blockStatement b.mark c word).Ensures (Completes b) := by
  rw [blockStatement.eq_def]
  cases word with
  | classWord isInterface =>
      apply (classHead_finds isInterface c acc).ifSome (·.outside)
      intro head d _ acc
      apply (block_gathers _ d).closed acc
      intro body e _ f _ acc
      exact done_completes acc (by omega) fun _ => ⟨rfl, by simp [Statement.children], trivial⟩
  | method =>
      apply (methodHead_finds c acc).ifSome (·.outside)
      intro head d _ acc
      apply (block_gathers _ d).closed acc
      intro body e _ f _ acc
      exact done_completes acc (by omega) fun _ => ⟨rfl, by simp [Statement.children], trivial⟩
  | procedure =>
      apply (procedureHead_finds c acc).ifSome (·.outside)
      intro head d _ acc
      apply (eat_passes .eq d (by decide) acc).andThen
      intro isInline e _ acc
      split
      · apply (expr_gathers e acc).andThen
        intro body f _ acc
        exact done_completes acc (by omega) fun _ => ⟨rfl, by simp [Statement.children], trivial⟩
      · apply (block_gathers _ e).closed acc
        intro body f _ g _ acc
        exact done_completes acc (by omega) fun _ => ⟨rfl, by simp [Statement.children], trivial⟩
  | ifWord =>
      apply (expr_gathers c acc).andThen
      intro condition d _ acc
      split
      · next then_ =>
        have shorter : d.bump.size ≤ d.size := d.size_bump_le
        have acc := acc.bumpKeyword then_
        apply Step.Ensures.widen
        split
        · exact blockIf_completes condition d.bump acc (by omega)
        · exact inlineIf_completes condition d.bump acc (by omega)
      · exact ((failed_report d _).early acc.behind).outside
  | forWord =>
      apply (forHead_finds c acc).ifSome (·.outside)
      intro head d _ acc
      apply (block_gathers _ d).closed acc
      intro body e _ f _ acc
      apply (nextVariable_gathers f acc).andThen
      intro next g _ acc
      exact done_completes acc (by omega) fun _ => ⟨rfl, by simp [Statement.children], trivial⟩
  | whileWord =>
      apply (expr_gathers c acc).andThen
      intro condition d _ acc
      apply (block_gathers _ d).closed acc
      intro body e _ f _ acc
      exact done_completes acc (by omega) fun _ => ⟨rfl, by simp [Statement.children], trivial⟩
termination_by c.size * 8 + 5

end

end BbjAnalysis.Parser
