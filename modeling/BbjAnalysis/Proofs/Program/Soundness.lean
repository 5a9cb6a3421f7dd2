import BbjAnalysis.Proofs.Program.Gathering.Statement

/-! # The syntax tree against the text

What was gathered from a whole text says how its syntax tree and the text belong together: spans
lie in the text and identifiers are pieces of it, whether or not something is wrong; identities are
distinct, and those of names follow the order of the text; and where nothing is wrong, the spans
of the tree are nested, and no token was left out.
-/

namespace BbjAnalysis

namespace Parser

open Cursor HasParts BbjAnalysis.Part

variable {c d : Cursor} {text : String}

/-! ## Faults -/

/-- The tokens left stand in a row, and each fault lies in the text. -/
structure Placed (c : Cursor) : Prop where
  laid : c.Laid
  errors : ∀ e ∈ c.errors, e.span.start ≤ e.span.stop ∧ e.span.stop ≤ c.stop

theorem here_within (laid : c.Laid) : c.here.start ≤ c.here.stop ∧ c.here.stop ≤ c.stop := by
  unfold Laid at laid
  unfold here
  split
  · next t ts rest =>
    rw [rest] at laid
    obtain ⟨_, nonempty, row⟩ := laid
    exact ⟨Nat.le_of_lt nonempty, row.le⟩
  · exact ⟨Nat.le_refl _, Nat.le_refl _⟩

theorem Placed.move (placed : Placed c) (move : Move c d) : Placed d := by
  cases move with
  | identify | nest => exact ⟨placed.laid, placed.errors⟩
  | note plain =>
      refine ⟨placed.laid, fun e found => ?_⟩
      rcases List.mem_cons.mp found with rfl | found
      · exact here_within placed.laid
      · exact placed.errors e found
  | read next =>
      obtain ⟨t, ts, rest⟩ := List.exists_cons_of_ne_nil next
      have same : c.bump.errors = c.errors ∧ c.bump.stop = c.stop := by
        simp only [Cursor.bump, rest, and_self]
      refine ⟨(c.bump_behind.laid placed.laid).1, ?_⟩
      rw [same.1, same.2]
      exact placed.errors

theorem Placed.course (placed : Placed c) (course : Course c d) : Placed d := by
  induction course with
  | refl => exact placed
  | tail _ move ih => exact ih.move move

/-! ## Whole texts -/

theorem laid_startOf (text : String) : (startOf text).Laid :=
  (Token.row_tokenize text).filter _

/-- A text is read to its end, and its statements are gathered from all of it. -/
theorem parse_covered (text : String) : ∃ last, Course (startOf text) last ∧ last.rest = [] ∧
    Covered (startOf text) last (parse text).program.statements ∧
    (parse text).errors = last.errors.reverse := by
  refine ⟨(statements [] (startOf text)).next, ?_, ?_, ?_, parse_errors text⟩
  · exact (statements_runs [] (startOf text) rfl).1.course
  · exact rest_statements (startOf text) rfl
  · rw [parse_statements]
    exact (statements_covers [] (startOf text) rfl (laid_startOf text)).1

theorem errors_of_clean {text : String} {last : Cursor}
    (errors : (parse text).errors = last.errors.reverse) (clean : (parse text).isClean = true) :
    last.errors = (startOf text).errors := by
  show last.errors = []
  simpa [Parse.isClean, errors] using clean

/-- Statements that lie one beside the other follow one another. -/
theorem Neatly.statements {ss : List Statement} (neatly : Neatly c d (parts ss)) :
    ss.Pairwise fun s s' => s.span.stop ≤ s'.span.start := by
  have beside : (ss.flatMap fun s => [Part.statement s]).Pairwise Beside := neatly.beside
  rw [← List.map_eq_flatMap, List.pairwise_map] at beside
  exact beside

end Parser

open BbjAnalysis.Parser Cursor HasParts BbjAnalysis.Part

theorem span_within {text : String} {p : Part} (member : p ∈ (parse text).program.parts) {s : Span}
    (span : s ∈ p.span?) : s.start ≤ s.stop ∧ s.stop ≤ text.utf8ByteSize := by
  obtain ⟨last, -, -, covered, -⟩ := parse_covered text
  have stop : last.stop = text.utf8ByteSize := covered.gathered.behind.stop
  rw [← stop]
  exact (covered.gathered.fits p member).span s span

theorem neatly_of_clean {text : String} (clean : (parse text).isClean = true) :
    ∃ first last, Neatly first last (parts (parse text).program.statements) := by
  obtain ⟨last, -, -, covered, errors⟩ := parse_covered text
  exact ⟨_, last, covered.gathered.neatly (errors_of_clean errors clean)⟩

/-- The spans of all parts and of all faults lie in the text, and every identifier is the piece of
the text at its span. If nothing is wrong, no span of a node is empty, the spans of its children lie
in it one beside the other, and the statements of the program follow one another. -/
theorem parse_spans (text : String) :
    let program := (parse text).program
    (∀ p ∈ program.parts, ∀ s ∈ p.span?, s.start ≤ s.stop ∧ s.stop ≤ text.utf8ByteSize) ∧
      program.span = ⟨0, text.utf8ByteSize⟩ ∧
      (∀ e ∈ (parse text).errors,
        e.span.start ≤ e.span.stop ∧ e.span.stop ≤ text.utf8ByteSize) ∧
      (∀ i, .ident i ∈ program.parts →
        text.toByteArray.extract i.span.start i.span.stop = i.text.toByteArray) ∧
      ((parse text).isClean = true → (∀ p ∈ program.parts, p.Neat) ∧
        program.statements.Pairwise fun s s' => s.span.stop ≤ s'.span.start) := by
  intro program
  obtain ⟨last, course, -, covered, errors⟩ := parse_covered text
  have gathered := covered.gathered
  have stop : last.stop = text.utf8ByteSize := gathered.behind.stop
  refine ⟨fun p member s => span_within member, rfl, ?_, ?_, ?_⟩
  · have placed : Placed last := Placed.course ⟨laid_startOf text, nofun⟩ course
    intro e found
    rw [errors, List.mem_reverse] at found
    rw [← stop]
    exact placed.errors e found
  · intro i member
    obtain ⟨t, read, -, same, span⟩ := (gathered.fits _ member).token i rfl
    have piece := Token.extract_tokenize (List.mem_filter.mp read).1
    rw [← same, ← span]
    exact piece
  · intro clean
    obtain ⟨_, _, neatly⟩ := neatly_of_clean clean
    exact ⟨neatly.neat, neatly.statements⟩

/-- A block on several lines, and options in a call and in a statement. -/
theorem parse_spans_nestedBlocks :
    let text := "if a then\nx = f(1, err=*next) + #y.z[2]\nelse\nopen (1, mode=\"m\") \"p\"\nfi\n"
    (parse text).isClean = true ∧ (∀ p ∈ (parse text).program.parts, p.Neat) ∧
      (parse text).program.statements.Pairwise fun s s' => s.span.stop ≤ s'.span.start :=
  ⟨by decide +kernel, (parse_spans _).2.2.2.2 (by decide +kernel)⟩

theorem parse_shaped (text : String) : ∀ p ∈ (parse text).program.parts, p.Shaped := by
  intro p member
  obtain ⟨last, -, -, covered, -⟩ := parse_covered text
  exact (covered.gathered.fits p member).shaped.shaped

/-- An identifier is one of the tokens. -/
theorem token_of_mem_parts {text : String} {i : Ident}
    (member : .ident i ∈ (parse text).program.parts) :
    ∃ t ∈ withoutBlanks (tokenize text), t.kind = .ident ∧ t.text = i.text ∧ t.span = i.span := by
  obtain ⟨last, -, -, covered, -⟩ := parse_covered text
  exact (covered.gathered.fits _ member).token i rfl

/-- The import of a class from a file is a run of the tokens that are no blanks. -/
theorem readsPath_of_mem_parts {text : String} {node : Node} {path : Option String} {name : Ident}
    (member : .statement (.useClass node path name) ∈ (parse text).program.parts) :
    ReadsPath (withoutBlanks (tokenize text)) node path name := by
  obtain ⟨last, -, -, covered, -⟩ := parse_covered text
  exact (covered.gathered.fits _ member).shaped

/-- Names that may be declared stand in the text in the order of their identities. -/
theorem declarables_follow (text : String) :
    (parse text).program.declarables.Pairwise fun i j => Follows i.node j.node := by
  obtain ⟨last, -, -, covered, -⟩ := parse_covered text
  exact covered.gathered.ordered

section Identities

variable (text : String)

theorem ids_nodup : ((parse text).program.parts.filterMap id?).Nodup := by
  obtain ⟨last, -, -, covered, -⟩ := parse_covered text
  apply covered.gathered.apart.filterMap id?
  rintro p q apart i here j there rfl
  exact apart.id i here there

theorem names_follow : ((parse text).program.parts.filterMap name?).Pairwise fun x y =>
    Follows x y ∨ Follows y x := by
  obtain ⟨last, -, -, covered, -⟩ := parse_covered text
  exact covered.gathered.apart.filterMap name? fun p q apart x here y there =>
    apart.name x here y there

theorem name_nonempty {n : Node} (member : n ∈ (parse text).program.parts.filterMap name?) :
    n.span.start < n.span.stop := by
  obtain ⟨last, -, -, covered, -⟩ := parse_covered text
  obtain ⟨p, gathers, named⟩ := List.mem_filterMap.mp member
  exact ((covered.gathered.fits p gathers).name n named).2.1

/-- Names have the order of their identities in the text. -/
theorem names_ordered {x y : Node} (here : x ∈ (parse text).program.parts.filterMap name?)
    (there : y ∈ (parse text).program.parts.filterMap name?) :
    x.id < y.id ↔ x.span.stop ≤ y.span.start := by
  have asOrdered (x y : Node) (first : x.span.start < x.span.stop)
      (second : y.span.start < y.span.stop) (order : Follows x y ∨ Follows y x) :
      x.id < y.id ↔ x.span.stop ≤ y.span.start := by
    rcases order with ⟨before, ends⟩ | ⟨before, ends⟩
    · exact ⟨fun _ => ends, fun _ => before⟩
    · constructor
      · exact fun less => absurd (Nat.lt_trans less before) (Nat.lt_irrefl _)
      · omega
  -- the list says it of a name and those behind it; a name and itself are neither before
  -- nor behind each other, since no name is empty
  apply List.Pairwise.forall_of_forall_of_flip (l := (parse text).program.parts.filterMap name?)
    ?_ ?_ ?_ here there
  · intro x member
    have := name_nonempty text member
    exact ⟨fun less => absurd less (Nat.lt_irrefl _), by omega⟩
  · exact (names_follow text).imp_of_mem fun here there order =>
      asOrdered _ _ (name_nonempty text here) (name_nonempty text there) order
  · exact (names_follow text).imp_of_mem fun here there order =>
      asOrdered _ _ (name_nonempty text there) (name_nonempty text here) order.symm

theorem names_disjoint : ((parse text).program.parts.filterMap name?).Pairwise fun x y =>
    x.span.stop ≤ y.span.start ∨ y.span.stop ≤ x.span.start :=
  (names_follow text).imp fun order => order.imp And.right And.right

end Identities

/-- No two nodes have one identity, and none has that of the program. One of two names comes first
in the text exactly if its identity is the lesser one; so no two names overlap. -/
theorem parse_identities (text : String) :
    let parts := (parse text).program.parts
    let names := parts.filterMap name?
    (parts.filterMap id?).Nodup ∧ Program.rootId ∉ parts.filterMap id? ∧
      (∀ x ∈ names, ∀ y ∈ names, x.id < y.id ↔ x.span.stop ≤ y.span.start) ∧
      names.Pairwise fun x y => x.span.stop ≤ y.span.start ∨ y.span.stop ≤ x.span.start := by
  intro parts names
  refine ⟨ids_nodup text, fun member => ?_, fun x here y there => names_ordered text here there,
    names_disjoint text⟩
  obtain ⟨last, -, -, covered, -⟩ := parse_covered text
  obtain ⟨p, gathers, given⟩ := List.mem_filterMap.mp member
  exact Nat.not_succ_le_self 0 ((covered.gathered.fits p gathers).id _ given).1

/-- The token lies in the statement. -/
def Holds (s : Statement) (t : Token) : Prop := s.span.start ≤ t.start ∧ t.stop ≤ s.span.stop

/-- A text without faults is read as a whole: no expression is missing in its tree, each token but
blanks and separators lies in exactly one of its statements, and a token that fits nowhere lies in a
remark or in the path of a file. -/
theorem parse_keeps_all (text : String) (clean : (parse text).isClean = true) :
    let program := (parse text).program
    (∀ p ∈ program.parts, p.isMissing = false) ∧
      (program.statements.Pairwise fun s s' => s.span.stop ≤ s'.span.start) ∧
      (∀ t ∈ tokenize text, t.kind ≠ .whitespace → t.kind ≠ .newline → t.kind ≠ .semicolon →
        ∃! s, s ∈ program.statements ∧ Holds s t) ∧
      ∀ t ∈ tokenize text, t.kind = .error →
        ∃ s, .statement s ∈ program.parts ∧ Excused (withoutBlanks (tokenize text)) t s := by
  intro program
  obtain ⟨last, -, ends, covered, errors⟩ := parse_covered text
  have gathered := covered.gathered
  have clean := errors_of_clean errors clean
  have neatly := gathered.neatly clean
  have ordered := neatly.statements
  have read (t : Token) (member : t ∈ tokenize text) (visible : t.kind ≠ .whitespace) :
      Passed (startOf text) last t :=
    .of_mem (List.mem_filter.mpr ⟨member, bne_iff_ne.mpr visible⟩) ends
  refine ⟨fun p member => (neatly.neat p member).present, ordered, ?_, ?_⟩
  · intro t member visible sameLine sameStatement
    have passed := read t member visible
    obtain ⟨_, nonempty, _⟩ := passed.within gathered.laid gathered.behind
    have inside : t.kind.isStatementEnd = false := by
      cases kind : t.kind <;> simp_all [TokenKind.isStatementEnd]
    obtain ⟨s, among, holds⟩ := covered.covers clean t passed inside
    refine ⟨s, ⟨among, holds⟩, ?_⟩
    rintro s' ⟨among', holds'⟩
    have unique : ∀ s ∈ program.statements, ∀ s' ∈ program.statements,
        Holds s t → Holds s' t → s' = s := by
      intro s here s' there
      apply List.Pairwise.forall_of_forall_of_flip ?_ ?_ ?_ here there
      · exact fun _ _ _ _ => rfl
      · apply ordered.imp
        rintro s s' follows ⟨_, ends⟩ ⟨starts, _⟩
        omega
      · apply ordered.imp
        rintro s s' follows ⟨starts, _⟩ ⟨_, ends⟩
        omega
    exact unique s among s' among' holds holds'
  · intro t member stray
    exact gathered.strays clean t (read t member (by simp [stray])) stray

/-- A tilde fits nowhere but in the path of a file and in a remark. -/
theorem parse_keeps_all_pathAndRemark :
    let text := "use ::a~b.bbj::C\nif x then y = 1; rem ~\n"
    let stray : Token := ⟨.error, "~", 7⟩
    (parse text).isClean = true ∧ stray ∈ tokenize text ∧
      ∃ s, .statement s ∈ (parse text).program.parts ∧
        Excused (withoutBlanks (tokenize text)) stray s :=
  ⟨by decide +kernel, by decide +kernel,
    (parse_keeps_all _ (by decide +kernel)).2.2.2 _ (by decide +kernel) rfl⟩

end BbjAnalysis
