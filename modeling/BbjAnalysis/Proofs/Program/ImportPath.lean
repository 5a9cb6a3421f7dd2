import BbjAnalysis.Proofs.Program.Spelling

/-! # The paths of imported files

The path of a `use ::path::Class` consists of the tokens between its two `::` that are no blanks.
So it is what is written there, but for blanks at the ends, exactly if no blank token stands between
two others; blanks in a string are part of its token (`parse_importPath`).

How a path comes apart again is told by its first characters alone: a blank token begins with a
blank, and no other token does (`exists_first_char`).
-/

namespace BbjAnalysis

namespace Parser

open Token (joined joined_cons joined_append isSpace)

/-! ## Blanks among tokens -/

section Blanks

variable {text : String} {t : Token} {ts : List Token}

theorem not_visible_iff : ¬ (t.kind != .whitespace) = true ↔ t.kind = .whitespace := by
  simp

theorem withoutBlanks_cons_blank (kind : t.kind = .whitespace) (ts : List Token) :
    withoutBlanks (t :: ts) = withoutBlanks ts :=
  List.filter_cons_of_neg (not_visible_iff.mpr kind)

/-- A token is a blank exactly if its first character is one. -/
theorem exists_first_char (member : t ∈ tokenize text) :
    ∃ c w, t.text.toList = c :: w ∧ (isSpace c = true ↔ t.kind = .whitespace) := by
  obtain ⟨before, behind, tokens⟩ := List.append_of_mem member
  obtain ⟨-, c, cs, first, -⟩ := Token.scan_behind tokens
  refine ⟨c, cs.take (Token.munch c cs).2, ?_, ?_⟩
  · rw [first, Token.firstToken, String.toList_ofList]
  rw [first]
  show isSpace c = true ↔ (Token.munch c cs).1 = .whitespace
  constructor
  · intro space
    simp [Token.munch, space]
  · intro blank
    have allowed : c :: cs.take (Token.munch c cs).2 ∈ (Token.munch c cs).1.pattern :=
      Token.munch_mem (by simp [blank])
    rw [blank] at allowed
    exact (Token.isSpace_iff c).mpr (Token.mem_whitespace.mp allowed).1

/-- What tokens that are no blanks begin with is no blank. -/
theorem exists_first_visible (among : ts ⊆ tokenize text) (some_visible : withoutBlanks ts ≠ []) :
    ∃ c w, (joined (withoutBlanks ts)).toList = c :: w ∧ isSpace c = false := by
  obtain ⟨t, us, visible⟩ := List.exists_cons_of_ne_nil some_visible
  have found : t ∈ withoutBlanks ts := visible ▸ List.mem_cons_self
  obtain ⟨inside, kind⟩ := List.mem_filter.mp found
  obtain ⟨c, w, chars, space⟩ := exists_first_char (among inside)
  refine ⟨c, w ++ (joined us).toList, ?_, ?_⟩
  · rw [visible, joined_cons, String.toList_append, chars, List.cons_append]
  · rw [Bool.eq_false_iff, ne_eq, space]
    exact bne_iff_ne.mp kind

/-- Nothing but blanks is written by tokens exactly if all of them are blanks. -/
theorem joined_blank_iff (among : ts ⊆ tokenize text) :
    (∀ c ∈ (joined ts).toList, isSpace c = true) ↔ withoutBlanks ts = [] := by
  constructor
  · intro blank
    rw [withoutBlanks, List.filter_eq_nil_iff]
    intro t member
    obtain ⟨c, w, chars, space⟩ := exists_first_char (among member)
    obtain ⟨before, behind, rfl⟩ := List.append_of_mem member
    rw [not_visible_iff, ← space]
    apply blank
    simp [joined_append, joined_cons, String.toList_append, chars]
  · intro none
    exact isSpace_of_blanks among (List.filter_eq_nil_iff.mp none)

theorem joined_withoutBlanks_eq_empty (among : ts ⊆ tokenize text) :
    joined (withoutBlanks ts) = "" ↔ withoutBlanks ts = [] := by
  constructor
  · intro empty
    by_contra some_visible
    obtain ⟨c, w, chars, -⟩ := exists_first_visible among some_visible
    rw [empty] at chars
    cases chars
  · intro none
    rw [none]
    rfl

end Blanks

/-! ## Blanks at the ends -/

/-- What is written is the source, but for blanks at the ends of the source. -/
def SameButEnds (written source : List Char) : Prop :=
  ∃ lead trail, (∀ c ∈ lead, isSpace c = true) ∧ (∀ c ∈ trail, isSpace c = true) ∧
    lead ++ written ++ trail = source

section Ends

variable {text : String} {ts : List Token}

/-- If what is missing of the source stands at its end, the blank tokens come last. -/
theorem isPrefix_withoutBlanks (among : ts ⊆ tokenize text) {trail : List Char}
    (same : (joined (withoutBlanks ts)).toList ++ trail = (joined ts).toList) :
    withoutBlanks ts <+: ts := by
  induction ts with
  | nil => exact List.prefix_rfl
  | cons t ts ih =>
      obtain ⟨member, later⟩ := List.cons_subset.mp among
      by_cases kind : t.kind = .whitespace
      · rw [withoutBlanks_cons_blank kind] at same ⊢
        by_cases none : withoutBlanks ts = []
        · rw [none]
          exact List.nil_prefix
        · -- otherwise a token that is no blank would begin with a blank
          obtain ⟨c, w, chars, visible⟩ := exists_first_visible later none
          obtain ⟨d, v, chars', space⟩ := exists_first_char member
          rw [joined_cons, String.toList_append, chars, chars'] at same
          obtain ⟨rfl, -⟩ := List.cons.inj same
          rw [space.mpr kind] at visible
          cases visible
      · rw [withoutBlanks_cons kind] at same ⊢
        rw [joined_cons, joined_cons, String.toList_append, String.toList_append,
          List.append_assoc] at same
        exact (List.prefix_cons_inj t).mpr (ih later (List.append_cancel_left same))

/-- If what is missing of the source stands at its ends, the blank tokens come first and last. -/
theorem isInfix_withoutBlanks (among : ts ⊆ tokenize text) {lead trail : List Char}
    (leads : ∀ c ∈ lead, isSpace c = true)
    (same : lead ++ (joined (withoutBlanks ts)).toList ++ trail = (joined ts).toList) :
    withoutBlanks ts <:+: ts := by
  induction ts generalizing lead with
  | nil => exact List.infix_rfl
  | cons t ts ih =>
      obtain ⟨member, later⟩ := List.cons_subset.mp among
      by_cases kind : t.kind = .whitespace
      · rw [withoutBlanks_cons_blank kind] at same ⊢
        by_cases none : withoutBlanks ts = []
        · rw [none]
          exact List.nil_infix
        obtain ⟨c, w, chars, visible⟩ := exists_first_visible later none
        rw [joined_cons, String.toList_append, List.append_assoc] at same
        apply List.infix_cons
        rcases List.append_eq_append_iff.mp same with ⟨more, front, rest⟩ | ⟨less, front, rest⟩
        · -- the blank token goes no further than the blanks in front
          cases more with
          | nil => exact @ih later [] nofun (by simpa using rest)
          | cons d more =>
              have blank := isSpace_of_blank member kind d (by rw [front]; simp)
              rw [chars, List.cons_append, List.cons_append] at rest
              obtain ⟨rfl, -⟩ := List.cons.inj rest
              rw [blank] at visible
              cases visible
        · refine @ih later less ?_ ?_
          · intro d inside
            exact leads d (by rw [front]; exact List.mem_append_right _ inside)
          · rw [List.append_assoc]
            exact rest.symm
      · cases lead with
        | nil => exact (isPrefix_withoutBlanks among same).isInfix
        | cons d lead =>
            obtain ⟨c, w, chars, space⟩ := exists_first_char member
            rw [joined_cons t, String.toList_append, chars] at same
            obtain ⟨rfl, -⟩ := List.cons.inj same
            exact absurd (space.mp (leads d List.mem_cons_self)) kind

/-- What the tokens that are no blanks write is all that is written but for blanks at the ends
exactly if no blank token stands between them. -/
theorem sameButEnds_iff (among : ts ⊆ tokenize text) :
    SameButEnds (joined (withoutBlanks ts)).toList (joined ts).toList ↔
      withoutBlanks ts <:+: ts := by
  constructor
  · rintro ⟨lead, trail, leads, -, same⟩
    exact isInfix_withoutBlanks among leads same
  · rintro ⟨front, back, whole⟩
    have twice : withoutBlanks (withoutBlanks ts) = withoutBlanks ts := by
      simp [withoutBlanks, List.filter_filter]
    have visible := congrArg (fun us => (withoutBlanks us).length) whole
    simp only [withoutBlanks_append, twice, List.length_append] at visible
    have none : withoutBlanks front = [] ∧ withoutBlanks back = [] := by
      constructor <;> apply List.length_eq_zero_iff.mp <;> omega
    have inFront : front ⊆ tokenize text := fun u member =>
      among (by rw [← whole]; simp [member])
    have inBack : back ⊆ tokenize text := fun u member =>
      among (by rw [← whole]; simp [member])
    refine ⟨_, _, (joined_blank_iff inFront).mpr none.1, (joined_blank_iff inBack).mpr none.2, ?_⟩
    rw [← String.toList_append, ← String.toList_append, ← joined_append, ← joined_append, whole]

end Ends

/-! ## Between the two `::` -/

/-- The tokens of a text that a `use ::path::Class` was read from. Blanks may stand around its two
`::`, and no further `::` stands between them. -/
inductive SpellsPath (tokens : List Token) (node : Node) (name : Ident) (first : Token)
    (between : List Token) (second : Token) : Prop
  | intro {word last : Token} {before gap gap' behind : List Token}
    (run : tokens =
      before ++ word :: (gap ++ first :: (between ++ second :: (gap' ++ last :: behind))))
    (use : word.isKeyword "use" = true) (opens : first.kind = .colonColon)
    (closes : second.kind = .colonColon) (inside : ∀ u ∈ between, u.kind ≠ .colonColon)
    (blank : ∀ u ∈ gap ++ gap', u.kind = .whitespace)
    (named : last.text = name.text ∧ last.span = name.span)
    (span : node.span = ⟨word.start, last.stop⟩)

/-- The tokens that were read are among all tokens of the text, with blanks in between. -/
theorem ReadsPath.spells {tokens : List Token} {node : Node} {path : Option String} {name : Ident}
    (reads : ReadsPath (withoutBlanks tokens) node path name) :
    ∃ first between second, SpellsPath tokens node name first between second ∧
      path = if (joined (withoutBlanks between)).isEmpty then none
        else some (joined (withoutBlanks between)) := by
  cases reads with
  | @intro word first second last visible run use opens closes inside stored named span =>
      obtain ⟨front, back, whole⟩ := run
      obtain ⟨ahead, behind, rfl, read, -⟩ := List.filter_eq_append_iff.mp whole.symm
      obtain ⟨before, us, rfl, -, read⟩ := List.filter_eq_append_iff.mp read
      obtain ⟨lead, us, rfl, -, -, read⟩ := List.filter_eq_cons_iff.mp read
      obtain ⟨gap, us, rfl, blank, -, read⟩ := List.filter_eq_cons_iff.mp read
      obtain ⟨written, us, rfl, pieces, read⟩ := List.filter_eq_append_iff.mp read
      obtain ⟨trail, us, rfl, skipped, -, read⟩ := List.filter_eq_cons_iff.mp read
      obtain ⟨gap', us, rfl, blank', -, -⟩ := List.filter_eq_cons_iff.mp read
      have between : withoutBlanks (written ++ trail) = visible := by
        rw [withoutBlanks, List.filter_append, pieces, List.filter_eq_nil_iff.mpr skipped,
          List.append_nil]
      refine ⟨first, written ++ trail, second, ?_, by rw [between]; exact stored⟩
      have tokens : before ++ (lead ++ word :: (gap ++ first :: (written ++ (trail ++ second ::
          (gap' ++ last :: us))))) ++ behind = (before ++ lead) ++ word :: (gap ++ first ::
            ((written ++ trail) ++ second :: (gap' ++ last :: (us ++ behind)))) := by
        simp
      refine .intro tokens use opens closes ?_ ?_ named span
      · intro u member colons
        apply inside u ?_ colons
        rw [← between]
        exact List.mem_filter.mpr ⟨member, by simp [colons]⟩
      · intro u member
        rw [← not_visible_iff]
        exact (List.mem_append.mp member).elim (blank u) (blank' u)

/-- What is written between the two `::`. -/
theorem SpellsPath.extract {text : String} {node : Node} {name : Ident} {first second : Token}
    {between : List Token} (spells : SpellsPath (tokenize text) node name first between second) :
    text.toByteArray.extract first.stop second.start = (joined between).toByteArray := by
  cases spells with
  | @intro word last before gap gap' behind run =>
      have opening : tokenize text = (before ++ word :: gap) ++ first ::
          (between ++ second :: (gap' ++ last :: behind)) := by
        simp [run]
      have closing : tokenize text = (before ++ word :: gap ++ [first] ++ between) ++
          second :: (gap' ++ last :: behind) := by
        simp [run]
      have whole : text = joined (before ++ word :: gap ++ [first]) ++
          (joined between ++ joined (second :: (gap' ++ last :: behind))) := by
        rw [← joined_append, ← joined_append, ← List.append_assoc, ← closing,
          Token.joined_tokenize]
      rw [(Token.offsets_of_tokens opening).2, (Token.offsets_of_tokens closing).1,
        joined_append _ between, String.utf8ByteSize_append]
      conv_lhs => rw [whole]
      exact Token.extract_piece ..

end Parser

open BbjAnalysis.Parser Token

/-- The path of an import consists of the tokens between its two `::` that are no blanks, and there
is none exactly if nothing but blanks stands there. It is what stands there, but for blanks at the
ends, exactly if no blank token stands between two others. -/
theorem parse_importPath {text : String} {node : Node} {path : Option String} {name : Ident}
    (member : .statement (.useClass node path name) ∈ (parse text).program.parts) :
    ∃ first between second, SpellsPath (tokenize text) node name first between second ∧
      text.toByteArray.extract first.stop second.start = (joined between).toByteArray ∧
      path.getD "" = joined (withoutBlanks between) ∧
      (path = none ↔ ∀ c ∈ (joined between).toList, isSpace c = true) ∧
      (SameButEnds (path.getD "").toList (joined between).toList ↔
        withoutBlanks between <:+: between) := by
  obtain ⟨first, between, second, spells, stored⟩ := (readsPath_of_mem_parts member).spells
  have among : between ⊆ tokenize text := by
    obtain ⟨run, -⟩ := spells
    rw [run]
    intro u inside
    simp [inside]
  have written : path.getD "" = joined (withoutBlanks between) := by
    rw [stored]
    split
    · next empty => exact (String.isEmpty_iff.mp empty).symm
    · rfl
  refine ⟨first, between, second, spells, spells.extract, written, ?_, ?_⟩
  · rw [joined_blank_iff among, ← joined_withoutBlanks_eq_empty among, ← String.isEmpty_iff, stored]
    split <;> simp_all
  · rw [written]
    exact sameButEnds_iff among

/-- The statement, the path and the class of an import from a file. -/
def Part.import? : Part → Option (Node × Option String × Ident)
  | .statement (.useClass node path name) => some (node, path, name)
  | _ => none

theorem Part.statement_of_import? {p : Part} {node : Node} {path : Option String} {name : Ident}
    (imports : p.import? = some (node, path, name)) :
    p = .statement (.useClass node path name) := by
  unfold import? at imports
  split at imports <;> cases imports
  rfl

/-- A path with a blank in it. -/
theorem parse_importPath_innerBlank :
    let text := "use ::my lib/x.bbj::Foo\n"
    let node : Node := ⟨1, ⟨0, 23⟩⟩
    let name : Ident := ⟨2, "Foo", ⟨20, 23⟩⟩
    .statement (.useClass node (some "mylib/x.bbj") name) ∈ (parse text).program.parts ∧
      ∃ first between second, SpellsPath (tokenize text) node name first between second ∧
        text.toByteArray.extract first.stop second.start = (joined between).toByteArray ∧
        "mylib/x.bbj" = joined (withoutBlanks between) := by
  intro text node name
  have member : .statement (.useClass node (some "mylib/x.bbj") name) ∈
      (parse text).program.parts := by
    have found : (node, some "mylib/x.bbj", name) ∈
        (parse text).program.parts.filterMap Part.import? := by
      decide +kernel
    obtain ⟨p, among, imports⟩ := List.mem_filterMap.mp found
    rwa [← Part.statement_of_import? imports]
  obtain ⟨first, between, second, spells, source, written, -⟩ := parse_importPath member
  exact ⟨member, first, between, second, spells, source, written⟩

end BbjAnalysis
