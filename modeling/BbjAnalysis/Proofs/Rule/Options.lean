import BbjAnalysis.Proofs.Diagnostic.Listing
import BbjAnalysis.Proofs.Program.Soundness
import BbjAnalysis.Proofs.Program.Walk
import BbjAnalysis.Rule.Basic
import Mathlib.Data.List.Flatten
import Mathlib.Data.List.Nodup
import Mathlib.Data.List.Perm.Basic

/-! # Findings on options

What the rules on options report stands at statements, each of which has an identity of its own. So
the findings at one statement are those of its own check (`filter_flatMap_at`), and none is taken
for a repetition of another one, since options of one statement begin with different keys
(`optionSpans_nodup`).
-/

namespace BbjAnalysis

open HasParts BbjAnalysis.Part

/-! ## Statements and their options -/

/-- Statements of a program have different identities. -/
theorem statementIds_nodup (text : String) :
    ((parse text).program.allStatements.map (·.id)).Nodup := by
  rw [Program.allStatements_eq, List.map_filterMap]
  refine (filterMap_sublist (fun p i given => ?_) _).nodup (ids_nodup text)
  obtain ⟨s, same, rfl⟩ := Option.map_eq_some_iff.mp given
  rw [statement?_eq_some.mp same]
  rfl

theorem keyIds_sublist (options : List StatementOption) :
    (options.map (·.key.id)).Sublist ((allOf (parts options)).filterMap id?) := by
  induction options with
  | nil => exact .slnil
  | cons o rest ih =>
      show List.Sublist _ (picked id? (.option o :: parts rest))
      rw [picked_cons, show (Part.option o).children = .ident o.key :: parts o.value from rfl,
        picked_cons]
      exact .cons _ ((ih.trans (List.sublist_append_right _ _)).cons_cons _)

/-- Options of a statement begin with different keys, so that they have different spans. -/
theorem optionSpans_nodup {text : String} {s : Statement} {options : List StatementOption}
    (member : .statement s ∈ (parse text).program.parts)
    (among : (parts options).Sublist s.children) : (options.map (·.span)).Nodup := by
  have inside : (allOf (parts options)).Sublist (parse text).program.parts :=
    (among.flatMap all).trans (allOf_children_sublist member)
  have keys := ((keyIds_sublist options).trans (inside.filterMap id?)).nodup (ids_nodup text)
  have found (o : StatementOption) (member : o ∈ options) :
      (Part.option o).Shaped ∧
        ⟨o.key.id, o.key.span⟩ ∈ (parse text).program.parts.filterMap name? := by
    have option : .option o ∈ parts options := List.mem_flatMap.mpr ⟨o, member, List.mem_cons_self⟩
    exact ⟨parse_shaped text _ (inside.subset (mem_allOf_of_mem option)),
      List.mem_filterMap.mpr ⟨_, inside.subset (key_mem_allOf option), rfl⟩⟩
  have apart : options.Pairwise fun o o' => o.key.id ≠ o'.key.id := List.pairwise_map.mp keys
  refine List.pairwise_map.mpr (apart.imp_of_mem fun {o o'} here there differ same => ?_)
  obtain ⟨begins, first⟩ := found o here
  obtain ⟨begins', second⟩ := found o' there
  -- keys with one start would overlap, unless they are one
  have starts : o.key.span.start = o'.key.span.start := by
    rw [← show o.span.start = _ from begins, ← show o'.span.start = _ from begins', same]
  have room : o.key.span.start < o.key.span.stop := name_nonempty text first
  have room' : o'.key.span.start < o'.key.span.stop := name_nonempty text second
  rcases Nat.lt_or_gt_of_ne differ with less | less
  · have before : o.key.span.stop ≤ o'.key.span.start := (names_ordered text first second).mp less
    omega
  · have before : o'.key.span.stop ≤ o.key.span.start := (names_ordered text second first).mp less
    omega

/-! ## Findings -/

/-- What is reported at one of several statements is what its own check reports. -/
theorem filter_flatMap_at {ss : List Statement} {check : Statement → List Diagnostic}
    (distinct : (ss.map (·.id)).Nodup) (own : ∀ s, ∀ d ∈ check s, d.node = s.id) {s : Statement}
    (member : s ∈ ss) : (ss.flatMap check).filter (·.node = s.id) = check s := by
  induction ss with
  | nil => cases member
  | cons first rest ih =>
      obtain ⟨fresh, distinct⟩ := List.nodup_cons.mp distinct
      rw [List.flatMap_cons, List.filter_append]
      rcases List.mem_cons.mp member with rfl | member
      · have others : (rest.flatMap check).filter (·.node = s.id) = [] := by
          simp only [List.filter_eq_nil_iff, List.mem_flatMap, decide_eq_true_eq]
          rintro d ⟨other, among, found⟩ here
          exact fresh (List.mem_map.mpr ⟨other, among, (own other d found).symm.trans here⟩)
        rw [others, List.append_nil, List.filter_eq_self]
        exact fun d found => decide_eq_true (own s d found)
      · have others : (check first).filter (·.node = s.id) = [] := by
          simp only [List.filter_eq_nil_iff, decide_eq_true_eq]
          rintro d found here
          exact fresh (List.mem_map.mpr ⟨s, member, here.symm.trans (own first d found)⟩)
        rw [others, List.nil_append, ih distinct member]

namespace Rule

/-- What both rules on options report on one statement. -/
def checkKeys (document : DocumentId) (table : OptionTable) (s : Statement) : List Diagnostic :=
  checkOptions document table s ++ checkMode document s

variable {document : DocumentId} {table : OptionTable}

theorem node_of_checkKeys (s : Statement) : ∀ d ∈ checkKeys document table s, d.node = s.id := by
  intro d found
  rcases List.mem_append.mp found with found | found
  · unfold checkOptions at found
    split at found
    · split at found
      · cases found
      · rw [List.mem_singleton.mp found]
        rfl
    · cases found
  · unfold checkMode at found
    split at found
    · split at found
      · cases found
      · obtain ⟨o, -, rfl⟩ := List.mem_map.mp found
        rfl
    · cases found

theorem checkKeys_nodup {text : String} {s : Statement}
    (member : .statement s ∈ (parse text).program.parts) : (checkKeys document table s).Nodup := by
  cases s with
  | openFile node file =>
      simp only [checkKeys, checkOptions, checkMode, List.append_nil]
      split
      · exact .nil
      · exact List.nodup_singleton _
  | keyedFile node file =>
      simp only [checkKeys, checkOptions, checkMode, List.nil_append]
      split
      · exact .nil
      · have spans := optionSpans_nodup member (List.sublist_append_right _ _)
        apply List.Nodup.of_map (·.span)
        rw [List.map_map]
        exact ((List.filter_sublist (l := file.options)).map (·.span)).nodup spans
  | _ => exact .nil

theorem validate_keys_perm (text : String) (document : DocumentId) (table : OptionTable)
    (tree : ScopeTree) (references : List ReferenceSite) (links : Links) :
    let program := (parse text).program
    (RuleSet.validate ⟨[.statementOptions table, .keyedMode]⟩
      ⟨document, program, tree, references, links⟩).Perm
        (program.allStatements.flatMap (checkKeys document table)) := by
  intro program
  have once : (program.allStatements.flatMap (checkKeys document table)).Nodup := by
    refine List.nodup_flatMap.mpr ⟨fun s among => ?_, ?_⟩
    · have member : .statement s ∈ (parse text).program.parts := Program.mem_allStatements.mp among
      exact checkKeys_nodup member
    · refine (List.pairwise_map.mp (statementIds_nodup text)).imp fun differ => ?_
      intro d here there
      exact differ ((node_of_checkKeys _ d here).symm.trans (node_of_checkKeys _ d there))
  have both := List.flatMap_append_perm program.allStatements (checkOptions document table)
    (checkMode document)
  have listed := Diagnostic.finish_perm (both.nodup_iff.mpr once)
  refine List.Perm.trans (.of_eq ?_) (listed.trans both)
  simp only [RuleSet.validate, check, List.flatMap_cons, List.flatMap_nil, List.append_nil]

/-- The options that `open` does not take are those whose keys are, in any letter case, neither
among the known ones nor `err`. -/
theorem illegal_eq {legal : List String} (known : table.legalKeys openVerb = some legal)
    (options : List StatementOption) : table.illegal openVerb options =
      options.filter fun o => ∀ key ∈ legal ++ ["err"], key.toLower ≠ o.key.text.toLower := by
  simp only [OptionTable.illegal, known, OptionTable.hasKey, OptionTable.universalKeys]
  congr 1
  funext o
  rw [Bool.eq_iff_iff, Bool.not_eq_true', List.any_eq_false, decide_eq_true_eq]
  simp only [beq_iff_eq, ne_eq]

theorem checkOptions_openFile {legal : List String}
    (known : table.legalKeys openVerb = some legal) (node : Node) (file : OpenFile) :
    let illegal := file.options.filter fun o =>
      ∀ key ∈ legal ++ ["err"], key.toLower ≠ o.key.text.toLower
    checkOptions document table (.openFile node file) = if illegal = [] then [] else
      [⟨document, node.id, some "options", file.optionsSpan, .error, some Code.illegalOptions,
        illegalOptionsMessage "OPEN" legal illegal, []⟩] := by
  intro illegal
  have same : table.illegal openVerb file.options = illegal := illegal_eq known file.options
  rw [checkOptions, same]
  generalize illegal = found
  cases found with
  | nil => rfl
  | cons o others =>
      rw [known]
      rfl

end Rule

/-- Wherever `open` stands, there is one finding on all its options that it does not take, as
written and in the order of the text, at the least span around its options, and no finding if it
takes them all; wherever `vkeyed` or `xkeyed` stands, there is one finding on each `MODE`. There are
no other findings, in particular none on `mkeyed`. -/
theorem validate_options (text : String) (document : DocumentId) (tree : ScopeTree)
    (references : List ReferenceSite) (links : Links) (table : OptionTable) {legal : List String}
    (known : table.legalKeys Rule.openVerb = some legal) :
    let program := (parse text).program
    let found := RuleSet.validate ⟨[.statementOptions table, .keyedMode]⟩
      ⟨document, program, tree, references, links⟩
    (∀ node file, .statement (.openFile node file) ∈ program.parts →
      let illegal := file.options.filter fun o =>
        ∀ key ∈ legal ++ ["err"], key.toLower ≠ o.key.text.toLower
      found.filter (·.node = node.id) = (if illegal = [] then [] else
        [⟨document, node.id, some "options", file.optionsSpan, .error, some Code.illegalOptions,
          Rule.illegalOptionsMessage "OPEN" legal illegal, []⟩]) ∧
      Part.KeysInOrder file.options ∧
      (illegal ≠ [] → file.optionsSpan.IsHull (file.options.map (·.span)))) ∧
    (∀ node file, .statement (.keyedFile node file) ∈ program.parts →
      (found.filter (·.node = node.id)).Perm (if file.verb = .mkeyed then [] else
        (file.options.filter (·.key.text.toLower = "mode")).map fun o =>
          ⟨document, node.id, some "mode", o.span, .error, some Code.optionOfOtherVerb,
            "MODE option only supported in MKEYED Verb.", []⟩)) ∧
    ∀ d ∈ found, ∃ s, .statement s ∈ program.parts ∧ d.node = s.id ∧
      ((∃ node file, s = .openFile node file) ∨ ∃ node file, s = .keyedFile node file) := by
  intro program found
  have perm : found.Perm (program.allStatements.flatMap (Rule.checkKeys document table)) :=
    Rule.validate_keys_perm text document table tree references links
  have at_ (s : Statement) (member : .statement s ∈ program.parts) :
      (found.filter (·.node = s.id)).Perm (Rule.checkKeys document table s) := by
    have among := Program.mem_allStatements.mpr member
    have nodes : ∀ s, ∀ d ∈ Rule.checkKeys document table s, d.node = s.id :=
      Rule.node_of_checkKeys
    have own := filter_flatMap_at (statementIds_nodup text) nodes among
    exact (perm.filter _).trans (.of_eq own)
  refine ⟨fun node file member => ?_, fun node file member => ?_, fun d reported => ?_⟩
  · intro illegal
    obtain ⟨ordered, hull⟩ := parse_shaped text _ member
    refine ⟨?_, ordered, fun some => hull fun none => some (by simp [illegal, none])⟩
    have here : (found.filter (·.node = node.id)).Perm
        (Rule.checkOptions document table (.openFile node file) ++ []) := at_ _ member
    rw [List.append_nil, Rule.checkOptions_openFile known] at here
    split at here
    · next none => rw [if_pos none, List.perm_nil.mp here]
    · next some => rw [if_neg some, List.perm_singleton.mp here]
  · have here := at_ _ member
    simp only [Rule.checkKeys, Rule.checkOptions, Rule.checkMode, List.nil_append] at here
    exact here
  · obtain ⟨s, among, reported⟩ := List.mem_flatMap.mp (perm.mem_iff.mp reported)
    refine ⟨s, Program.mem_allStatements.mp among, Rule.node_of_checkKeys s d reported, ?_⟩
    cases s with
    | openFile node file => exact .inl ⟨node, file, rfl⟩
    | keyedFile node file => exact .inr ⟨node, file, rfl⟩
    | _ => cases reported

/-- An `open` in a one-line `if` in a function. -/
theorem validate_options_inFunction :
    let text := "def fnf(x)\nif x then open (1,err=a,foo=1,BAR=2) \"f\"\nfnend\n"
    let program := (parse text).program
    let found := RuleSet.validate ⟨[.statementOptions .standard, .keyedMode]⟩
      ⟨0, program, .ofModule 0 0 program.span, [], .empty⟩
    OptionTable.standard.legalKeys Rule.openVerb = some ["mode", "tim"] ∧
      ∃ node file, .statement (.openFile node file) ∈ program.parts ∧
        (found.filter (·.node = node.id)).map (·.message) =
          ["OPEN verb can have following two optional options: mode,tim. Found: foo,BAR."] := by
  intro text program found
  have known : OptionTable.standard.legalKeys Rule.openVerb = some ["mode", "tim"] := by
    decide +kernel
  let message := "OPEN verb can have following two optional options: mode,tim. Found: foo,BAR."
  have stands : program.allStatements.any
      (fun s => (Rule.checkOptions 0 .standard s).map (·.message) == [message]) = true := by
    decide +kernel
  obtain ⟨s, among, messages⟩ := List.any_eq_true.mp stands
  cases s with
  | openFile node file =>
      have member := Program.mem_allStatements.mp among
      have reported := ((validate_options text 0 (.ofModule 0 0 program.span) [] .empty .standard
        known).1 node file member).1
      refine ⟨known, node, file, member, ?_⟩
      rw [reported.trans (Rule.checkOptions_openFile known node file).symm]
      exact beq_iff_eq.mp messages
  | _ => cases messages

end BbjAnalysis
