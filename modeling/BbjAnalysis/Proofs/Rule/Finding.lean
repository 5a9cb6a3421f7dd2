import BbjAnalysis.Proofs.Diagnostic.Listing
import BbjAnalysis.Proofs.Scope.LabelMap
import BbjAnalysis.Rule.Basic
import Mathlib.Data.List.Find

/-! # Findings of the rules

Each rule has a code of its own, and with it all that the order of listing does not look at
(`Rule.shape_of_mem_check`), but for the place of the first label that a finding on a duplicate
label refers to. That one is told by the node (`Rule.mem_check_duplicateLabel`). So findings of any
rules are told apart by the order of listing (`Rule.toldApart`), and a listing depends on the rules
as a set (`RuleSet.validate_congr`).
-/

namespace BbjAnalysis

open HasParts BbjAnalysis.Part

/-- What rules look at for a text that was read, with the given links. -/
def RuleContext.ofText (text : String) (document : DocumentId) (uri : String) (links : Links) :
    RuleContext :=
  let program := (parse text).program
  let scopes := computeScopes document uri program
  ⟨document, program, scopes.tree, scopes.references, links⟩

namespace Rule

/-! ## The shape of findings -/

/-- The code of all findings of a rule. -/
def code : Rule → String
  | .statementOptions _ => Code.illegalOptions
  | .keyedMode => Code.optionOfOtherVerb
  | .undefinedLabel => Code.undefinedLabel
  | .duplicateLabel => Code.duplicateLabel

/-- The part of a node that the findings of a rule are about. -/
def part : Rule → Option String
  | .statementOptions _ => some "options"
  | .keyedMode => some "mode"
  | .undefinedLabel | .duplicateLabel => none

theorem part_eq_of_code_eq {r r' : Rule} (same : r.code = r'.code) : r.part = r'.part := by
  cases r <;> cases r' <;> simp_all [code, part, Code.illegalOptions, Code.optionOfOtherVerb,
    Code.undefinedLabel, Code.duplicateLabel]

/-- A rule is known by its code, but for the tables that options are checked against. -/
theorem eq_of_code_eq {r r' : Rule} (plain : ∀ table, r ≠ .statementOptions table)
    (same : r'.code = r.code) : r' = r := by
  cases r <;> cases r' <;> simp_all [code, Code.illegalOptions, Code.optionOfOtherVerb,
    Code.undefinedLabel, Code.duplicateLabel]

/-- A finding of a rule, but for what the order of listing looks at. -/
structure Shape (r : Rule) (document : DocumentId) (d : Diagnostic) : Prop where
  document : d.document = document
  part : d.part = r.part
  severity : d.severity = .error
  code : d.code = some r.code
  related : r ≠ .duplicateLabel → d.related = []

theorem shape_of_mem_check {ctx : RuleContext} {r : Rule} {d : Diagnostic}
    (found : d ∈ r.check ctx) : r.Shape ctx.document d := by
  cases r with
  | statementOptions table =>
      obtain ⟨s, -, found⟩ := List.mem_flatMap.mp found
      cases s with
      | openFile node file =>
          simp only [checkOptions] at found
          split at found
          · cases found
          · rw [List.mem_singleton.mp found]
            exact ⟨rfl, rfl, rfl, rfl, fun _ => rfl⟩
      | _ => cases found
  | keyedMode =>
      obtain ⟨s, -, found⟩ := List.mem_flatMap.mp found
      cases s with
      | keyedFile node file =>
          simp only [checkMode] at found
          split at found
          · cases found
          · obtain ⟨o, -, rfl⟩ := List.mem_map.mp found
            exact ⟨rfl, rfl, rfl, rfl, fun _ => rfl⟩
      | _ => cases found
  | undefinedLabel =>
      obtain ⟨site, -, found⟩ := List.mem_flatMap.mp found
      unfold checkTarget at found
      split at found
      · rw [List.mem_singleton.mp found]
        exact ⟨rfl, rfl, rfl, rfl, fun _ => rfl⟩
      · cases found
  | duplicateLabel =>
      obtain ⟨scope, -, found⟩ := List.mem_flatMap.mp found
      obtain ⟨⟨name, ids⟩, -, found⟩ := List.mem_flatMap.mp found
      simp only at found
      unfold checkLabels at found
      split at found
      · cases found
      · obtain ⟨symbol, -, found⟩ := List.mem_filterMap.mp found
        obtain ⟨node, -, rfl⟩ := Option.map_eq_some_iff.mp found
        exact ⟨rfl, rfl, rfl, rfl, fun other => absurd rfl other⟩

/-! ## Duplicate labels -/

/-- The finding on a label of which there is an earlier one. -/
def duplicateReport (document : DocumentId) (first label : PlacedName) : Diagnostic :=
  ⟨document, label.name.id, none, label.name.span, .error, some Code.duplicateLabel,
    s!"Duplicate label '{label.name.text.toLower}'.",
    [⟨document, first.name.span, "first declared here"⟩]⟩

/-- In each scope the labels of each name are checked. -/
theorem mem_check_duplicateLabel_iff {ctx : RuleContext} (wf : ctx.tree.WellFormed)
    {d : Diagnostic} : d ∈ Rule.duplicateLabel.check ctx ↔
      ∃ i name, d ∈ checkLabels ctx.document name (ctx.tree.labelsAt i name) := by
  constructor
  · intro found
    obtain ⟨scope, among, found⟩ := List.mem_flatMap.mp found
    obtain ⟨entry, listed, found⟩ := List.mem_flatMap.mp found
    obtain ⟨i, place⟩ := List.mem_iff_getElem?.mp among
    rw [Array.getElem?_toList] at place
    have ids := Scope.lookup_of_mem (wf.names i scope place) listed
    refine ⟨i, entry.1, ?_⟩
    simp only [ScopeTree.labelsAt, ScopeTree.lookupLocal, place, ids]
    exact found
  · rintro ⟨i, name, found⟩
    have some : ctx.tree.labelsAt i name ≠ [] := by
      intro none
      rw [none] at found
      cases found
    obtain ⟨symbol, declared⟩ := List.exists_mem_of_ne_nil _ some
    cases place : ctx.tree.scopes[i]? with
    | none => simp [ScopeTree.labelsAt, ScopeTree.lookupLocal, place] at declared
    | some scope =>
        simp only [ScopeTree.labelsAt, ScopeTree.lookupLocal, place] at found declared
        obtain ⟨id, inside, -⟩ := List.mem_filterMap.mp (List.mem_filter.mp declared).1
        obtain ⟨entry, listed, rfl, -⟩ := Scope.mem_of_mem_lookup inside
        refine List.mem_flatMap.mpr ⟨scope, ?_, List.mem_flatMap.mpr ⟨entry, listed, ?_⟩⟩
        · exact List.mem_of_getElem? (Array.getElem?_toList.trans place)
        · rw [Scope.lookup_of_mem (wf.names i scope place) listed] at found
          exact found

theorem mem_checkLabels_map {document : DocumentId} {name : String}
    {ns : List (ScopeId × PlacedName)} {d : Diagnostic} :
    d ∈ checkLabels document name (ns.map (labelSymbol document)) ↔
      ∃ first, ns.head? = some first ∧ ∃ n ∈ ns.tail, d =
        ⟨document, n.2.name.id, none, n.2.name.span, .error, some Code.duplicateLabel,
          s!"Duplicate label '{name}'.",
          [⟨document, first.2.name.span, "first declared here"⟩]⟩ := by
  cases ns with
  | nil => simp [checkLabels]
  | cons first later =>
      rw [List.map_cons, checkLabels, List.filterMap_map, List.mem_filterMap]
      simp only [List.head?_cons, Option.some.injEq, exists_eq_left', List.tail_cons]
      constructor
      · rintro ⟨n, among, reported⟩
        exact ⟨n, among, (Option.some.inj reported).symm⟩
      · rintro ⟨n, among, rfl⟩
        exact ⟨n, among, rfl⟩

/-- What comes behind the first of several different things is what differs from it. -/
theorem mem_tail_iff {α : Type} {as : List α} (distinct : as.Nodup) {first a : α}
    (head : as.head? = some first) : a ∈ as.tail ↔ a ∈ as ∧ first ≠ a := by
  obtain ⟨rest, rfl⟩ := List.head?_eq_some_iff.mp head
  obtain ⟨fresh, -⟩ := List.nodup_cons.mp distinct
  simp only [List.tail_cons, List.mem_cons]
  constructor
  · intro later
    refine ⟨.inr later, ?_⟩
    rintro rfl
    exact fresh later
  · rintro ⟨rfl | later, other⟩
    · exact absurd rfl other
    · exact later

section Text

variable {text : String} {document : DocumentId} {uri : String} {links : Links}

theorem labelKey_eq {n : PlacedName}
    (member : n ∈ (parse text).program.labels ∨ n ∈ (parse text).program.branches) :
    labelKey n.name = n.name.text.toLower := canonicalName_ident (ident_mem_parts member)

/-- Labels that are rivals are those of one name in one scope. -/
theorem find?_rival {t : ScopeTree} {placed : List (ScopeId × PlacedName)}
    (map : LabelMap t document (parse text).program.labels placed) {n : ScopeId × PlacedName}
    (member : n ∈ placed) : (parse text).program.labels.find? (·.IsRivalOf n.2) =
      (placed.find? fun m => m.1 = n.1 ∧ labelKey m.2.name = labelKey n.2.name).map (·.2) := by
  rw [← map.names, List.find?_map]
  congr 1
  refine List.find?_congr fun m among => ?_
  have scope := map.scope_eq_iff among member
  have key : labelKey m.2.name = labelKey n.2.name ↔ m.2.SameName n.2 := by
    rw [labelKey_eq (.inl (map.mem_labels among)), labelKey_eq (.inl (map.mem_labels member))]
    rfl
  simp only [Function.comp_apply, PlacedName.IsRivalOf, ← scope, ← key, and_comm]

/-- There is a finding on each label that comes behind the first of its rivals. -/
theorem mem_check_duplicateLabel {d : Diagnostic} :
    d ∈ Rule.duplicateLabel.check (.ofText text document uri links) ↔
      ∃ l ∈ (parse text).program.labels, ∃ first,
        (parse text).program.labels.find? (·.IsRivalOf l) = some first ∧ first ≠ l ∧
          d = duplicateReport document first l := by
  obtain ⟨placed, map⟩ := exists_labelMap text document
  have distinct : placed.Nodup := map.nodes_nodup.of_map
  rw [mem_check_duplicateLabel_iff map.wellFormed]
  constructor
  · rintro ⟨i, name, found⟩
    change d ∈ checkLabels document name ((collect document _).tree.labelsAt i name) at found
    rw [map.each, mem_checkLabels_map] at found
    obtain ⟨first, head, n, later, rfl⟩ := found
    obtain ⟨among, other⟩ := (mem_tail_iff (distinct.filter _) head).mp later
    obtain ⟨member, here⟩ := List.mem_filter.mp among
    obtain ⟨rfl, rfl⟩ := of_decide_eq_true here
    rw [List.head?_filter] at head
    refine ⟨n.2, map.mem_labels member, first.2, ?_, ?_, ?_⟩
    · rw [find?_rival map member, head, Option.map_some]
    · intro same
      exact other (map.unique (List.mem_of_find?_eq_some head) member (by rw [same]))
    · rw [duplicateReport, labelKey_eq (.inl (map.mem_labels member))]
  · rintro ⟨l, listed, first, found, other, rfl⟩
    rw [← map.names] at listed
    obtain ⟨n, member, rfl⟩ := List.mem_map.mp listed
    rw [find?_rival map member] at found
    obtain ⟨m, head, rfl⟩ := Option.map_eq_some_iff.mp found
    refine ⟨n.1, labelKey n.2.name, ?_⟩
    change _ ∈ checkLabels document _ ((collect document _).tree.labelsAt n.1 _)
    rw [map.each, mem_checkLabels_map]
    rw [← List.head?_filter] at head
    refine ⟨m, head, n, (mem_tail_iff (distinct.filter _) head).mpr ⟨?_, ?_⟩, ?_⟩
    · exact List.mem_filter.mpr ⟨member, decide_eq_true ⟨rfl, rfl⟩⟩
    · rintro rfl
      exact other rfl
    · rw [duplicateReport, labelKey_eq (.inl (map.mem_labels member))]

/-- Findings on duplicate labels are told by their nodes. -/
theorem duplicateLabel_unique {a b : Diagnostic}
    (first : a ∈ Rule.duplicateLabel.check (.ofText text document uri links))
    (second : b ∈ Rule.duplicateLabel.check (.ofText text document uri links))
    (node : a.node = b.node) : a = b := by
  obtain ⟨l, listed, f, found, -, rfl⟩ := mem_check_duplicateLabel.mp first
  obtain ⟨m, listed', f', found', -, rfl⟩ := mem_check_duplicateLabel.mp second
  obtain ⟨placed, map⟩ := exists_labelMap text document
  obtain rfl : l = m := List.inj_on_of_nodup_map map.ids listed listed' node
  cases found.symm.trans found'
  rfl

/-- Findings of any rules are told apart by the order of listing. -/
theorem toldApart (rules : List Rule) : Diagnostic.ToldApart
    (rules.flatMap (·.check (.ofText text document uri links))) := by
  intro a first b second same
  obtain ⟨r, -, found⟩ := List.mem_flatMap.mp first
  obtain ⟨r', -, found'⟩ := List.mem_flatMap.mp second
  obtain ⟨span, code, message, node⟩ := Diagnostic.order_eq_iff.mp same
  have shape := shape_of_mem_check found
  have shape' := shape_of_mem_check found'
  have codes : r.code = r'.code := Option.some.inj (shape.code.symm.trans (code.trans shape'.code))
  have part := part_eq_of_code_eq codes
  by_cases duplicate : r = .duplicateLabel
  · subst duplicate
    obtain rfl := eq_of_code_eq (by simp) codes.symm
    exact duplicateLabel_unique found found' node
  · have related := shape.related duplicate
    have related' := shape'.related fun same => duplicate
      (eq_of_code_eq (by simp) (same ▸ codes))
    cases a
    cases b
    exact Diagnostic.mk.injEq .. |>.mpr ⟨shape.document.trans shape'.document.symm, node,
      shape.part.trans (part.trans shape'.part.symm), span,
      shape.severity.trans shape'.severity.symm, code, message, related.trans related'.symm⟩

end Text

end Rule

/-! ## Sets of rules -/

theorem RuleSet.mem_validate {s : RuleSet} {ctx : RuleContext} {d : Diagnostic} :
    d ∈ s.validate ctx ↔ ∃ r ∈ s.rules, d ∈ r.check ctx :=
  Diagnostic.mem_finish.trans List.mem_flatMap

/-- Under the code of a rule that no other rule has, its own findings are listed. -/
theorem RuleSet.mem_validate_code {s : RuleSet} {ctx : RuleContext} {d : Diagnostic} {r : Rule}
    (among : r ∈ s.rules) (own : ∀ r' : Rule, r'.code = r.code → r' = r) :
    d ∈ s.validate ctx ∧ d.code = some r.code ↔ d ∈ r.check ctx := by
  constructor
  · rintro ⟨listed, code⟩
    obtain ⟨r', -, found⟩ := mem_validate.mp listed
    have shape := Rule.shape_of_mem_check found
    rwa [← own r' (Option.some.inj (shape.code.symm.trans code))]
  · intro found
    exact ⟨mem_validate.mpr ⟨r, among, found⟩, (Rule.shape_of_mem_check found).code⟩

/-- What rules report on a text depends neither on their order nor on how often each of them
checks, whatever the links. -/
theorem RuleSet.validate_congr (text : String) (document : DocumentId) (uri : String)
    (links : Links) {rules rules' : List Rule} (same : ∀ r, r ∈ rules ↔ r ∈ rules') :
    RuleSet.validate ⟨rules⟩ (.ofText text document uri links) =
      RuleSet.validate ⟨rules'⟩ (.ofText text document uri links) := by
  refine Diagnostic.finish_congr (Rule.toldApart rules) fun d => ?_
  simp only [List.mem_flatMap, same]

/-- A repeated label and an `open` with an option that it does not take. -/
theorem RuleSet.validate_congr_repeatedRules :
    let text := "a:\na:\nopen (1,foo=1) \"f\"\n"
    let rules := [.duplicateLabel, .statementOptions .standard, .duplicateLabel]
    let rules' := [.statementOptions .standard, .duplicateLabel]
    (∀ r : Rule, r ∈ rules ↔ r ∈ rules') ∧
      RuleSet.validate ⟨rules⟩ (.ofText text 0 "" .empty) =
        RuleSet.validate ⟨rules'⟩ (.ofText text 0 "" .empty) := by
  intro text rules rules'
  have same (r : Rule) : r ∈ rules ↔ r ∈ rules' := by
    simp only [rules, rules', List.mem_cons, List.not_mem_nil, or_false]
    tauto
  exact ⟨same, validate_congr text 0 "" .empty same⟩

end BbjAnalysis
