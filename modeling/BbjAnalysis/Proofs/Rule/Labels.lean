import BbjAnalysis.Proofs.Link.Label
import BbjAnalysis.Proofs.Program.Soundness
import BbjAnalysis.Proofs.Rule.Finding
import Mathlib.Tactic.FinCases

/-! # Findings on labels

A branch target is reported if no label of its document is reached by it, and a label if there is an
earlier one that is its rival. Both are said of the program as it was read: which procedures stand
around a name, and not which scopes the walk has opened (`Rule.mem_check_undefinedLabel`,
`Rule.mem_check_duplicateLabel`).
-/

namespace BbjAnalysis

open HasParts BbjAnalysis.Part

/-- The links of a text that was read, in a workspace. -/
def Links.ofText (text : String) (document : DocumentId) (uri : String) (index : WorkspaceIndex)
    (packages : List String) (reportJava : Bool) (resolver : Java.Resolver) : Links :=
  let scopes := computeScopes document uri (parse text).program
  (Links.link ⟨document, scopes.tree, scopes.exports, index, packages⟩ reportJava resolver
    scopes.references).1

/-! ## Branch targets -/

section Branches

variable (text : String) (document : DocumentId) (uri : String)

/-- Every branch target is noted in a scope that lies in the procedures around it. -/
theorem exists_branchMap : ∃ placed : List (ScopeId × PlacedName),
    (placed.map (·.2)).Perm (parse text).program.branches ∧
    (∀ n ∈ placed, (collect document (parse text).program).tree.Holds n) ∧
    (collect document (parse text).program).labelSites =
      placed.map fun n => labelSite n.1 n.2.name :=
  (adds_collect document (parse text).program).branches

theorem branchIds_nodup : ((parse text).program.branches.map (·.name.id)).Nodup := by
  obtain ⟨placed, same, -, noted⟩ := exists_branchMap text 0
  have distinct := (references_apart text 0 "").1
  have among := (List.filter_sublist (p := (·.kind == .label))
    (l := (collect 0 (parse text).program).references)).map (·.node)
  have once : ((placed.map fun n => labelSite n.1 n.2.name).map (·.node)).Nodup := by
    rw [← noted]
    exact among.nodup distinct
  rw [← (same.map (·.name.id)).nodup_iff, List.map_map]
  rw [List.map_map] at once
  exact once

end Branches

namespace Rule

section Text

variable {text : String} {document : DocumentId} {uri : String} {index : WorkspaceIndex}
  {packages : List String} {reportJava : Bool} {resolver : Java.Resolver}

/-- The labels that a branch target sees are those that it reaches. -/
theorem seen_iff_reached {t : ScopeTree} {placed : List (ScopeId × PlacedName)}
    (map : LabelMap t document (parse text).program.labels placed) {i : ScopeId} {b : PlacedName}
    (holds : t.Holds (i, b)) (branch : b ∈ (parse text).program.branches) :
    (∃ h ∈ t.ancestors i, t.labelsAt h (labelKey b.name) ≠ []) ↔
      ∃ l ∈ (parse text).program.labels, l.IsReachedBy b := by
  rw [map.seen_iff holds]
  refine exists_congr fun l => and_congr_right fun listed => and_congr_left fun _ => ?_
  rw [labelKey_eq (.inl listed), labelKey_eq (.inr branch)]
  rfl

/-- A branch target is bound to a label exactly if it reaches one. -/
theorem isDefinedLabel_iff {n : ScopeId × PlacedName}
    (holds : (collect document (parse text).program).tree.Holds n)
    (branch : n.2 ∈ (parse text).program.branches)
    (noted : labelSite n.1 n.2.name ∈ (collect document (parse text).program).references) :
    isDefinedLabel (.ofText text document uri
        (.ofText text document uri index packages reportJava resolver))
      (labelSite n.1 n.2.name) = true ↔
        ∃ l ∈ (parse text).program.labels, l.IsReachedBy n.2 := by
  obtain ⟨placed, map⟩ := exists_labelMap text document
  have adds := adds_collect document (parse text).program
  have distinct := (references_apart text document uri).1
  let scopes := computeScopes document uri (parse text).program
  let ctx : LinkContext := ⟨document, scopes.tree, scopes.exports, index, packages⟩
  have bound := Links.get?_bindings_link ctx reportJava resolver distinct noted
  have own : ∀ e ∈ ctx.exports.symbols, e.kind = .label →
      e ∈ ctx.tree.labelsAt ScopeTree.moduleId e.name := by
    intro e exported isLabel
    exact (adds.exports e exported isLabel).resolve_left (by simp)
  refine Iff.trans ?_ (seen_iff_reached map holds branch)
  change ((Links.link ctx reportJava resolver _).1.bindings.get? _).any _ = true ↔ _
  rw [bound]
  constructor
  · intro defined
    obtain ⟨symbol, some, -⟩ := (Option.any_eq_true _ _).mp defined
    obtain ⟨i, around, declared⟩ :=
      LinkContext.exists_of_boundSymbol ctx rfl map.wellFormed holds.small own some
    exact ⟨i, around, List.ne_nil_of_mem declared⟩
  · rintro ⟨i, around, declared⟩
    let outcome := (ctx.candidates resolver (labelSite n.1 n.2.name)).1.outcome
    cases found : Links.boundSymbol outcome with
    | none =>
        exact absurd (LinkContext.labelsAt_of_boundSymbol_eq_none ctx rfl found i around) declared
    | some symbol =>
        obtain ⟨i', -, declared⟩ :=
          LinkContext.exists_of_boundSymbol ctx rfl map.wellFormed holds.small own found
        rw [show ctx.tree.labelsAt i' _ = _ from map.each i' _] at declared
        obtain ⟨m, -, rfl⟩ := List.mem_map.mp declared
        simp [labelSymbol, RuleContext.ofText, Symbol.document]

/-- The finding on a branch target that reaches no label. -/
def undefinedReport (document : DocumentId) (branch : PlacedName) : Diagnostic :=
  ⟨document, branch.name.id, none, branch.name.span, .error, some Code.undefinedLabel,
    s!"Could not resolve reference to label named '{branch.name.text}'.", []⟩

theorem mem_check_undefinedLabel {d : Diagnostic} :
    d ∈ Rule.undefinedLabel.check (.ofText text document uri
        (.ofText text document uri index packages reportJava resolver)) ↔
      ∃ t ∈ (parse text).program.branches,
        (¬ ∃ l ∈ (parse text).program.labels, l.IsReachedBy t) ∧
          d = undefinedReport document t := by
  obtain ⟨placed, same, holds, sites⟩ := exists_branchMap text document
  have noted (site : ReferenceSite) :
      site ∈ (collect document (parse text).program).references ∧ site.kind = .label ↔
        ∃ n ∈ placed, labelSite n.1 n.2.name = site := by
    rw [← List.mem_map, ← sites, Findings.labelSites, List.mem_filter, beq_iff_eq]
  have listed (t : PlacedName) : t ∈ (parse text).program.branches ↔ ∃ n ∈ placed, n.2 = t := by
    rw [← same.mem_iff, List.mem_map]
  constructor
  · intro found
    obtain ⟨site, member, found⟩ := List.mem_flatMap.mp found
    rw [checkTarget] at found
    split at found
    · next undefined =>
      obtain ⟨n, among, rfl⟩ := (noted site).mp ⟨member, undefined.1⟩
      have branch := (listed n.2).mpr ⟨n, among, rfl⟩
      refine ⟨n.2, branch, ?_, List.mem_singleton.mp found⟩
      rw [← isDefinedLabel_iff (holds n among) branch member]
      exact fun defined => absurd undefined.2 (by rw [defined]; decide)
    · cases found
  · rintro ⟨t, branch, unreached, rfl⟩
    obtain ⟨n, among, rfl⟩ := (listed t).mp branch
    obtain ⟨member, label⟩ := (noted _).mpr ⟨n, among, rfl⟩
    refine List.mem_flatMap.mpr ⟨labelSite n.1 n.2.name, member, ?_⟩
    rw [← isDefinedLabel_iff (holds n among) branch member] at unreached
    rw [checkTarget, if_pos ⟨label, by simpa using unreached⟩]
    exact List.mem_singleton_self _

end Text

end Rule

/-! ## The first among rivals -/

theorem exists_firstRival {labels : List PlacedName} (ordered : InOrder labels) {l : PlacedName}
    (listed : l ∈ labels) : ∃ first, labels.find? (·.IsRivalOf l) = some first ∧ first ∈ labels ∧
      first.IsRivalOf l ∧ ∀ m ∈ labels, m.IsRivalOf l →
        m = first ∨ first.name.span.stop ≤ m.name.span.start := by
  have some : (labels.find? (·.IsRivalOf l)).isSome :=
    List.find?_isSome.mpr ⟨l, listed, decide_eq_true (.refl l)⟩
  obtain ⟨first, found⟩ := Option.isSome_iff_exists.mp some
  obtain ⟨rival, before, behind, split, none⟩ := List.find?_eq_some_iff_append.mp found
  refine ⟨first, found, List.mem_of_find?_eq_some found, of_decide_eq_true rival, ?_⟩
  intro m among rivals
  rw [split] at among ordered
  rcases List.mem_append.mp among with early | among
  · exact absurd (none m early) (by simp [rivals])
  · rcases List.mem_cons.mp among with rfl | late
    · exact .inl rfl
    · exact .inr (List.rel_of_pairwise_cons (List.pairwise_append.mp ordered).2.1 late)

theorem labels_inOrder {text : String} (clean : (parse text).isClean = true) :
    InOrder (parse text).program.labels := by
  obtain ⟨last, -, -, covered, errors⟩ := Parser.parse_covered text
  have neatly := covered.gathered.neatly (Parser.errors_of_clean errors clean)
  exact inOrder_labels neatly.neat neatly.beside

/-! ## What is listed -/

/-- Where the findings under a code are on names of different nodes, those on one name are what is
known of that name. -/
theorem filter_eq_ite {found : List Diagnostic} (once : found.Nodup) {code : String}
    {names : List PlacedName} (distinct : (names.map (·.name.id)).Nodup)
    {On : PlacedName → Diagnostic → Prop}
    (reported : ∀ d, d ∈ found ∧ d.code = some code ↔ ∃ n ∈ names, On n d)
    (node : ∀ n d, On n d → d.node = n.name.id) {n : PlacedName} (among : n ∈ names) {c : Prop}
    [Decidable c] {e : Diagnostic} (own : ∀ d, On n d ↔ ¬ c ∧ d = e) :
    found.filter (fun d => d.code = some code ∧ d.node = n.name.id) = if c then [] else [e] := by
  have mem (d : Diagnostic) :
      d ∈ found.filter (fun d => d.code = some code ∧ d.node = n.name.id) ↔ ¬ c ∧ d = e := by
    rw [List.mem_filter, decide_eq_true_eq, ← own]
    constructor
    · rintro ⟨listed, isCode, here⟩
      obtain ⟨m, member, on⟩ := (reported d).mp ⟨listed, isCode⟩
      obtain rfl : m = n :=
        List.inj_on_of_nodup_map distinct member among ((node m d on).symm.trans here)
      exact on
    · intro on
      obtain ⟨listed, isCode⟩ := (reported d).mpr ⟨n, among, on⟩
      exact ⟨listed, isCode, node n d on⟩
  split
  · next holds =>
    exact List.eq_nil_iff_forall_not_mem.mpr fun d listed => ((mem d).mp listed).1 holds
  · next fails =>
    apply List.perm_singleton.mp
    rw [List.perm_ext_iff_of_nodup (once.filter _) (List.nodup_singleton e)]
    intro d
    rw [mem, List.mem_singleton, and_iff_right fails]

/-- The branch targets of a text are different nodes. Under the code of undefined labels, each of
them has one finding at its node if it reaches no label of the document, and none if it reaches one,
whatever the workspace holds. No other node has such a finding. -/
theorem validate_undefinedLabel (text : String) (document : DocumentId) (uri : String)
    (index : WorkspaceIndex) (packages : List String) (reportJava : Bool)
    (resolver : Java.Resolver) :
    let program := (parse text).program
    let links := Links.ofText text document uri index packages reportJava resolver
    let found := RuleSet.standard.validate (.ofText text document uri links)
    (program.branches.map (·.name.id)).Nodup ∧
    (∀ t ∈ program.branches,
      found.filter (fun d => d.code = some Code.undefinedLabel ∧ d.node = t.name.id) =
        if ∃ l ∈ program.labels, l.IsReachedBy t then [] else [Rule.undefinedReport document t]) ∧
    ∀ d ∈ found, d.code = some Code.undefinedLabel →
      ∃ t ∈ program.branches, d.node = t.name.id := by
  intro program links found
  have distinct := branchIds_nodup text
  have reported (d : Diagnostic) : d ∈ found ∧ d.code = some Code.undefinedLabel ↔
      ∃ t ∈ program.branches, (¬ ∃ l ∈ program.labels, l.IsReachedBy t) ∧
        d = Rule.undefinedReport document t :=
    (RuleSet.mem_validate_code (r := .undefinedLabel)
      (by simp [RuleSet.standard, RuleSet.withOptions])
      fun _ => Rule.eq_of_code_eq (by simp)).trans Rule.mem_check_undefinedLabel
  have once : found.Nodup := Diagnostic.nodup_finish (Rule.toldApart _)
  refine ⟨distinct, fun t branch => ?_, fun d listed code => ?_⟩
  · refine filter_eq_ite once distinct reported ?_ branch fun d => .rfl
    rintro t d ⟨-, rfl⟩
    rfl
  · obtain ⟨t, branch, -, rfl⟩ := (reported d).mp ⟨listed, code⟩
    exact ⟨t, branch, rfl⟩

/-- The labels of a text without errors are different nodes, listed in its order. Each of them has a
first one among its rivals. Under the code of duplicate labels, each label but the first has one
finding at its node, which refers to the place of the first, and the first has none, whatever else
has its name. No other node has such a finding. -/
theorem validate_duplicateLabel (text : String) (clean : (parse text).isClean = true)
    (document : DocumentId) (uri : String) (links : Links) :
    let program := (parse text).program
    let found := RuleSet.standard.validate (.ofText text document uri links)
    (program.labels.map (·.name.id)).Nodup ∧
    (∀ l ∈ program.labels, ∃ first ∈ program.labels, first.IsRivalOf l ∧
      (∀ m ∈ program.labels, m.IsRivalOf l →
        m = first ∨ first.name.span.stop ≤ m.name.span.start) ∧
      found.filter (fun d => d.code = some Code.duplicateLabel ∧ d.node = l.name.id) =
        if first = l then [] else [Rule.duplicateReport document first l]) ∧
    ∀ d ∈ found, d.code = some Code.duplicateLabel →
      ∃ l ∈ program.labels, d.node = l.name.id := by
  intro program found
  obtain ⟨placed, map⟩ := exists_labelMap text document
  have distinct := map.ids
  have reported (d : Diagnostic) : d ∈ found ∧ d.code = some Code.duplicateLabel ↔
      ∃ l ∈ program.labels, ∃ first, program.labels.find? (·.IsRivalOf l) = some first ∧
        first ≠ l ∧ d = Rule.duplicateReport document first l :=
    (RuleSet.mem_validate_code (r := .duplicateLabel)
      (by simp [RuleSet.standard, RuleSet.withOptions])
      fun _ => Rule.eq_of_code_eq (by simp)).trans Rule.mem_check_duplicateLabel
  have once : found.Nodup := Diagnostic.nodup_finish (Rule.toldApart _)
  refine ⟨distinct, fun l listed => ?_, fun d among code => ?_⟩
  · obtain ⟨first, isFirst, member, rival, order⟩ := exists_firstRival (labels_inOrder clean) listed
    refine ⟨first, member, rival, order, ?_⟩
    refine filter_eq_ite once distinct reported ?_ listed fun d => ?_
    · rintro l d ⟨first, -, -, rfl⟩
      rfl
    · rw [isFirst]
      simp only [Option.some.injEq, exists_eq_left']
  · obtain ⟨l, listed, -, -, -, rfl⟩ := (reported d).mp ⟨among, code⟩
    exact ⟨l, listed, rfl⟩

/-- A label that is repeated in a branch, and a label of its name in a function. -/
theorem validate_duplicateLabel_inFunction :
    let text := "again:\nif x then\n  Again:\nendif\ndef fnf(x)\nagain:\nfnend\n"
    let found := RuleSet.standard.validate (.ofText text 0 "" .empty)
    let first : PlacedName := ⟨⟨2, "again", ⟨0, 5⟩⟩, []⟩
    let second : PlacedName := ⟨⟨7, "Again", ⟨19, 24⟩⟩, []⟩
    let inner : PlacedName := ⟨⟨13, "again", ⟨43, 48⟩⟩, [8]⟩
    (parse text).isClean = true ∧ (parse text).program.labels = [first, second, inner] ∧
      found.filter (fun d => d.code = some Code.duplicateLabel ∧ d.node = second.name.id) =
        [Rule.duplicateReport 0 first second] ∧
      found.filter (fun d => d.code = some Code.duplicateLabel ∧ d.node = inner.name.id) = [] := by
  intro text found first second inner
  have clean : (parse text).isClean = true := by decide +kernel
  have labels : (parse text).program.labels = [first, second, inner] := by decide +kernel
  obtain ⟨-, each, -⟩ := validate_duplicateLabel text clean 0 "" .empty
  simp only [labels] at each
  refine ⟨clean, labels, ?_, ?_⟩
  · obtain ⟨earliest, member, rival, order, reported⟩ := each second (by decide)
    have behind := order first (by decide) (by decide +kernel)
    obtain rfl : earliest = first := by
      fin_cases member
      · rfl
      · exact absurd behind (by decide)
      · exact absurd rival.2 (by decide)
    rw [reported, if_neg (by decide)]
  · obtain ⟨earliest, member, rival, -, reported⟩ := each inner (by decide)
    obtain rfl : earliest = inner := by
      fin_cases member
      · exact absurd rival.2 (by decide)
      · exact absurd rival.2 (by decide)
      · rfl
    rw [reported, if_pos rfl]

end BbjAnalysis
