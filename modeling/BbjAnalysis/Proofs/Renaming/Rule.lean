import BbjAnalysis.Proofs.Renaming.Basic
import BbjAnalysis.Rule.Basic

/-! # Rules in a renamed workspace

A rule looks at identities only to tell its own document from others, so that a
one-to-one renaming of documents renames what it reports.
-/

namespace BbjAnalysis

def RuleContext.rename (σ : DocumentId → DocumentId) (ctx : RuleContext) : RuleContext :=
  { ctx with
    document := σ ctx.document
    tree := ctx.tree.rename σ
    links := ctx.links.rename σ }

namespace Rule

section Rename

variable {σ : DocumentId → DocumentId}

theorem checkOptions_rename (document : DocumentId) (table : OptionTable) (st : Statement) :
    checkOptions (σ document) table st = (checkOptions document table st).map (.rename σ) := by
  cases st with
  | openFile node file =>
      simp only [checkOptions]
      cases table.illegal openVerb file.options <;> rfl
  | _ => rfl

theorem checkMode_rename (document : DocumentId) (st : Statement) :
    checkMode (σ document) st = (checkMode document st).map (.rename σ) := by
  cases st with
  | keyedFile node file =>
      simp only [checkMode]
      split
      · rfl
      · simp only [List.map_map]
        rfl
  | _ => rfl

theorem isDefinedLabel_rename (injective : Function.Injective σ) (ctx : RuleContext)
    (site : ReferenceSite) : isDefinedLabel (ctx.rename σ) site = isDefinedLabel ctx site := by
  simp only [isDefinedLabel, RuleContext.rename, Links.rename, OrderedMap.get?_mapValues,
    Option.any_map]
  refine congrArg (Option.any · _) (funext fun s => ?_)
  simp only [Symbol.kind_rename, Symbol.document_rename]
  cases s.document with
  | none => rfl
  | some d => simp only [Option.map_some, beq_eq_decide, Option.some.injEq, injective.eq_iff]

theorem checkTarget_rename (injective : Function.Injective σ) (ctx : RuleContext)
    (site : ReferenceSite) :
    checkTarget (ctx.rename σ) site = (checkTarget ctx site).map (.rename σ) := by
  simp only [checkTarget, isDefinedLabel_rename injective]
  split <;> rfl

theorem checkLabels_rename (document : DocumentId) (name : String) (symbols : List Symbol) :
    checkLabels (σ document) name (symbols.map (.rename σ)) =
      (checkLabels document name symbols).map (.rename σ) := by
  cases symbols with
  | nil => rfl
  | cons first later =>
      simp only [List.map_cons, checkLabels, List.filterMap_map, List.map_filterMap]
      refine congrArg (List.filterMap · later) (funext fun duplicate => ?_)
      simp only [Function.comp_apply, Symbol.node_rename, Symbol.span_rename, Option.map_map]
      rfl

theorem checkScope_rename (ctx : RuleContext) (scope : Scope) :
    checkScope (ctx.rename σ) scope = (checkScope ctx scope).map (.rename σ) := by
  simp only [checkScope, List.map_flatMap]
  refine congrArg (List.flatMap · scope.names) (funext fun (name, ids) => ?_)
  have symbols : ids.filterMap ((ctx.rename σ).tree.symbols[·]?) =
      (ids.filterMap (ctx.tree.symbols[·]?)).map (.rename σ) := by
    simp only [RuleContext.rename, ScopeTree.getElem?_symbols_rename, List.map_filterMap]
  simp only [symbols, List.filter_map]
  exact checkLabels_rename ctx.document name _

theorem check_rename (injective : Function.Injective σ) (ctx : RuleContext) (rule : Rule) :
    rule.check (ctx.rename σ) = (rule.check ctx).map (.rename σ) := by
  cases rule with
  | statementOptions table =>
      simp only [check, List.map_flatMap, ← checkOptions_rename]
      rfl
  | keyedMode =>
      simp only [check, List.map_flatMap, ← checkMode_rename]
      rfl
  | undefinedLabel =>
      simp only [check, List.map_flatMap, ← checkTarget_rename injective]
      rfl
  | duplicateLabel =>
      simp only [check, List.map_flatMap, ← checkScope_rename]
      rfl

end Rename

end Rule

/-- Checking a renamed document reports the renamed diagnostics. -/
theorem RuleSet.validate_rename {σ : DocumentId → DocumentId} (injective : Function.Injective σ)
    (rules : RuleSet) (ctx : RuleContext) :
    rules.validate (ctx.rename σ) = (rules.validate ctx).map (.rename σ) := by
  have found : rules.rules.flatMap (·.check (ctx.rename σ)) =
      (rules.rules.flatMap (·.check ctx)).map (.rename σ) := by
    simp only [List.map_flatMap, ← Rule.check_rename injective]
  simp only [validate, found, Diagnostic.finish_rename injective]

end BbjAnalysis
