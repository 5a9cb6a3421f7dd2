import BbjAnalysis.Editor.Location
import BbjAnalysis.Proofs.Renaming.Builder

/-! # Answers of renamed builders

The places of declarations in a text do not depend on the identity of its document, and
the listings of symbols are ordered by documents in their order alone. So renamed
builders answer every question alike.
-/

namespace BbjAnalysis

def Target.rename (σ : DocumentId → DocumentId) (t : Target) : Target :=
  { t with document := t.document.map σ }

def SymbolInfo.rename (σ : DocumentId → DocumentId) (s : SymbolInfo) : SymbolInfo :=
  { s with document := σ s.document }

theorem SymbolInfo.order_rename {σ : DocumentId → DocumentId} (mono : StrictMono σ)
    (x y : SymbolInfo) : (x.rename σ).order (y.rename σ) = x.order y := by
  have documents : compare (σ x.document) (σ y.document) = compare x.document y.document := by
    rcases Nat.lt_trichotomy x.document y.document with less | same | less
    · rw [Nat.compare_eq_lt.mpr less]
      exact Nat.compare_eq_lt.mpr (mono less)
    · rw [same]
      exact (Nat.compare_eq_eq.mpr rfl).trans (Nat.compare_eq_eq.mpr rfl).symm
    · rw [Nat.compare_eq_gt.mpr less]
      exact Nat.compare_eq_gt.mpr (mono less)
  exact congrArg (Ordering.then _) documents

theorem Links.meanings_rename (σ : DocumentId → DocumentId) (l : Links) (node : NodeId) :
    (l.rename σ).meanings node = (l.meanings node).map (.rename σ) := by
  simp only [meanings, rename, OrderedMap.get?_mapValues]
  cases l.bindings.get? node with
  | some symbol => rfl
  | none => cases l.ambiguous.get? node <;> rfl

namespace Builder

section Rename

variable {σ : DocumentId → DocumentId} {b b' : Builder} (renames : RenamesTo σ b b')
include renames

theorem RenamesTo.uriOf (x : DocumentId) : b'.uriOf (σ x) = b.uriOf x := by
  simp only [Builder.uriOf, renames.document?, Option.map_map]
  rfl

theorem RenamesTo.linksOf (x : DocumentId) :
    b'.linksOf (σ x) = (b.linksOf x).map (.rename σ) := by
  simp only [Builder.linksOf, renames.document?, Option.map_map]
  rfl

theorem RenamesTo.diagnosticsOf (x : DocumentId) :
    b'.diagnosticsOf (σ x) = (b.diagnosticsOf x).map (List.map (.rename σ)) := by
  simp only [Builder.diagnosticsOf, renames.document?, Option.map_map]
  rfl

theorem RenamesTo.analysedOf (x : DocumentId) :
    b'.analysedOf (σ x) = (b.analysedOf x).map (.rename σ) := by
  simp only [Builder.analysedOf, renames.document?, Option.bind_map, Option.map_bind]
  rfl

theorem RenamesTo.positions (x : DocumentId) (span : Span) :
    b'.positions (σ x) span = b.positions x span := by
  simp only [Builder.positions, renames.analysedOf]
  cases b.analysedOf x <;> rfl

theorem RenamesTo.referenceAt (x : DocumentId) (place : Position) :
    b'.referenceAt (σ x) place = b.referenceAt x place := by
  simp only [Builder.referenceAt, renames.analysedOf, Option.bind_map]
  rfl

theorem RenamesTo.target (s : Symbol) : b'.target (s.rename σ) = (b.target s).rename σ := by
  obtain ⟨name, kind, exported, origin, span, detail⟩ := s
  cases origin with
  | declared d node =>
      simp only [Builder.target, Symbol.rename, Origin.rename, renames.positions, renames.uriOf]
      rfl
  | external qualifiedName => rfl

theorem RenamesTo.definitionsAt (x : DocumentId) (place : Position) :
    b'.definitionsAt (σ x) place = (b.definitionsAt x place).map (.rename σ) := by
  simp only [Builder.definitionsAt, renames.referenceAt, renames.linksOf]
  cases b.referenceAt x place with
  | none => rfl
  | some site =>
      cases b.linksOf x with
      | none => rfl
      | some links =>
          simp only [Option.map_some, Links.meanings_rename, List.map_map]
          exact List.map_congr_left fun s _ => renames.target s

theorem RenamesTo.symbolInfo (s : Symbol) :
    b'.symbolInfo (s.rename σ) = (b.symbolInfo s).map (.rename σ) := by
  simp only [Builder.symbolInfo, Symbol.document_rename, Option.bind_map, Option.map_bind]
  refine congrArg (Option.bind _) (funext fun d => ?_)
  simp only [Function.comp_apply, renames.uriOf, renames.positions, Option.map_map]
  rfl

theorem RenamesTo.filterMap_symbolInfo (symbols : List Symbol) :
    (symbols.map (.rename σ)).filterMap b'.symbolInfo =
      (symbols.filterMap b.symbolInfo).map (.rename σ) := by
  rw [List.filterMap_map, List.map_filterMap]
  exact congrArg (List.filterMap · symbols) (funext renames.symbolInfo)

theorem RenamesTo.documentSymbols (x : DocumentId) :
    b'.documentSymbols (σ x) = (b.documentSymbols x).map (.rename σ) := by
  simp only [Builder.documentSymbols, renames.analysedOf]
  cases b.analysedOf x with
  | none => rfl
  | some a =>
      simp only [Option.map_some, ← renames.filterMap_symbolInfo]
      refine congrArg (List.filterMap _) ?_
      simp only [Analysed.rename, DocumentScopes.rename, ScopeTree.rename, Array.toList_map,
        List.filter_map]
      rfl

theorem RenamesTo.search (p : String → Bool) :
    b'.index.search p = (b.index.search p).map (.rename σ) := by
  simp only [WorkspaceIndex.search, OrderedMap.values, renames.entries, List.map_map,
    List.flatMap_map, List.map_flatMap]
  refine congrArg (List.flatMap · _) (funext fun e => ?_)
  simp only [Function.comp_apply, IndexEntry.rename, ExportSet.rename, List.filter_map]
  rfl

theorem RenamesTo.workspaceSymbols (query : Option String) :
    b'.workspaceSymbols query = (b.workspaceSymbols query).map (.rename σ) := by
  simp only [Builder.workspaceSymbols, renames.search, renames.filterMap_symbolInfo]
  exact (List.map_mergeSort fun x _ y _ => by rw [SymbolInfo.order_rename renames.mono]).symm

end Rename

end Builder

end BbjAnalysis
