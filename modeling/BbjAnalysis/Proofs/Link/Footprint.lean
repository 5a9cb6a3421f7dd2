import BbjAnalysis.Program.Parser.Statement
import BbjAnalysis.Proofs.Renaming.Link

/-! # What a link was made of

Links record the names that were looked up in the workspace. Against any other index that finds the
same under these names, and knows the documents of the findings by the same URIs, the same
references have the same links and the same reports, word for word (`link_footprint`). So a
document has to be linked again only if something changes under a name that it recorded.
-/

namespace BbjAnalysis

/-- Two indexes answer alike under a name if they find the same symbols, in the same order, and know
the documents of these symbols by the same URIs. -/
theorem WorkspaceIndex.answersAlike_id {i j : WorkspaceIndex} {name : String}
    (lookup : j.lookup name = i.lookup name)
    (uri : ∀ s ∈ i.lookup name, ∀ d, s.document = some d → j.uriOf d = i.uriOf d) :
    AnswersAlike id i j name where
  lookup := by rw [lookup, funext Symbol.rename_id, List.map_id']
  uri s member d declared := And.intro (uri s member d declared) fun _ => rfl

namespace Links

/-- The links of the same references against two indexes are equal if the indexes agree on what was
looked up, with resolvers over one catalog. -/
theorem link_footprint (ctx : LinkContext) (reportJava : Bool) (sites : List ReferenceSite)
    {c : Java.ClassSource} {r r' : Java.Resolver} (agrees : Java.Resolver.Agrees c r r')
    (j : WorkspaceIndex)
    (same : ∀ name ∈ (link ctx reportJava r sites).1.workspaceNames,
      j.lookup name = ctx.index.lookup name ∧
        ∀ s ∈ ctx.index.lookup name, ∀ d, s.document = some d → j.uriOf d = ctx.index.uriOf d) :
    (link { ctx with index := j } reportJava r' sites).1 = (link ctx reportJava r sites).1 := by
  have renames : LinkContext.RenamesTo id ctx { ctx with index := j } :=
    ⟨rfl, (ScopeTree.rename_id _).symm, (ExportSet.rename_id _).symm, rfl⟩
  -- Every reference that asks the workspace has recorded its name.
  have answers : ∀ site ∈ sites, ctx.consults site = true →
      ctx.index.AnswersAlike id j site.name := by
    intro site member consulted
    have recorded : site.name ∈ (link ctx reportJava r sites).1.workspaceNames :=
      (mem_workspaceNames_link reportJava r sites site.name).mpr ⟨site, member, consulted, rfl⟩
    obtain ⟨lookup, uri⟩ := same site.name recorded
    exact WorkspaceIndex.answersAlike_id lookup uri
  exact (link_rename renames strictMono_id reportJava answers agrees).1.trans (rename_id _)

/-- A class that is imported, one that two documents export, and one that is found nowhere: a
document that exports a fourth class changes nothing. -/
theorem link_footprint_unrelatedClass :
    let exportsOf (d : DocumentId) (uri text : String) : ExportSet :=
      (computeScopes d uri (parse text).program).exports
    let i := ([exportsOf 1 "lib/order.bbj" "class public Order\nclassend\n",
      exportsOf 2 "a.bbj" "class public Bill\nclassend\n",
      exportsOf 3 "b.bbj" "class public Bill\nclassend\n"]).foldl (fun i e => (i.upsert e).2)
        WorkspaceIndex.empty
    let j := (i.upsert (exportsOf 4 "c.bbj" "class public Invoice\nclassend\n")).2
    let scopes := computeScopes 0 "main.bbj"
      (parse "use ::order.bbj::Order\nb = new Bill()\nx = new Lost()\n").program
    let ctx : LinkContext := ⟨0, scopes.tree, scopes.exports, i, ["java.util"]⟩
    let r : Java.Resolver := .ofCatalog .empty
    let l := (link ctx true r scopes.references).1
    (l.workspaceNames.toList = ["Bill", "Lost", "Order"] ∧ j ≠ i ∧
      l.bindings.size = 1 ∧ l.ambiguous.size = 1 ∧ l.unresolved.size = 1) ∧
    (∀ name ∈ l.workspaceNames, j.lookup name = i.lookup name ∧
      ∀ s ∈ i.lookup name, ∀ d, s.document = some d → j.uriOf d = i.uriOf d) ∧
    (link { ctx with index := j } true (r.resolve "java.util.Lost").2 scopes.references).1 = l := by
  intro exportsOf i j scopes ctx r l
  have names : l.workspaceNames.toList = ["Bill", "Lost", "Order"] := by decide +kernel
  have found : ∀ name ∈ ["Bill", "Lost", "Order"], j.lookup name = i.lookup name ∧
      ∀ s ∈ i.lookup name, s.document.bind j.uriOf = s.document.bind i.uriOf := by
    decide +kernel
  have same : ∀ name ∈ l.workspaceNames, j.lookup name = i.lookup name ∧
      ∀ s ∈ i.lookup name, ∀ d, s.document = some d → j.uriOf d = i.uriOf d := by
    intro name recorded
    obtain ⟨lookup, uri⟩ := found name (names ▸ recorded)
    refine ⟨lookup, fun s member d declared => ?_⟩
    have known := uri s member
    rw [declared] at known
    exact known
  have faithful := Java.Resolver.faithful_ofCatalog .empty
  have agrees : Java.Resolver.Agrees .empty r (r.resolve "java.util.Lost").2 :=
    ⟨rfl, Java.Resolver.resolve_catalog r _, faithful, faithful.resolve _⟩
  exact ⟨⟨names, by decide +kernel⟩, same,
    link_footprint ctx true scopes.references agrees j same⟩

end Links

end BbjAnalysis
