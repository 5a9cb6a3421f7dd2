import BbjAnalysis.Link.Linking
import BbjAnalysis.Proofs.Java.Resolver
import Mathlib.Data.List.Basic

/-! # How candidates are looked for

The search through scopes is one for the first of certain scopes that has any legal symbol
(`lexicalIn_eq`), and the search through packages one for the first of them behind which the Java
catalog has anything (`inPackages_eq`). A reference that is looked for in its document means the
first symbol that is found there, and only if there is none does it matter what else there is
(`outcome_of_startsInDocument`). Each candidate was found in one of these places (`FoundIn.of_mem`).
What was looked up before changes no candidates (`candidates_congr`), and what every look-up of a
name keeps is kept by the search (`candidates_keeps`).
-/

namespace BbjAnalysis

/-- The scopes of a chain that a search without success goes through. -/
def ScopeTree.searched (t : ScopeTree) (kind : ReferenceKind) : List ScopeId → List ScopeId
  | [] => []
  | id :: rest =>
      let around := (t.kindOf id).getD .module
      if kind.looksInto around then
        id :: if kind.stopsAt around then [] else t.searched kind rest
      else t.searched kind rest

theorem ScopeTree.searched_eq_self (t : ScopeTree) {kind : ReferenceKind}
    (looks : ∀ around, kind.looksInto around = true) {ids : List ScopeId}
    (goesOn : ∀ id ∈ ids, kind.stopsAt ((t.kindOf id).getD .module) = false) :
    t.searched kind ids = ids := by
  induction ids with
  | nil => rfl
  | cons id rest ih =>
      obtain ⟨here, further⟩ := List.forall_mem_cons.mp goesOn
      simp [searched, looks, here, ih further]

/-- Variables are looked for up to the procedure, and what is hoisted goes no further out. -/
theorem ScopeTree.mem_searched_variable (t : ScopeTree) {i : ScopeId} {ids : List ScopeId}
    (member : i ∈ t.upToHoistTarget ids) : i ∈ t.searched .variable ids := by
  induction ids with
  | nil => cases member
  | cons id rest ih =>
      simp only [searched, ReferenceKind.looksInto, if_true, List.mem_cons]
      simp only [upToHoistTarget] at member
      split at member
      · exact .inl (List.mem_singleton.mp member)
      · next further =>
        rcases List.mem_cons.mp member with rfl | member
        · exact .inl rfl
        · right
          split
          · next stops =>
            -- a search for variables stops at procedures alone, which are hoist targets
            exfalso
            apply further
            cases around : t.kindOf id with
            | none => simp [around, ReferenceKind.stopsAt] at stops
            | some kind =>
                cases kind <;>
                  simp_all [ReferenceKind.stopsAt, isHoistTarget, ScopeKind.isHoistTarget]
          · exact ih member

/-- Whether a reference is looked for in its own document at first. -/
def ReferenceKind.startsInDocument : ReferenceKind → Bool
  | .javaClass | .classImport _ => false
  | _ => true

theorem ReferenceKind.startsInDocument_or (kind : ReferenceKind) :
    kind.startsInDocument = true ∨ kind = .javaClass ∨ ∃ path, kind = .classImport path := by
  cases kind with
  | javaClass => exact .inr (.inl rfl)
  | classImport path => exact .inr (.inr ⟨path, rfl⟩)
  | _ => exact .inl rfl

theorem ReferenceKind.startsInDocument_of_stays {kind : ReferenceKind}
    (stays : kind.staysInDocument = true) : kind.startsInDocument = true := by
  cases kind <;> first | rfl | cases stays

/-- What a reference comes to that means the given symbol at most. -/
def LinkOutcome.ofOption : Option Symbol → LinkOutcome
  | some symbol => .bound symbol
  | none => .unresolved

namespace LinkContext

variable (ctx : LinkContext) (site : ReferenceSite)

/-! ## Scopes -/

/-- The legal symbols that a scope declares under the name of a reference. -/
def legalIn (id : ScopeId) : List Symbol :=
  (ctx.tree.lookupLocal id site.name).filter site.accepts

/-- The first scope that has any legal symbols decides. -/
theorem lexicalIn_eq (ids : List ScopeId) : ctx.lexicalIn site ids =
    (((ctx.tree.searched site.kind ids).map (ctx.legalIn site)).find? (· ≠ [])).getD [] := by
  induction ids with
  | nil => rfl
  | cons id rest ih =>
      simp only [lexicalIn, ScopeTree.searched]
      split
      · rw [List.map_cons, List.find?_cons]
        cases legal : ctx.legalIn site id with
        | nil =>
            rw [legalIn] at legal
            simp only [legal, ne_eq, not_true, decide_false]
            split
            · rfl
            · exact ih
        | cons first more =>
            rw [legalIn] at legal
            simp [legal]
      · exact ih

variable {ctx site}

theorem lexicalIn_eq_nil {ids : List ScopeId} : ctx.lexicalIn site ids = [] ↔
    ∀ i ∈ ctx.tree.searched site.kind ids, ctx.legalIn site i = [] := by
  rw [lexicalIn_eq]
  cases found : ((ctx.tree.searched site.kind ids).map (ctx.legalIn site)).find? (· ≠ []) with
  | none =>
      rw [List.find?_eq_none] at found
      simpa using found
  | some legal =>
      have some := List.find?_some found
      obtain ⟨i, among, rfl⟩ := List.mem_map.mp (List.mem_of_find?_eq_some found)
      simp only [Option.getD_some]
      constructor
      · intro none
        simp [none] at some
      · exact fun all => all i among

theorem exists_of_mem_lexicalIn {ids : List ScopeId} {s : Symbol}
    (member : s ∈ ctx.lexicalIn site ids) :
    ∃ i ∈ ctx.tree.searched site.kind ids, s ∈ ctx.legalIn site i := by
  rw [lexicalIn_eq] at member
  cases found : ((ctx.tree.searched site.kind ids).map (ctx.legalIn site)).find? (· ≠ []) with
  | none =>
      rw [found] at member
      cases member
  | some legal =>
      rw [found] at member
      obtain ⟨i, among, rfl⟩ := List.mem_map.mp (List.mem_of_find?_eq_some found)
      exact ⟨i, among, member⟩

/-! ## Workspace and packages -/

theorem mem_lookup_of_mem_inWorkspace {path : Option String} {s : Symbol}
    (member : s ∈ ctx.inWorkspace site path) : s ∈ ctx.index.lookup site.name :=
  (List.mem_filter.mp (List.mem_filter.mp member).1).1

/-- What the Java catalog has for a text behind the first package that it has anything for. -/
def firstInPackages (r : Java.Resolver) (text : String) (packages : List String) : Option Symbol :=
  packages.findSome? fun package => (r.resolve (package ++ "." ++ text)).1.symbol

theorem inPackages_eq (text : String) (r : Java.Resolver) (packages : List String) :
    (inPackages text r packages).1 = firstInPackages r text packages := by
  induction packages generalizing r with
  | nil => rfl
  | cons package rest ih =>
      have later := r.resolve_answer_resolve (package ++ "." ++ text)
      simp only [inPackages, firstInPackages, List.findSome?_cons]
      cases resolved : r.resolve (package ++ "." ++ text) with
      | mk answer r' =>
          rw [resolved] at later
          cases answer with
          | found symbol => rfl
          | notFound =>
              refine (ih r').trans ?_
              simp only [firstInPackages, later, Java.Answer.symbol]

/-! ## All places, one after the other -/

theorem candidates_of_startsInDocument (starts : site.kind.startsInDocument = true)
    (r : Java.Resolver) : ctx.candidates r site =
      if ctx.lexical site ≠ [] then (⟨ctx.lexical site, some .lexical, false⟩, r)
      else if ctx.ownExports site ≠ [] then (⟨ctx.ownExports site, some .documentExports, false⟩, r)
      else if site.kind.staysInDocument then (⟨[], none, false⟩, r)
      else ctx.candidatesOutside r site := by
  unfold candidates
  cases kind : site.kind with
  | javaClass => simp [kind, ReferenceKind.startsInDocument] at starts
  | classImport path => simp [kind, ReferenceKind.startsInDocument] at starts
  | _ =>
      cases ctx.lexical site with
      | cons first more => rfl
      | nil => cases ctx.ownExports site <;> rfl

theorem outcome_of_startsInDocument (starts : site.kind.startsInDocument = true)
    (r : Java.Resolver) : (ctx.candidates r site).1.outcome =
      if ctx.lexical site ++ ctx.ownExports site = [] ∧ site.kind.staysInDocument = false then
        (ctx.candidatesOutside r site).1.outcome
      else .ofOption (ctx.lexical site ++ ctx.ownExports site).head? := by
  rw [candidates_of_startsInDocument starts]
  cases ctx.lexical site with
  | cons first more => simp [Candidates.outcome, LinkOutcome.ofOption]
  | nil =>
      cases ctx.ownExports site with
      | cons first more => simp [Candidates.outcome, LinkOutcome.ofOption]
      | nil => cases site.kind.staysInDocument <;> rfl

theorem outcome_of_staysInDocument (stays : site.kind.staysInDocument = true)
    (r : Java.Resolver) : (ctx.candidates r site).1.outcome =
      .ofOption (ctx.lexical site ++ ctx.ownExports site).head? := by
  rw [outcome_of_startsInDocument (ReferenceKind.startsInDocument_of_stays stays), stays]
  simp

theorem candidates_classImport {path : Option String} (kind : site.kind = .classImport path)
    (r : Java.Resolver) : ctx.candidates r site =
      (⟨ctx.inWorkspace site path,
        if ctx.inWorkspace site path = [] then none else some .workspace, true⟩, r) := by
  simp only [candidates, kind]
  cases ctx.inWorkspace site path <;> rfl

theorem candidates_javaClass (kind : site.kind = .javaClass) (r : Java.Resolver) :
    (ctx.candidates r site).1 =
        ⟨(r.resolve site.text).1.symbol.toList,
          (r.resolve site.text).1.symbol.map fun _ => .java, false⟩ ∧
      (ctx.candidates r site).2 = (r.resolve site.text).2 := by
  simp only [candidates, kind]
  obtain ⟨answer, r'⟩ := r.resolve site.text
  cases answer <;> exact ⟨rfl, rfl⟩

theorem candidatesOutside_eq (r : Java.Resolver) : (ctx.candidatesOutside r site).1 =
    if ctx.inWorkspace site none ≠ [] then ⟨ctx.inWorkspace site none, some .workspace, true⟩
    else if site.kind = .type then
      ⟨(firstInPackages r site.text ctx.packages).toList,
        (firstInPackages r site.text ctx.packages).map fun _ => .java, true⟩
    else ⟨[], none, true⟩ := by
  unfold candidatesOutside
  cases ctx.inWorkspace site none with
  | cons first more => rfl
  | nil =>
      simp only [ne_eq, not_true, if_false]
      split
      · rw [← inPackages_eq]
        obtain ⟨hit, r'⟩ := inPackages site.text r ctx.packages
        cases hit <;> rfl
      · rfl

/-- Where a candidate was found. -/
inductive FoundIn (ctx : LinkContext) (r : Java.Resolver) (site : ReferenceSite) (s : Symbol) :
    Prop where
  | lexical (member : s ∈ ctx.lexical site)
  | ownExports (member : s ∈ ctx.ownExports site)
  | workspace (path : Option String) (member : s ∈ ctx.inWorkspace site path)
  | javaClass (kind : site.kind = .javaClass) (found : (r.resolve site.text).1.symbol = some s)
  | packages (kind : site.kind = .type) (lexical : ctx.lexical site = [])
      (ownExports : ctx.ownExports site = []) (workspace : ctx.inWorkspace site none = [])
      (first : firstInPackages r site.text ctx.packages = some s)

theorem FoundIn.of_mem {r : Java.Resolver} {s : Symbol}
    (member : s ∈ (ctx.candidates r site).1.symbols) : ctx.FoundIn r site s := by
  obtain starts | kind | ⟨path, kind⟩ := site.kind.startsInDocument_or
  · rw [candidates_of_startsInDocument starts] at member
    split at member
    · exact .lexical member
    · next lexical =>
      split at member
      · exact .ownExports member
      · next ownExports =>
        split at member
        · cases member
        · rw [candidatesOutside_eq] at member
          split at member
          · exact .workspace none member
          · next workspace =>
            split at member
            · next type =>
              exact .packages type (not_not.mp lexical) (not_not.mp ownExports)
                (not_not.mp workspace) (Option.mem_toList.mp member)
            · cases member
  · rw [(candidates_javaClass kind r).1] at member
    exact .javaClass kind (Option.mem_toList.mp member)
  · rw [candidates_classImport kind] at member
    exact .workspace path member

/-! ## What becomes of the resolver -/

section Keeps

variable {P : Java.Resolver → Prop} (step : ∀ r name, P r → P (r.resolve name).2)
include step

theorem inPackages_keeps (text : String) (packages : List String) {r : Java.Resolver}
    (holds : P r) : P (inPackages text r packages).2 := by
  induction packages generalizing r with
  | nil => exact holds
  | cons package rest ih =>
      have next := step r (package ++ "." ++ text) holds
      simp only [inPackages]
      cases asked : r.resolve (package ++ "." ++ text) with
      | mk answer r' =>
          rw [asked] at next
          cases answer with
          | found symbol => exact next
          | notFound => exact ih next

theorem candidatesOutside_keeps {r : Java.Resolver} (holds : P r) :
    P (ctx.candidatesOutside r site).2 := by
  unfold candidatesOutside
  cases ctx.inWorkspace site none with
  | cons first more => exact holds
  | nil =>
      dsimp only
      split
      · have next := inPackages_keeps step site.text ctx.packages holds
        cases asked : inPackages site.text r ctx.packages with
        | mk hit r' =>
            rw [asked] at next
            cases hit <;> exact next
      · exact holds

/-- What every look-up keeps is kept while candidates are looked for. -/
theorem candidates_keeps {r : Java.Resolver} (holds : P r) : P (ctx.candidates r site).2 := by
  obtain starts | kind | ⟨path, kind⟩ := site.kind.startsInDocument_or
  · rw [candidates_of_startsInDocument starts]
    split
    · exact holds
    · split
      · exact holds
      · split
        · exact holds
        · exact candidatesOutside_keeps step holds
  · rw [(candidates_javaClass kind r).2]
    exact step r site.text holds
  · rw [candidates_classImport kind]
    exact holds

end Keeps

/-- The Java catalog answers alike, whatever was asked before. -/
theorem candidates_answers (r : Java.Resolver) (name : String) :
    ((ctx.candidates r site).2.resolve name).1 = (r.resolve name).1 :=
  candidates_keeps (P := fun r' => ∀ name, (r'.resolve name).1 = (r.resolve name).1)
    (fun r' asked same name => (r'.resolve_answer_resolve asked name).trans (same name))
    (fun _ => rfl) name

theorem candidates_congr {r r' : Java.Resolver}
    (same : ∀ name, (r'.resolve name).1 = (r.resolve name).1) :
    (ctx.candidates r' site).1 = (ctx.candidates r site).1 := by
  obtain starts | kind | ⟨path, kind⟩ := site.kind.startsInDocument_or
  · have outside : (ctx.candidatesOutside r' site).1 = (ctx.candidatesOutside r site).1 := by
      rw [candidatesOutside_eq, candidatesOutside_eq]
      simp only [firstInPackages, same]
    rw [candidates_of_startsInDocument starts, candidates_of_startsInDocument starts]
    split
    · rfl
    · split
      · rfl
      · split
        · rfl
        · exact outside
  · rw [(candidates_javaClass kind r').1, (candidates_javaClass kind r).1, same]
  · rw [candidates_classImport kind, candidates_classImport kind]

end LinkContext

end BbjAnalysis
