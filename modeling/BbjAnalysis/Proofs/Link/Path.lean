import BbjAnalysis.Proofs.Link.Search

/-! # Paths of imports

A URI fits a path if it ends with what is left of the path without the steps `./` at its front,
separators of both kinds taken for one. So which separator is written makes no difference but in
these steps: they are left out before the separators are unified, and a step `.\` is not. Two paths
mean the same in every workspace exactly if the same is left of both (`importsAlike_iff`).
-/

namespace BbjAnalysis

/-- The same characters with one kind of separator. -/
def slashes (cs : List Char) : List Char := cs.map fun c => if c = '\\' then '/' else c

/-- How many steps `./` stand at the front. -/
def currentSteps : List Char → Nat
  | '.' :: '/' :: rest => currentSteps rest + 1
  | _ => 0

/-- What a URI has to end with to fit a path, separators of one kind. -/
def pathTail (path : String) : String :=
  unifySeparators (String.ofList (withoutCurrentSteps path.toList))

/-- A URI ends with a path, or is the path, separators of one kind. -/
def EndsWith (uri tail : String) : Prop :=
  unifySeparators uri = tail ∨ ∃ front, unifySeparators uri = front ++ "/" ++ tail

/-- In every workspace an import with the one path has the candidates of that with the other. -/
def ImportsAlike (p q : String) : Prop :=
  ∀ (ctx : LinkContext) (r : Java.Resolver) (site : ReferenceSite),
    ctx.candidates r { site with kind := .classImport (some p) } =
      ctx.candidates r { site with kind := .classImport (some q) }

section Texts

variable {p q uri : String} {cs : List Char}

/-! ## Separators and steps -/

theorem toList_unifySeparators (text : String) :
    (unifySeparators text).toList = slashes text.toList := by
  rw [unifySeparators, String.toList_ofList, slashes]

theorem length_slashes (cs : List Char) : (slashes cs).length = cs.length := List.length_map _

theorem slashes_slashes (cs : List Char) : slashes (slashes cs) = slashes cs := by
  simp only [slashes, List.map_map, List.map_inj_left, Function.comp_apply]
  intro c _
  by_cases back : c = '\\' <;> simp [back]

theorem toList_pathTail (path : String) :
    (pathTail path).toList = slashes (withoutCurrentSteps path.toList) := by
  rw [pathTail, toList_unifySeparators, String.toList_ofList]

theorem unifySeparators_pathTail (path : String) :
    unifySeparators (pathTail path) = pathTail path := by
  rw [← String.toList_inj, toList_unifySeparators, toList_pathTail, slashes_slashes]

theorem withoutCurrentSteps_eq (cs : List Char) :
    withoutCurrentSteps cs = cs.drop (2 * currentSteps cs) := by
  fun_induction currentSteps cs with
  | case1 rest ih =>
      rw [withoutCurrentSteps, ih, Nat.mul_succ]
      rfl
  | case2 cs none =>
      rw [withoutCurrentSteps]
      · rfl
      · exact none

theorem two_mul_currentSteps_le (cs : List Char) : 2 * currentSteps cs ≤ cs.length := by
  fun_induction currentSteps cs with
  | case1 rest ih =>
      simp only [List.length_cons]
      omega
  | case2 cs none => exact Nat.zero_le _

theorem length_pathTail (path : String) :
    (pathTail path).toList.length + 2 * currentSteps path.toList = path.toList.length := by
  have within := two_mul_currentSteps_le path.toList
  rw [toList_pathTail, length_slashes, withoutCurrentSteps_eq, List.length_drop]
  omega

/-- Paths that only their separators tell apart have the same left if the same number of steps is
left out of them. -/
theorem pathTail_eq_iff_currentSteps (same : unifySeparators p = unifySeparators q) :
    pathTail p = pathTail q ↔ currentSteps p.toList = currentSteps q.toList := by
  rw [← String.toList_inj, toList_unifySeparators, toList_unifySeparators] at same
  have long : p.toList.length = q.toList.length := by
    rw [← length_slashes, same, length_slashes]
  have left := length_pathTail p
  have left' := length_pathTail q
  constructor
  · intro tails
    rw [tails] at left
    omega
  · intro steps
    rw [← String.toList_inj, toList_pathTail, toList_pathTail, withoutCurrentSteps_eq,
      withoutCurrentSteps_eq, slashes, slashes, List.map_drop, List.map_drop, steps]
    exact congrArg _ same

/-- Steps in front of a path are left out if all of them are written with a slash. -/
theorem pathTail_steps {steps : List String} (each : ∀ s ∈ steps, s = "./" ∨ s = ".\\")
    (p : String) : pathTail (String.join steps ++ p) = pathTail p ↔ ∀ s ∈ steps, s = "./" := by
  induction steps with
  | nil => simp
  | cons s steps ih =>
      obtain ⟨step, others⟩ := List.forall_mem_cons.mp each
      rw [String.join_cons, String.append_assoc, List.forall_mem_cons]
      rcases step with rfl | rfl
      · have passed : pathTail ("./" ++ (String.join steps ++ p)) =
            pathTail (String.join steps ++ p) := by
          rw [← String.toList_inj, toList_pathTail, toList_pathTail, String.toList_append]
          rfl
        rw [passed, ih others]
        exact (and_iff_right rfl).symm
      · -- what is left begins with the step, and is longer than the path
        have longer : (pathTail (".\\" ++ (String.join steps ++ p))).toList.length =
            p.toList.length + (String.join steps).toList.length + 2 := by
          have left := length_pathTail (".\\" ++ (String.join steps ++ p))
          have none : currentSteps (".\\" ++ (String.join steps ++ p)).toList = 0 := by
            rw [String.toList_append]
            rfl
          rw [none, String.toList_append, String.toList_append] at left
          simp only [List.length_append] at left
          have two : ".\\".toList.length = 2 := by decide
          omega
        have left := length_pathTail p
        constructor
        · intro same
          rw [same] at longer
          omega
        · rintro ⟨slash, -⟩
          exact absurd slash (by decide)

/-! ## URIs -/

theorem uriMatches_iff : uriMatches uri p = true ↔ EndsWith uri (pathTail p) := by
  rw [uriMatches, ← pathTail, Bool.or_eq_true, beq_iff_eq, List.isSuffixOf_iff_suffix, EndsWith,
    String.toList_inj]
  refine or_congr Iff.rfl ⟨?_, ?_⟩
  · rintro ⟨front, whole⟩
    refine ⟨String.ofList front, ?_⟩
    rw [← String.toList_inj, ← whole]
    simp
  · rintro ⟨front, whole⟩
    refine ⟨front.toList, ?_⟩
    rw [whole]
    simp

/-- URIs that end with one another are the same. -/
theorem pathTail_eq_of_endsWith (here : EndsWith (pathTail p) (pathTail q))
    (there : EndsWith (pathTail q) (pathTail p)) : pathTail p = pathTail q := by
  rw [EndsWith, unifySeparators_pathTail] at here there
  rcases here with same | ⟨front, longer⟩
  · exact same
  · rcases there with same | ⟨front', longer'⟩
    · exact same.symm
    · have := congrArg String.length longer
      have := congrArg String.length longer'
      simp only [String.length_append] at *
      have one : "/".length = 1 := by decide
      omega

end Texts

namespace LinkContext

/-! ## Candidates of imports -/

/-- A class that the document of identity `1` exports. -/
def importedClass : Symbol := ⟨"C", .classType, true, .declared 1 1, .empty 0, none⟩

/-- A workspace whose one other document has the given URI and exports one class. -/
def ofUri (uri : String) : LinkContext where
  document := 0
  tree := .ofModule 0 0 (.empty 0)
  exports := ⟨0, "", []⟩
  index := (WorkspaceIndex.empty.upsert ⟨1, uri, [importedClass]⟩).2
  packages := []

/-- An import of that class. -/
def importSite (path : Option String) : ReferenceSite :=
  ⟨1, "C", "C", .empty 0, .classImport path, 0⟩

theorem inWorkspace_ofUri (uri path : String) :
    (ofUri uri).inWorkspace (importSite (some path)) (some path) =
      [importedClass].filter fun _ => uriMatches uri path := by
  have stored : (ofUri uri).index.uriOf 1 = some uri := rfl
  have fits : (ofUri uri).inFile (some path) importedClass = uriMatches uri path := by
    show ((ofUri uri).index.uriOf 1).any (uriMatches · path) = _
    rw [stored, Option.any_some]
  have looked : (ofUri uri).index.lookup "C" = [importedClass] := rfl
  have legal : (importSite (some path)).accepts importedClass = true := rfl
  have other : (importedClass.document != some (ofUri uri).document) = true := rfl
  rw [inWorkspace, show (importSite (some path)).name = "C" from rfl, looked,
    List.filter_singleton, legal]
  simp only [cond_true, List.filter_singleton, other, fits, Bool.true_and]

theorem candidates_ofUri (uri path : String) (r : Java.Resolver) :
    ((ofUri uri).candidates r (importSite (some path))).1.symbols = [importedClass] ↔
      EndsWith uri (pathTail path) := by
  rw [candidates_classImport rfl, ← uriMatches_iff]
  show (ofUri uri).inWorkspace _ _ = _ ↔ _
  rw [inWorkspace_ofUri, List.filter_singleton]
  cases uriMatches uri path <;> simp

variable {ctx ctx' : LinkContext} {site : ReferenceSite}

/-- What an import may mean does not depend on the separators of URIs. -/
theorem inWorkspace_uris {path : Option String} (document : ctx'.document = ctx.document)
    (lookup : ctx'.index.lookup site.name = ctx.index.lookup site.name)
    (uris : ∀ d, (ctx'.index.uriOf d).map unifySeparators =
      (ctx.index.uriOf d).map unifySeparators) :
    ctx'.inWorkspace site path = ctx.inWorkspace site path := by
  have same (s : Symbol) : ctx'.inFile path s = ctx.inFile path s := by
    unfold inFile
    split
    · next path d _ =>
      have fits (index : WorkspaceIndex) : (index.uriOf d).any (uriMatches · path) =
          ((index.uriOf d).map unifySeparators).any (uriMatches · path) := by
        cases index.uriOf d with
        | none => rfl
        | some uri =>
            have twice : unifySeparators (unifySeparators uri) = unifySeparators uri := by
              rw [← String.toList_inj, toList_unifySeparators, toList_unifySeparators,
                slashes_slashes]
            rw [Option.map_some, Option.any_some, Option.any_some, Bool.eq_iff_iff, uriMatches_iff,
              uriMatches_iff, EndsWith, EndsWith, twice]
      rw [fits, fits, uris]
    · rfl
  simp only [inWorkspace, lookup, document, same]

theorem inWorkspace_path {p q : String} (same : pathTail p = pathTail q) :
    ctx.inWorkspace { site with kind := .classImport (some p) } (some p) =
      ctx.inWorkspace { site with kind := .classImport (some q) } (some q) := by
  have fits (uri : String) : uriMatches uri p = uriMatches uri q := by
    rw [Bool.eq_iff_iff, uriMatches_iff, uriMatches_iff, same]
  have file (s : Symbol) : ctx.inFile (some p) s = ctx.inFile (some q) s := by
    unfold inFile
    cases s.document with
    | none => rfl
    | some d => exact congrArg (Option.any · (ctx.index.uriOf d)) (funext fits)
  simp only [inWorkspace, file]
  rfl

end LinkContext

open LinkContext

/-- Two paths mean the same in every workspace exactly if the same is left of both. -/
theorem importsAlike_iff {p q : String} : ImportsAlike p q ↔ pathTail p = pathTail q := by
  constructor
  · intro alike
    have self (path : String) : EndsWith (pathTail path) (pathTail path) :=
      .inl (unifySeparators_pathTail path)
    have both (uri : String) : EndsWith uri (pathTail p) ↔ EndsWith uri (pathTail q) := by
      have same := alike (ofUri uri) (.ofCatalog .empty) (importSite none)
      rw [← candidates_ofUri uri p (.ofCatalog .empty),
        ← candidates_ofUri uri q (.ofCatalog .empty)]
      exact iff_of_eq (congrArg (fun c => c.1.symbols = [importedClass]) same)
    exact pathTail_eq_of_endsWith ((both _).mp (self p)) ((both _).mpr (self q))
  · intro same ctx r site
    rw [candidates_classImport rfl, candidates_classImport rfl, inWorkspace_path same]

theorem pathTail_of_no_steps {p : String} (none : currentSteps p.toList = 0) :
    pathTail p = unifySeparators p := by
  rw [pathTail, withoutCurrentSteps_eq, none]
  simp

/-- An import with a path may mean the classes of its name in other documents whose URIs end with
what is left of the path. -/
theorem mem_candidates_import {ctx : LinkContext} {r : Java.Resolver} {site : ReferenceSite}
    {p : String} {s : Symbol} :
    s ∈ (ctx.candidates r { site with kind := .classImport (some p) }).1.symbols ↔
      s ∈ ctx.index.lookup site.name ∧ s.kind = .classType ∧ s.document ≠ some ctx.document ∧
        ∀ d, s.document = some d →
          ∃ uri, ctx.index.uriOf d = some uri ∧ EndsWith uri (pathTail p) := by
  have legal : ({ site with kind := .classImport (some p) } : ReferenceSite).accepts s = true ↔
      s.kind = .classType := by
    simp [ReferenceSite.accepts, ReferenceKind.legalKinds]
  have file : ctx.inFile (some p) s = true ↔ ∀ d, s.document = some d →
      ∃ uri, ctx.index.uriOf d = some uri ∧ EndsWith uri (pathTail p) := by
    unfold inFile
    cases s.document with
    | none => simp
    | some d => simp only [Option.any_eq_true, Option.some.injEq, forall_eq', uriMatches_iff]
  rw [candidates_classImport rfl]
  show s ∈ ctx.inWorkspace { site with kind := .classImport (some p) } (some p) ↔ _
  rw [inWorkspace, List.mem_filter, List.mem_filter, Bool.and_eq_true, legal, file, bne_iff_ne,
    and_assoc]

/-- For the candidates of an import it makes no difference which separators URIs are written with.
In its path it makes a difference exactly where a separator ends one of the steps `./` at the
front: of two paths that only separators tell apart the same number of steps must be left out, and
steps in front of a path must all be written with a slash. In a path without these steps at its
front a document fits exactly if its URI is the path or ends with a separator and the path. -/
theorem candidates_importPath (p : String) :
    (∀ (ctx ctx' : LinkContext) (r : Java.Resolver) (site : ReferenceSite),
      site.kind = .classImport (some p) → ctx'.document = ctx.document →
      ctx'.index.lookup site.name = ctx.index.lookup site.name →
      (∀ d, (ctx'.index.uriOf d).map unifySeparators = (ctx.index.uriOf d).map unifySeparators) →
      ctx'.candidates r site = ctx.candidates r site) ∧
    (∀ q : String, unifySeparators p = unifySeparators q →
      (ImportsAlike p q ↔ currentSteps p.toList = currentSteps q.toList)) ∧
    (∀ steps : List String, (∀ s ∈ steps, s = "./" ∨ s = ".\\") →
      (ImportsAlike (String.join steps ++ p) p ↔ ∀ s ∈ steps, s = "./")) ∧
    (currentSteps p.toList = 0 →
      ∀ (ctx : LinkContext) (r : Java.Resolver) (site : ReferenceSite) (s : Symbol),
        s ∈ (ctx.candidates r { site with kind := .classImport (some p) }).1.symbols ↔
          s ∈ ctx.index.lookup site.name ∧ s.kind = .classType ∧ s.document ≠ some ctx.document ∧
            ∀ d, s.document = some d →
              ∃ uri, ctx.index.uriOf d = some uri ∧ EndsWith uri (unifySeparators p)) := by
  refine ⟨?_, ?_, ?_, ?_⟩
  · intro ctx ctx' r site kind document lookup uris
    rw [candidates_classImport kind, candidates_classImport kind,
      inWorkspace_uris document lookup uris]
  · intro q same
    rw [importsAlike_iff, pathTail_eq_iff_currentSteps same]
  · intro steps each
    rw [importsAlike_iff, pathTail_steps each]
  · intro none ctx r site s
    rw [mem_candidates_import, pathTail_of_no_steps none]

/-- A separator inside of a path and steps with a slash change nothing, a step with a backslash
does. -/
theorem candidates_importPath_backslashStep :
    ImportsAlike "lib\\b.bbj" "lib/b.bbj" ∧ ImportsAlike "././b.bbj" "b.bbj" ∧
      ¬ ImportsAlike ".\\b.bbj" "b.bbj" ∧ ¬ ImportsAlike ".\\b.bbj" "./b.bbj" := by
  obtain ⟨-, inner, -⟩ := candidates_importPath "lib\\b.bbj"
  obtain ⟨-, -, steps, -⟩ := candidates_importPath "b.bbj"
  obtain ⟨-, outer, -⟩ := candidates_importPath ".\\b.bbj"
  refine ⟨?_, ?_, ?_, ?_⟩
  · exact (inner "lib/b.bbj" (by decide)).mpr (by decide)
  · exact (steps ["./", "./"] (by decide)).mpr (by decide)
  · intro alike
    exact absurd ((steps [".\\"] (by decide)).mp alike) (by decide)
  · intro alike
    exact absurd ((outer "./b.bbj" (by decide)).mp alike) (by decide)

end BbjAnalysis
