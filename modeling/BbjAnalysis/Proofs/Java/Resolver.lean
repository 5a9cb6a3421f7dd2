import BbjAnalysis.Java.Resolver

/-! # Kept answers

A resolver is faithful if every answer it keeps is the one its catalog gives now. A
faithful resolver answers as the catalog does, whatever it was asked before, and stays
faithful. Two faithful resolvers over one catalog cannot be told apart by their
answers (`Agrees.resolve`).
-/

namespace BbjAnalysis.Java

/-- The catalog knows no class of the given name, and reads it as that of a member. -/
def ClassSource.ReadsMember (c : ClassSource) (name : String) (s : Symbol) : Prop :=
  c.class? name = none ∧ ∃ owner member info, memberReading name = some (owner, member) ∧
    c.class? owner = some info ∧ info.hasMember member = true ∧ s = memberSymbol info member

/-- A name that means something is that of a class or else that of a member. -/
theorem ClassSource.query_found {c : ClassSource} {name : String} {s : Symbol}
    (found : (c.query name).1 = .found s) :
    (∃ info, c.class? name = some info ∧ s = classSymbol info) ∨ c.ReadsMember name s := by
  unfold query at found
  split at found
  · cases known : c.class? name with
    | some info =>
        rw [known] at found
        cases found
        exact .inl ⟨info, rfl, rfl⟩
    | none =>
        rw [known] at found
        cases reading : memberReading name with
        | none =>
            rw [reading] at found
            cases found
        | some parts =>
            obtain ⟨owner, member⟩ := parts
            cases owned : c.class? owner with
            | none =>
                simp only [reading, owned] at found
                cases found
            | some info =>
                simp only [reading, owned] at found
                split at found
                · next has =>
                  cases found
                  exact .inr ⟨known, owner, member, info, reading, owned, has, rfl⟩
                · cases found
  · cases found

/-- What the catalog knows belongs to no document. -/
theorem ClassSource.query_document {c : ClassSource} {name : String} {s : Symbol}
    (found : (c.query name).1 = .found s) : s.document = none := by
  obtain ⟨info, -, rfl⟩ | ⟨-, owner, member, info, -, -, -, rfl⟩ := query_found found <;> rfl

namespace Resolver

/-- Every kept answer is the one that the present catalog gives. -/
def Faithful (r : Resolver) : Prop :=
  ∀ name answer, r.cached? name = some answer → answer = (r.catalog.query name).1

theorem faithful_ofCatalog (c : ClassSource) : (ofCatalog c).Faithful := by
  intro name answer kept
  cases kept

theorem faithful_reload (r : Resolver) : r.reload.Faithful := by
  intro name answer kept
  cases kept

theorem resolve_catalog (r : Resolver) (name : String) :
    (r.resolve name).2.catalog = r.catalog := by
  unfold resolve resolveWith
  split
  · rfl
  · simp only [keep]
    split <;> split <;> (try split) <;> rfl

theorem resolve_answer (r : Resolver) (name : String) :
    (r.resolve name).1 = (r.cached? name).getD (r.catalog.query name).1 := by
  unfold resolve resolveWith
  cases r.cached? name <;> rfl

/-- An answer is kept once it was given, and no other one. -/
theorem cached?_resolve (r : Resolver) (name other : String) :
    (r.resolve name).2.cached? other =
      if other = name then some (r.resolve name).1 else r.cached? other := by
  cases kept : r.cached? name with
  | some answer =>
      have same : r.resolve name = (answer, r) := by
        simp only [resolve, resolveWith, kept]
      rw [same]
      split
      · next again => rw [again, kept]
      · rfl
  | none =>
      have asked (r' : Resolver) (cache : r'.cache = r.cache)
          (generation : r'.generation = r.generation) (answer : Answer) :
          (r'.keep name r.generation answer).cached? other =
            if other = name then some answer else r.cached? other := by
        have absent : r'.cached? name = none := by rw [cached?, cache]; exact kept
        rw [keep, if_pos generation, absent, cached?, OrderedMap.get?_insert, cache]
        rfl
      simp only [resolve, resolveWith, kept]
      split
      · exact asked r rfl rfl _
      · exact asked (r.noteAsked _) rfl rfl _

/-- What a name means does not depend on what was looked up before. -/
theorem resolve_answer_resolve (r : Resolver) (name other : String) :
    ((r.resolve name).2.resolve other).1 = (r.resolve other).1 := by
  rw [resolve_answer, cached?_resolve, resolve_catalog]
  split
  · next same => rw [same]; rfl
  · exact (resolve_answer r other).symm

theorem Faithful.resolve_answer {r : Resolver} (faithful : r.Faithful) (name : String) :
    (r.resolve name).1 = (r.catalog.query name).1 := by
  rw [Resolver.resolve_answer]
  cases kept : r.cached? name with
  | none => rfl
  | some answer => exact faithful name answer kept

theorem Faithful.query_of_resolve {r : Resolver} (faithful : r.Faithful) {name : String}
    {s : Symbol} (found : (r.resolve name).1.symbol = some s) :
    (r.catalog.query name).1 = .found s := by
  rw [faithful.resolve_answer] at found
  cases answer : (r.catalog.query name).1 with
  | notFound =>
      rw [answer] at found
      cases found
  | found symbol =>
      rw [answer] at found
      cases found
      rfl

/-- What a faithful resolver finds belongs to no document. -/
theorem Faithful.document_of_resolve {r : Resolver} (faithful : r.Faithful) {name : String}
    {s : Symbol} (found : (r.resolve name).1.symbol = some s) : s.document = none :=
  ClassSource.query_document (faithful.query_of_resolve found)

theorem Faithful.keep {r : Resolver} (faithful : r.Faithful) (name : String) (generation : Nat) :
    (r.keep name generation (r.catalog.query name).1).Faithful := by
  unfold Resolver.keep
  split
  · split
    · exact faithful
    · intro other answer kept
      simp only [cached?, OrderedMap.get?_insert] at kept
      split at kept
      · next same =>
          cases kept
          rw [same]
      · exact faithful other answer kept
  · exact faithful

theorem Faithful.resolve {r : Resolver} (faithful : r.Faithful) (name : String) :
    (r.resolve name).2.Faithful := by
  unfold Resolver.resolve resolveWith
  split
  · exact faithful
  · dsimp only
    split
    · exact faithful.keep name r.generation
    · exact Faithful.keep (r := r.noteAsked (r.catalog.query name).2) faithful name r.generation

/-- Two resolvers over one catalog, of which each keeps only answers of that catalog. -/
structure Agrees (c : ClassSource) (r r' : Resolver) : Prop where
  catalog : r.catalog = c
  catalog' : r'.catalog = c
  faithful : r.Faithful
  faithful' : r'.Faithful

variable {c : ClassSource} {r r' : Resolver}

theorem Agrees.resolve_answer (agrees : Agrees c r r') (name : String) :
    (r'.resolve name).1 = (r.resolve name).1 := by
  rw [agrees.faithful.resolve_answer, agrees.faithful'.resolve_answer, agrees.catalog,
    agrees.catalog']

theorem Agrees.resolve (agrees : Agrees c r r') (name : String) :
    Agrees c (r.resolve name).2 (r'.resolve name).2 where
  catalog := (resolve_catalog r name).trans agrees.catalog
  catalog' := (resolve_catalog r' name).trans agrees.catalog'
  faithful := agrees.faithful.resolve name
  faithful' := agrees.faithful'.resolve name

end Resolver

end BbjAnalysis.Java
