import BbjAnalysis.Java.Catalog

/-! # Looking Java names up

A resolver keeps every answer, also that nothing was found, until it is told to reload.
One look-up is four acts: reading the cache, reading the generation, asking the
catalog, and keeping the answer. A reload in between raises the generation, and the
answer is then not kept, since it may come from an older catalog.
-/

namespace BbjAnalysis.Java

structure Resolver where
  catalog : ClassSource
  /-- Answers kept since the last reload. -/
  cache : OrderedMap String Answer
  /-- How often the cache was dropped. -/
  generation : Nat
  /-- The class names that the catalogs were asked for, the latest first. -/
  asked : List String

namespace Resolver

def ofCatalog (c : ClassSource) : Resolver := ⟨c, ∅, 0, []⟩

/-- The answer that is kept for a name. -/
def cached? (r : Resolver) (name : String) : Option Answer := r.cache.get? name

/-- The resolver after its catalog was asked for the given class names, in order. -/
def noteAsked (r : Resolver) (names : List String) : Resolver :=
  { r with asked := names.reverse ++ r.asked }

/-- Keeps an answer that was found in the given generation, if that is still the present one
and no answer is kept already. -/
def keep (r : Resolver) (name : String) (generation : Nat) (answer : Answer) : Resolver :=
  if r.generation = generation then
    match r.cached? name with
    | some _ => r
    | none => { r with cache := r.cache.insert name answer }
  else r

/-- Drops all answers. -/
def reload (r : Resolver) : Resolver := { r with cache := ∅, generation := r.generation + 1 }

/-- Puts another catalog in place. Answers of the former one are still kept. -/
def setCatalog (r : Resolver) (c : ClassSource) : Resolver := { r with catalog := c }

/-- Puts another catalog in place and drops all answers. -/
def replaceCatalog (r : Resolver) (c : ClassSource) : Resolver := (r.setCatalog c).reload

/-- Looks a name up. If the catalog is asked, `meanwhile` happens while it answers. -/
def resolveWith (meanwhile : Resolver → Resolver) (r : Resolver) (name : String) :
    Answer × Resolver :=
  match r.cached? name with
  | some answer => (answer, r)
  | none =>
      let (answer, names) := r.catalog.query name
      let asked := if names.isEmpty then r else meanwhile (r.noteAsked names)
      (answer, asked.keep name r.generation answer)

/-- Looks a name up. -/
def resolve (r : Resolver) (name : String) : Answer × Resolver := resolveWith id r name

/-- Looks a name up, while another one reloads. -/
def resolveAmidReload (r : Resolver) (name : String) : Answer × Resolver :=
  resolveWith reload r name

/-- How often the catalogs were asked for a class. -/
def queries (r : Resolver) : Nat := r.asked.length

/-- The state of the resolver in words. -/
def display (r : Resolver) : String :=
  s!"JavaInteropResolver \x7b cached: {r.cache.size}, generation: {r.generation}, .. \x7d"

end Resolver

end BbjAnalysis.Java
