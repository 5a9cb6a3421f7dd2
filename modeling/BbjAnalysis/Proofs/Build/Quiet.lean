import BbjAnalysis.Build.Pass
import BbjAnalysis.Proofs.Ordered.Map

/-! # Passes that nothing interrupts

A builder is quiet if no work is cancelled and nothing will cancel any. No step of a
pass over a quiet builder is skipped, and every step changes what is known of one
document. What a whole fold of such steps does can then be read off one step
(`foldl_view`).
-/

namespace BbjAnalysis

/-- What no pass changes. -/
structure Setting where
  config : BuildConfig
  packages : List String
  rules : RuleSet
  interrupts : Interrupts
  elsewhere : Stage → DocumentId → List DocumentId
  catalog : Java.ClassSource
  byUri : OrderedMap String DocumentId
  nextId : DocumentId

/-- What only opening and closing change of a document. -/
def OpenDocument.source (d : OpenDocument) : String × String × Bool := (d.uri, d.text, d.cancelled)

namespace Builder

def setting (b : Builder) : Setting where
  config := b.config
  packages := b.packages
  rules := b.rules
  interrupts := b.interrupts
  elsewhere := b.elsewhere
  catalog := b.resolver.catalog
  byUri := b.byUri
  nextId := b.nextId

theorem document?_update (b : Builder) (id x : DocumentId) (f : OpenDocument → OpenDocument) :
    (b.update id f).document? x = if x = id then (b.document? x).map f else b.document? x := by
  rw [document?, update, OrderedMap.get?_adjust]
  split
  · next same =>
      rw [same]
      rfl
  · rfl

theorem update_update (b : Builder) (id : DocumentId) (f g : OpenDocument → OpenDocument) :
    (b.update id f).update id g = b.update id (g ∘ f) := by
  have same : (b.documents.adjust id f).adjust id g = b.documents.adjust id (g ∘ f) := by
    apply OrderedMap.ext_get?
    intro x
    simp only [OrderedMap.get?_adjust]
    split
    · rw [if_pos trivial, Option.map_map]
    · rfl
  simp only [update, same]

/-- A change that no one sees from outside of the document keeps all sources. -/
theorem source_update {b : Builder} {id : DocumentId} {f : OpenDocument → OpenDocument}
    (keeps : ∀ d, (f d).source = d.source) (x : DocumentId) :
    ((b.update id f).document? x).map (·.source) = (b.document? x).map (·.source) := by
  rw [document?_update]
  split
  · rw [Option.map_map]
    exact congrArg (Option.map · _) (funext keeps)
  · rfl

theorem uriOf_of_open {b : Builder} {x : DocumentId} {d : OpenDocument}
    (present : b.document? x = some d) : b.uriOf x = some d.uri := by
  rw [uriOf, present, Option.map_some]

theorem uriOf_eq {b b' : Builder}
    (sources : ∀ x, (b'.document? x).map (·.source) = (b.document? x).map (·.source))
    (x : DocumentId) : b'.uriOf x = b.uriOf x := by
  have same := congrArg (Option.map (·.1)) (sources x)
  simp only [Option.map_map] at same
  exact same

/-- No work is cancelled, and nothing will cancel any. -/
structure Quiet (b : Builder) : Prop where
  elsewhere : b.elsewhere = fun _ _ => []
  interrupts : b.interrupts = .silent
  live : ∀ {id d}, b.document? id = some d → d.cancelled = false

/-- A quiet builder stays quiet if it keeps its setting and the sources of its documents. -/
theorem Quiet.of_sources {b b' : Builder} (quiet : b.Quiet) (setting : b'.setting = b.setting)
    (sources : ∀ x, (b'.document? x).map (·.source) = (b.document? x).map (·.source)) :
    b'.Quiet where
  elsewhere := (congrArg Setting.elsewhere setting).trans quiet.elsewhere
  interrupts := (congrArg Setting.interrupts setting).trans quiet.interrupts
  live {id d} present := by
    have same := sources id
    rw [present, Option.map_some, eq_comm, Option.map_eq_some_iff] at same
    obtain ⟨d', former, same⟩ := same
    have kept : d'.cancelled = d.cancelled := congrArg (·.2.2) same
    rw [← kept, quiet.live former]

theorem Quiet.arrive {b : Builder} (quiet : b.Quiet) (stage : Stage) (id : DocumentId) :
    b.arrive stage id = b := by
  rw [Builder.arrive, quiet.elsewhere]
  rfl

theorem Quiet.isCancelled {b : Builder} (quiet : b.Quiet) {id : DocumentId} {d : OpenDocument}
    (present : b.document? id = some d) : b.isCancelled id = false := by
  rw [Builder.isCancelled, present]
  exact quiet.live present

theorem Quiet.onNames {b : Builder} (quiet : b.Quiet) (id : DocumentId) (asked : List String) :
    b.cancelUris (b.interrupts.onNames id asked) = b := by
  rw [quiet.interrupts]
  rfl

theorem Quiet.onClasses {b b' : Builder} (quiet : b.Quiet) (id : DocumentId)
    (asked : List String) : b'.cancelUris (b.interrupts.onClasses id asked) = b' := by
  rw [quiet.interrupts]
  rfl

end Builder

/-- Let each step of a fold change what is seen of its own document alone, and let a change made
twice be the change made once. Then the fold changes what is seen of the documents of the list. -/
theorem foldl_view {σ α : Type} {step : σ → DocumentId → σ} (view : σ → DocumentId → α)
    (P : σ → Prop) {change : DocumentId → α → α} (keeps : ∀ s id, P s → P (step s id))
    (view_step : ∀ s id x, P s →
      view (step s id) x = if x = id then change x (view s x) else view s x)
    (idempotent : ∀ x a, change x (change x a) = change x a) (ids : List DocumentId) {s : σ}
    (start : P s) :
    P (ids.foldl step s) ∧ ∀ x,
      view (ids.foldl step s) x = if x ∈ ids then change x (view s x) else view s x := by
  induction ids generalizing s with
  | nil => exact ⟨start, fun x => (if_neg List.not_mem_nil).symm⟩
  | cons id rest ih =>
      -- A document that comes again later is changed twice.
      obtain ⟨kept, seen⟩ := ih (keeps s id start)
      refine ⟨kept, fun x => ?_⟩
      rw [List.foldl_cons, seen x, view_step s id x start]
      by_cases same : x = id
      · by_cases later : x ∈ rest
        · rw [if_pos later, if_pos same, idempotent, if_pos (.tail _ later)]
        · rw [if_neg later, if_pos same, if_pos (same ▸ .head _)]
      · by_cases later : x ∈ rest
        · rw [if_pos later, if_neg same, if_pos (.tail _ later)]
        · rw [if_neg later, if_neg same, if_neg fun member =>
            (List.mem_cons.mp member).elim same later]

end BbjAnalysis
