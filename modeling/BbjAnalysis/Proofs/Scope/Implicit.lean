import BbjAnalysis.Proofs.Scope.Writes

/-! # Variables that are declared by being written

What a write found in the scopes when the walk came to it is what the scopes declare before it when
all is done (`ScopeTree.SeesBefore`), since later declarations have greater identities. So of the
writes to one variable exactly the first that saw none declares it (`Write.Settled`).
-/

namespace BbjAnalysis

open BbjAnalysis.Part

namespace ScopeTree

variable {t t' : ScopeTree} {i : ScopeId}

/-! ## Scopes up to a procedure -/

theorem Grows.upToHoistTarget (grows : t.Grows t') {ids : List ScopeId}
    (small : ∀ i ∈ ids, i < t.scopes.size) : t'.upToHoistTarget ids = t.upToHoistTarget ids := by
  induction ids with
  | nil => rfl
  | cons i rest ih =>
      obtain ⟨first, others⟩ := List.forall_mem_cons.mp small
      simp only [ScopeTree.upToHoistTarget, grows.isHoistTarget first, ih others]

theorem Grows.hoistTarget (grows : t.Grows t') (wf : t.WellFormed) (wf' : t'.WellFormed)
    (small : i < t.scopes.size) : t'.hoistTarget i = t.hoistTarget i := by
  rw [ScopeTree.hoistTarget, ScopeTree.hoistTarget, grows.ancestors wf wf' small,
    ← List.head?_filter, ← List.head?_filter]
  have same := List.filter_congr fun j around =>
    grows.isHoistTarget (lt_of_mem_ancestors wf small around)
  rw [same]

theorem mem_upToHoistTarget {ids : List ScopeId} {h : ScopeId}
    (found : ids.find? t.isHoistTarget = some h) : h ∈ t.upToHoistTarget ids := by
  induction ids with
  | nil => cases found
  | cons i rest ih =>
      rw [ScopeTree.upToHoistTarget]
      rw [List.find?_cons] at found
      cases target : t.isHoistTarget i with
      | true =>
          rw [target] at found
          cases found
          exact List.mem_singleton_self _
      | false =>
          rw [target] at found
          exact .tail _ (ih found)

theorem hoistTarget_mem_upToHoistTarget (wf : t.WellFormed) (small : i < t.scopes.size) :
    t.hoistTarget i ∈ t.upToHoistTarget (t.ancestors i) := by
  cases found : (t.ancestors i).find? t.isHoistTarget with
  | some h =>
      rw [hoistTarget, found]
      exact mem_upToHoistTarget found
  | none =>
      -- the module is around every scope
      obtain ⟨s, root, kind, -⟩ := wf.root
      have top : t.isHoistTarget 0 = true := by
        simp [isHoistTarget, kindOf, root, kind, ScopeKind.isHoistTarget]
      exact absurd top (List.find?_eq_none.mp found 0 (zero_mem_ancestors wf small))

end ScopeTree

/-! ## What a write sees -/

/-- The name under which a variable is declared and looked for. -/
def variableKey (name : Ident) : String := canonicalName name.text .variable

/-- A variable of the name is declared before it in a scope up to the nearest procedure. -/
def ScopeTree.SeesBefore (t : ScopeTree) (i : ScopeId) (name : Ident) : Prop :=
  ∃ j ∈ t.upToHoistTarget (t.ancestors i), ∃ x ∈ t.lookupLocal j (variableKey name),
    x.kind = .variable ∧ ∃ n, x.node = some n ∧ n < name.id

theorem ScopeTree.seesVariable_iff {t : ScopeTree} {i : ScopeId} {name : String} :
    t.seesVariable i name = true ↔ ∃ j ∈ t.upToHoistTarget (t.ancestors i),
      ∃ x ∈ t.lookupLocal j name, x.kind = .variable := by
  simp only [seesVariable, List.any_eq_true, beq_iff_eq]

/-- A variable as it is declared by a write. -/
def writtenSymbol (document : DocumentId) (name : Ident) : Symbol :=
  ⟨variableKey name, .variable, false, .declared document name.id, name.span, none⟩

/-- A write as the reference that it is if it sees its variable. -/
def writtenSite (name : Ident) (i : ScopeId) : ReferenceSite :=
  ⟨name.id, name.text, variableKey name, name.span, .variable, i⟩

/-- A write that sees no variable declares one, for the nearest procedure. -/
theorem lookupLocal_assignVariable {s : Surroundings} {f : Findings} (wf : f.tree.WellFormed)
    (small : s.scope < f.tree.scopes.size) (name : Ident) (i : ScopeId) (key : String) :
    (f.assignVariable s name).tree.lookupLocal i key = f.tree.lookupLocal i key ++
      if f.tree.seesVariable s.scope (variableKey name) = false ∧
        f.tree.hoistTarget s.scope = i ∧ key = variableKey name
      then [writtenSymbol f.tree.document name] else [] := by
  rw [writtenSymbol, variableKey, Findings.assignVariable]
  cases sees : f.tree.seesVariable s.scope (canonicalName name.text .variable) with
  | true =>
      simp only [if_true, Bool.true_eq_false, false_and, if_false, List.append_nil]
      rfl
  | false =>
      simp only [Bool.false_eq_true, if_false, true_and, Findings.declareIdent, Findings.declare]
      rw [ScopeTree.lookupLocal_declare wf (ScopeTree.hoistTarget_spec wf small).1]

/-- What becomes of a write that stands in the given scope. -/
structure Write.Settled (t : ScopeTree) (references : List ReferenceSite) (w : Write)
    (i : ScopeId) : Prop where
  small : i < t.scopes.size
  place : t.regions i = w.around
  declares : ¬ t.SeesBefore i w.name →
    ∃ x ∈ t.lookupLocal (t.hoistTarget i) (variableKey w.name),
      x.kind = .variable ∧ x.node = some w.name.id
  refers : t.SeesBefore i w.name → writtenSite w.name i ∈ references
  only : ∀ j key, ∀ x ∈ t.lookupLocal j key, x.node = some w.name.id →
    ¬ t.SeesBefore i w.name ∧ j = t.hoistTarget i ∧ key = variableKey w.name

namespace Findings.Meets

variable {names front back : List Ident} {f g h : Findings} {w : Write} {s : Surroundings}
  (meets : f.Meets names g w s h front back)
include meets

/-- What is declared under a name in the end: what was declared before the write, what the write
declares, and the rest. -/
theorem lookupLocal_eq (ordered : names.Pairwise fun i j => Follows i.node j.node)
    (fresh : ∀ i key, f.tree.lookupLocal i key = []) (i : ScopeId) (key : String) :
    ∃ later, g.tree.lookupLocal i key = h.tree.lookupLocal i key ++
        ((if h.tree.seesVariable s.scope (variableKey w.name) = false ∧
          h.tree.hoistTarget s.scope = i ∧ key = variableKey w.name
        then [writtenSymbol h.tree.document w.name] else []) ++ later) ∧
      (∀ x ∈ h.tree.lookupLocal i key, ∃ n, x.node = some n ∧ n < w.name.id) ∧
      ∀ x ∈ later, ∃ n, x.node = some n ∧ w.name.id < n := by
  obtain ⟨-, behind, before⟩ := List.pairwise_append.mp (ordered.sublist meets.order)
  obtain ⟨earlier, same, declared⟩ := meets.before.listed i key
  obtain ⟨later, same', declared'⟩ := meets.behind.listed i key
  rw [lookupLocal_assignVariable meets.within.tidy.wellFormed meets.within.small,
    List.append_assoc] at same'
  refine ⟨later, same', fun x member => ?_, fun x member => ?_⟩
  · rw [same, fresh, List.nil_append] at member
    obtain ⟨n, among, node⟩ := declared x member
    exact ⟨n.id, node, (before n among w.name List.mem_cons_self).1⟩
  · obtain ⟨n, among, node⟩ := declared' x member
    exact ⟨n.id, node, ((List.pairwise_cons.mp behind).1 n among).1⟩

/-- What was declared before the write is what is declared in the end by lesser identities. -/
theorem mem_lookupLocal_iff (ordered : names.Pairwise fun i j => Follows i.node j.node)
    (fresh : ∀ i key, f.tree.lookupLocal i key = []) (i : ScopeId) (key : String) (x : Symbol) :
    (x ∈ g.tree.lookupLocal i key ∧ ∃ n, x.node = some n ∧ n < w.name.id) ↔
      x ∈ h.tree.lookupLocal i key := by
  obtain ⟨later, same, before, behind⟩ := meets.lookupLocal_eq ordered fresh i key
  rw [same]
  constructor
  · rintro ⟨member, n, node, less⟩
    rcases List.mem_append.mp member with member | member
    · exact member
    exfalso
    rcases List.mem_append.mp member with own | member
    · split at own
      · rw [List.mem_singleton.mp own] at node
        cases node
        exact Nat.lt_irrefl _ less
      · cases own
    · obtain ⟨m, node', more⟩ := behind x member
      cases node.symm.trans node'
      exact Nat.lt_asymm less more
  · exact fun member => ⟨List.mem_append_left _ member, before x member⟩

/-- What has the identity of the write is declared by it. -/
theorem eq_writtenSymbol (ordered : names.Pairwise fun i j => Follows i.node j.node)
    (fresh : ∀ i key, f.tree.lookupLocal i key = []) {i : ScopeId} {key : String} {x : Symbol}
    (member : x ∈ g.tree.lookupLocal i key) (own : x.node = some w.name.id) :
    h.tree.seesVariable s.scope (variableKey w.name) = false ∧
      h.tree.hoistTarget s.scope = i ∧ key = variableKey w.name := by
  obtain ⟨later, same, before, behind⟩ := meets.lookupLocal_eq ordered fresh i key
  rw [same] at member
  rcases List.mem_append.mp member with member | member
  · obtain ⟨n, node, less⟩ := before x member
    cases own.symm.trans node
    exact absurd less (Nat.lt_irrefl _)
  rcases List.mem_append.mp member with member | member
  · split at member
    · next all => exact all
    · cases member
  · obtain ⟨n, node, more⟩ := behind x member
    cases own.symm.trans node
    exact absurd more (Nat.lt_irrefl _)

theorem settled (ordered : names.Pairwise fun i j => Follows i.node j.node)
    (fresh : ∀ i key, f.tree.lookupLocal i key = []) (tidy : g.Tidy) :
    w.Settled g.tree g.references s.scope := by
  have wf := meets.within.tidy.wellFormed
  have small := meets.within.small
  have walk : Walk w.name.span _ _ _ _ := walk_assignVariable s h w.name
  have written := walk.tidy meets.within.tidy small
  have grows : h.tree.Grows g.tree := written.2.trans meets.behind.grows
  have around := grows.ancestors wf tidy.wellFormed small
  have target := grows.hoistTarget wf tidy.wellFormed small
  have upTo : g.tree.upToHoistTarget (g.tree.ancestors s.scope) =
      h.tree.upToHoistTarget (h.tree.ancestors s.scope) := by
    rw [around]
    exact grows.upToHoistTarget fun i => ScopeTree.lt_of_mem_ancestors wf small
  have sees : g.tree.SeesBefore s.scope w.name ↔
      h.tree.seesVariable s.scope (variableKey w.name) = true := by
    simp only [ScopeTree.SeesBefore, upTo, ScopeTree.seesVariable_iff,
      ← meets.mem_lookupLocal_iff ordered fresh]
    grind
  refine ⟨grows.lt small, ?_, fun blind => ?_, fun seen => ?_, fun j key x member own => ?_⟩
  · rw [grows.regions wf tidy.wellFormed small, meets.within.place]
  · rw [sees, Bool.not_eq_true] at blind
    obtain ⟨later, same, -⟩ := meets.lookupLocal_eq ordered fresh (h.tree.hoistTarget s.scope)
      (variableKey w.name)
    rw [if_pos ⟨blind, rfl, rfl⟩] at same
    refine ⟨writtenSymbol h.tree.document w.name, ?_, rfl, rfl⟩
    rw [target, same]
    exact List.mem_append_right _ (List.mem_append_left _ List.mem_cons_self)
  · rw [sees] at seen
    apply meets.behind.kept
    rw [variableKey] at seen
    rw [writtenSite, variableKey, Findings.assignVariable, if_pos seen]
    exact List.mem_append_right _ (List.mem_singleton_self _)
  · obtain ⟨blind, here, name⟩ := meets.eq_writtenSymbol ordered fresh member own
    rw [sees, Bool.not_eq_true, target]
    exact ⟨blind, here.symm, name⟩

end Findings.Meets

/-! ## Programs -/

theorem exists_settled (text : String) (document : DocumentId) {w : Write}
    (member : w ∈ (parse text).program.writes) :
    let found := collect document (parse text).program
    ∃ i, w.Settled found.tree found.references i := by
  intro found
  obtain ⟨s, h, front, back, meets⟩ := met_collect document (parse text).program w member
  refine ⟨s.scope, meets.settled (declarables_follow text) (fun i key => ?_)
    (Findings.tidy_collect document _)⟩
  obtain _ | i := i <;> rfl

namespace ScopeTree

/-- The variables of a name in a scope that were declared by writes. -/
def introduced (t : ScopeTree) (writes : List Write) (i : ScopeId) (key : String) : List Symbol :=
  (t.lookupLocal i key).filter fun x =>
    x.kind == .variable && writes.any (x.node == some ·.name.id)

variable {t : ScopeTree} {references : List ReferenceSite} {writes : List Write}
  {scopeOf : Write → ScopeId} {i : ScopeId} {key : String} {x : Symbol}

theorem mem_introduced : x ∈ t.introduced writes i key ↔
    x ∈ t.lookupLocal i key ∧ x.kind = .variable ∧ ∃ w ∈ writes, x.node = some w.name.id := by
  simp only [introduced, List.mem_filter, Bool.and_eq_true, beq_iff_eq, List.any_eq_true]

/-- A variable that is declared for the nearest procedure is seen by later writes in it. -/
theorem seesBefore_of_earlier (wf : t.WellFormed) {v : Write} {i : ScopeId}
    (small : i < t.scopes.size) (listed : x ∈ t.lookupLocal (t.hoistTarget i) (variableKey v.name))
    (isVariable : x.kind = .variable) {n : NodeId} (node : x.node = some n)
    (earlier : n < v.name.id) : t.SeesBefore i v.name :=
  ⟨_, hoistTarget_mem_upToHoistTarget wf small, x, listed, isVariable, n, node, earlier⟩

/-- No more than one variable of a name in a scope is declared by a write. -/
theorem length_introduced_le (wf : t.WellFormed)
    (ordered : (t.lookupLocal i key).Pairwise Symbol.Before)
    (settled : ∀ w ∈ writes, w.Settled t references (scopeOf w)) :
    (t.introduced writes i key).length ≤ 1 := by
  have pairwise := ordered.sublist (List.filter_sublist (p := fun x : Symbol =>
    x.kind == .variable && writes.any (x.node == some ·.name.id)))
  match all : t.introduced writes i key with
  | [] | [_] => simp
  | x :: y :: rest =>
      rw [← introduced, all] at pairwise
      obtain ⟨m, n, first, second, less⟩ :=
        ((List.pairwise_cons.mp pairwise).1 y List.mem_cons_self).node
      have both : x ∈ t.introduced writes i key ∧ y ∈ t.introduced writes i key := by simp [all]
      obtain ⟨listed, isVariable, -⟩ := mem_introduced.mp both.1
      obtain ⟨listed', -, v, among, own⟩ := mem_introduced.mp both.2
      cases second.symm.trans own
      obtain ⟨blind, rfl, rfl⟩ := (settled v among).only i key y listed' own
      exact absurd (seesBefore_of_earlier wf (settled v among).small listed isVariable first less)
        blind

/-- The write that declares a variable is the first one that saw none. -/
theorem first_of_mem_introduced (wf : t.WellFormed)
    (settled : ∀ w ∈ writes, w.Settled t references (scopeOf w))
    (member : x ∈ t.introduced writes i key) : ∃ w ∈ writes, x.node = some w.name.id ∧
      t.hoistTarget (scopeOf w) = i ∧ variableKey w.name = key ∧
      ¬ t.SeesBefore (scopeOf w) w.name ∧
      ∀ v ∈ writes, v.name.id < w.name.id → t.hoistTarget (scopeOf v) = i →
        variableKey v.name = key → t.SeesBefore (scopeOf v) v.name := by
  obtain ⟨listed, isVariable, w, among, own⟩ := mem_introduced.mp member
  obtain ⟨blind, rfl, rfl⟩ := (settled w among).only i key x listed own
  refine ⟨w, among, own, rfl, rfl, blind, fun v among' earlier place name => ?_⟩
  by_contra blind'
  obtain ⟨y, listed', isVariable', own'⟩ := (settled v among').declares blind'
  rw [place, name] at listed'
  exact blind (seesBefore_of_earlier wf (settled w among).small listed' isVariable' own' earlier)

end ScopeTree

end BbjAnalysis
