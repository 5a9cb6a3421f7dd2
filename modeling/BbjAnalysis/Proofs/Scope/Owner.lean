import BbjAnalysis.Proofs.Scope.Opener

/-! # Scopes and the nodes that own them

A statement owns the scope of its body, and the first statement of an `else` owns that of the
`else`. Scopes are opened in the order of the identities of their owners (`openers_ahead`), and two
of them have one owner only where an `else` begins with a statement that opens a scope itself: a
search by the owner then yields the second one of them (`scopeOf_owner`).
-/

namespace BbjAnalysis

/-! ## The order of owners -/

namespace Opener

/-- The owner of the first scope comes ahead of that of the second one, unless an `else` begins with
the statement that the second scope is opened for. -/
def Ahead (x y : Opener) : Prop :=
  x.node.id < y.node.id ∨ ∃ s first, x = elseBranch s first ∧ y = body first

theorem Ahead.le {x y : Opener} (ahead : x.Ahead y) : x.node.id ≤ y.node.id := by
  rcases ahead with less | ⟨s, first, rfl, rfl⟩
  · exact Nat.le_of_lt less
  · exact Nat.le_refl _

end Opener

namespace Statement

/-- The `else` of a statement begins further behind. -/
theorem precedes_of_head? {s first : Statement} {ss : List Statement}
    (ordered : (walkList ss).Pairwise Precedes) (among : s ∈ walkList ss)
    (begins : s.elseBranch.head? = some first) : s.Precedes first ∧ first ∈ walkList ss := by
  have inside : first ∈ walkList s.nested := by
    rw [nested_eq]
    exact mem_walkList_of_mem (List.mem_append_right _ (List.mem_of_head? begins))
  have sublist := walk_sublist_walkList among
  rw [walk_eq_cons] at sublist
  exact ⟨List.rel_of_pairwise_cons (ordered.sublist sublist) inside,
    sublist.subset (List.mem_cons_of_mem s inside)⟩

/-- The owner of the scope is one of the statements. -/
def OwnedIn (o : Opener) (ss : List Statement) : Prop := ∃ s ∈ ss, o.node.id = s.id

theorem OwnedIn.ahead {x y : Opener} {ss ss' : List Statement} (here : OwnedIn x ss)
    (there : OwnedIn y ss') (across : ∀ s ∈ ss, ∀ s' ∈ ss', Precedes s s') : x.Ahead y := by
  obtain ⟨s, among, owner⟩ := here
  obtain ⟨s', among', owner'⟩ := there
  have less := (across s among s' among').1
  rw [← owner, ← owner'] at less
  exact .inl less

theorem ownedIn_list {o : Opener} {ss : List Statement} (ordered : (walkList ss).Pairwise Precedes)
    (member : o ∈ openersList ss) : OwnedIn o (walkList ss) := by
  obtain ⟨s, among, own | other⟩ := (mem_openersList ss).mp member
  · obtain ⟨rfl, -⟩ := mem_bodyOpeners.mp own
    exact ⟨s, among, rfl⟩
  · obtain ⟨first, begins, rfl⟩ := mem_elseOpeners.mp other
    exact ⟨first, (precedes_of_head? ordered among begins).2, rfl⟩

theorem ownedIn_front {s : Statement} {o : Opener}
    (ordered : (walkList s.body).Pairwise Precedes)
    (member : o ∈ s.bodyOpeners ++ openersList s.body) : OwnedIn o (s :: walkList s.body) := by
  rcases List.mem_append.mp member with own | inner
  · obtain ⟨rfl, -⟩ := mem_bodyOpeners.mp own
    exact ⟨s, List.mem_cons_self, rfl⟩
  · obtain ⟨t, among, owner⟩ := ownedIn_list ordered inner
    exact ⟨t, List.mem_cons_of_mem s among, owner⟩

theorem ownedIn_else {s : Statement} {o : Opener}
    (ordered : (walkList s.elseBranch).Pairwise Precedes)
    (member : o ∈ s.elseOpeners ++ openersList s.elseBranch) :
    OwnedIn o (walkList s.elseBranch) := by
  rcases List.mem_append.mp member with own | inner
  · obtain ⟨first, begins, rfl⟩ := mem_elseOpeners.mp own
    exact ⟨first, mem_walkList_of_mem (List.mem_of_head? begins), rfl⟩
  · exact ownedIn_list ordered inner

/-- The scope of an `else` comes ahead of those that are opened in the `else`. -/
theorem elseOpeners_ahead {s : Statement} (ordered : (walkList s.elseBranch).Pairwise Precedes)
    {x y : Opener} (here : x ∈ s.elseOpeners) (there : y ∈ openersList s.elseBranch) :
    x.Ahead y := by
  obtain ⟨first, begins, rfl⟩ := mem_elseOpeners.mp here
  -- all other statements in the `else` come behind the first one
  have behind (t : Statement) (among : t ∈ walkList s.elseBranch) :
      t = first ∨ first.Precedes t := by
    obtain ⟨rest, branch⟩ := List.head?_eq_some_iff.mp begins
    rw [branch, walkList, walk_eq_cons, List.cons_append] at ordered among
    exact (List.mem_cons.mp among).imp_right (List.rel_of_pairwise_cons ordered)
  obtain ⟨t, among, own | other⟩ := (mem_openersList _).mp there
  · obtain ⟨rfl, -⟩ := mem_bodyOpeners.mp own
    rcases behind t among with rfl | later
    · exact .inr ⟨s, t, rfl, rfl⟩
    · exact .inl later.1
  · obtain ⟨next, begins', rfl⟩ := mem_elseOpeners.mp other
    have inner := (precedes_of_head? ordered among begins').1
    rcases behind t among with rfl | later
    · exact .inl inner.1
    · exact .inl (Nat.lt_trans later.1 inner.1)

/-- Scopes are opened in the order of their owners. -/
theorem openersList_ahead (ss : List Statement) (ordered : (walkList ss).Pairwise Precedes) :
    (openersList ss).Pairwise Opener.Ahead := by
  induction ss using list_induction with
  | nil => exact .nil
  | cons s ss first rest =>
      rw [walkList_cons s ss] at ordered
      obtain ⟨front, back, across⟩ := List.pairwise_append.mp ordered
      rw [openersList_cons]
      exact List.pairwise_append.mpr ⟨first front, rest back, fun x here y there =>
        (ownedIn_list front here).ahead (ownedIn_list back there) across⟩
  | single s body other =>
      rw [walkList_singleton_eq] at ordered
      obtain ⟨front, back, across⟩ := List.pairwise_append.mp ordered
      obtain ⟨behind, inner⟩ := List.pairwise_cons.mp front
      have opens : (s.bodyOpeners ++ openersList s.body).Pairwise Opener.Ahead := by
        have own : s.bodyOpeners.Pairwise Opener.Ahead := by
          unfold bodyOpeners
          split <;> simp
        refine List.pairwise_append.mpr ⟨own, body inner, fun x here y there => ?_⟩
        obtain ⟨rfl, -⟩ := mem_bodyOpeners.mp here
        obtain ⟨t, among, owner⟩ := ownedIn_list inner there
        exact .inl (owner ▸ (behind t among).1)
      have otherwise : (s.elseOpeners ++ openersList s.elseBranch).Pairwise Opener.Ahead := by
        have own : s.elseOpeners.Pairwise Opener.Ahead := by
          unfold elseOpeners
          cases s.elseBranch.head? <;> simp
        exact List.pairwise_append.mpr
          ⟨own, other back, fun x here y => elseOpeners_ahead back here⟩
      rw [openersList_singleton]
      exact List.pairwise_append.mpr ⟨opens, otherwise, fun x here y there =>
        (ownedIn_front inner here).ahead (ownedIn_else back there) across⟩

end Statement

open Statement

theorem rootId_lt_id {text : String} {s : Statement}
    (member : s ∈ (parse text).program.allStatements) : Program.rootId < s.id := by
  have marches := Parser.statements_marches [] (Parser.startOf text) rfl (Parser.laid_startOf text)
  rw [Program.allStatements, Parser.parse_statements] at member
  exact (marches.within s member).1.1

/-- The scopes of a text are opened in the order of their owners. -/
theorem openers_ahead (text : String) :
    (parse text).program.openers.Pairwise Opener.Ahead := by
  have ordered : (walkList (parse text).program.statements).Pairwise Precedes :=
    precedes_allStatements text
  refine List.pairwise_cons.mpr ⟨fun o member => ?_, openersList_ahead _ ordered⟩
  obtain ⟨s, among, owner⟩ := ownedIn_list ordered member
  exact .inl (owner ▸ rootId_lt_id among)

/-- Two openers of one owner are an `else` and the body of the first statement in it, which stand
side by side. -/
theorem eq_succ_of_same_owner {os : List Opener} (ordered : os.Pairwise Opener.Ahead) {i j : Nat}
    {x y : Opener} (here : os[i]? = some x) (there : os[j]? = some y) (less : i < j)
    (same : x.node.id = y.node.id) :
    j = i + 1 ∧ ∃ s first, x = .elseBranch s first ∧ y = .body first := by
  have ahead {i j : Nat} {x y : Opener} (here : os[i]? = some x) (there : os[j]? = some y)
      (less : i < j) : x.Ahead y := by
    obtain ⟨small, rfl⟩ := List.getElem?_eq_some_iff.mp here
    obtain ⟨small', rfl⟩ := List.getElem?_eq_some_iff.mp there
    exact List.pairwise_iff_getElem.mp ordered i j small small' less
  obtain lesser | ⟨s, first, rfl, rfl⟩ := ahead here there less
  · exact absurd same (Nat.ne_of_lt lesser)
  refine ⟨?_, s, first, rfl, rfl⟩
  -- an opener between them would have the same owner, and there is no third one
  by_contra other
  have between : i + 1 < j := by omega
  have small := (List.getElem?_eq_some_iff.mp there).1
  have next := List.getElem?_eq_getElem (Nat.lt_trans between small)
  have before := ahead here next (Nat.lt_succ_self i)
  have behind := ahead next there between
  obtain lesser | ⟨s', first', begins, body⟩ := before
  · exact absurd behind.le (Nat.not_le.mpr lesser)
  · obtain ⟨-, rfl⟩ := Opener.elseBranch.inj begins
    rw [body] at behind
    obtain lesser | ⟨s'', first'', never, -⟩ := behind
    · exact Nat.lt_irrefl _ lesser
    · cases never

/-- The body of the first statement in an `else` is opened right behind the `else`. -/
theorem body_of_elseBranch {os : List Opener} (ordered : os.Pairwise Opener.Ahead) {i : Nat}
    {s first : Statement} (here : os[i]? = some (.elseBranch s first))
    (opened : .body first ∈ os) : os[i + 1]? = some (.body first) := by
  obtain ⟨j, there⟩ := List.mem_iff_getElem?.mp opened
  rcases Nat.lt_trichotomy i j with less | rfl | less
  · obtain ⟨rfl, -⟩ := eq_succ_of_same_owner ordered here there less rfl
    exact there
  · cases here.symm.trans there
  · obtain ⟨-, _, _, never, -⟩ := eq_succ_of_same_owner ordered there here less rfl
    cases never

/-! ## The search by the owner -/

theorem find?_reverse_range {found : Nat → Bool} {n i : Nat} :
    (List.range n).reverse.find? found = some i ↔
      (i < n ∧ found i = true) ∧ ∀ j < n, found j = true → j ≤ i := by
  induction n with
  | zero => simp
  | succ n ih =>
      rw [List.range_succ, List.reverse_append, List.reverse_singleton, List.singleton_append]
      cases last : found n with
      | true =>
          rw [List.find?_cons_of_pos last, Option.some.injEq]
          constructor
          · rintro rfl
            exact ⟨⟨Nat.lt_succ_self n, last⟩, fun j small _ => Nat.le_of_lt_succ small⟩
          · rintro ⟨⟨small, -⟩, most⟩
            exact Nat.le_antisymm (most n (Nat.lt_succ_self n) last) (Nat.le_of_lt_succ small)
      | false =>
          rw [List.find?_cons_of_neg (by simp [last]), ih]
          grind

/-- The search yields the last scope of an owner. -/
theorem ScopeTree.scopeOf_eq_some_iff {t : ScopeTree} {owner : NodeId} {i : ScopeId} :
    t.scopeOf owner = some i ↔ (∃ s, t.scopes[i]? = some s ∧ s.owner = owner) ∧
      ∀ (j : ScopeId) s, t.scopes[j]? = some s → s.owner = owner → j ≤ i := by
  have small {j : ScopeId} {s : Scope} (found : t.scopes[j]? = some s) : j < t.scopes.size :=
    (Array.getElem?_eq_some_iff.mp found).1
  rw [scopeOf, find?_reverse_range]
  simp only [Option.any_eq_true, beq_iff_eq]
  constructor
  · rintro ⟨⟨-, here⟩, most⟩
    exact ⟨here, fun j s found owner => most j (small found) ⟨s, found, owner⟩⟩
  · rintro ⟨⟨s, found, owner⟩, most⟩
    exact ⟨⟨small found, s, found, owner⟩, fun j _ ⟨s, found, owner⟩ => most j s found owner⟩

/-- The scope is that of an `else` whose first statement opens a scope itself. -/
def Scope.IsShadowed (s : Scope) (p : Program) : Prop :=
  ∃ st ∈ p.allStatements, ∃ first ∈ st.elseBranch.head?,
    first.opensScope = true ∧ s.owner = first.id ∧ s.span = st.span

instance (s : Scope) (p : Program) : Decidable (s.IsShadowed p) :=
  inferInstanceAs (Decidable (∃ st ∈ p.allStatements, ∃ first ∈ st.elseBranch.head?,
    first.opensScope = true ∧ s.owner = first.id ∧ s.span = st.span))

section Texts

variable {text : String} {s : Scope}

theorem isShadowed_iff {o : Opener} (opened : o ∈ (parse text).program.openers)
    (node : o.node = s.ownerNode) : s.IsShadowed (parse text).program ↔
      ∃ st first, o = .elseBranch st first ∧ first.opensScope = true := by
  have ordered := precedes_allStatements text
  have distinct : ((parse text).program.allStatements.map Statement.id).Nodup :=
    List.pairwise_map.mpr (ordered.imp fun order => Nat.ne_of_lt order.1)
  constructor
  · rintro ⟨st, among, first, begins, opens, owner, span⟩
    obtain ⟨inside, among⟩ := precedes_of_head? ordered among begins
    have id : o.node.id = first.id := (congrArg Node.id node).trans owner
    cases o with
    | program => exact absurd id (Nat.ne_of_lt (rootId_lt_id among))
    | body t =>
        -- the body of the first statement begins behind the statement with the `else`
        obtain ⟨here, -⟩ := body_mem_openers.mp opened
        obtain rfl : t = first := List.inj_on_of_nodup_map distinct here among id
        have same : t.span = st.span := (congrArg Node.span node).trans span
        exact absurd (congrArg Span.start same) (Nat.ne_of_gt inside.2)
    | elseBranch st' first' =>
        obtain ⟨here, begins'⟩ := elseBranch_mem_openers.mp opened
        have here := (precedes_of_head? ordered here begins').2
        obtain rfl : first' = first := List.inj_on_of_nodup_map distinct here among id
        exact ⟨st', first', rfl, opens⟩
  · rintro ⟨st, first, rfl, opens⟩
    obtain ⟨among, begins⟩ := elseBranch_mem_openers.mp opened
    exact ⟨st, among, first, begins, opens, (congrArg Node.id node).symm,
      (congrArg Node.span node).symm⟩

variable {t : ScopeTree} (all : t.OpenedBy (parse text).program) {i j : ScopeId} {s' : Scope}

include all

/-- Right behind a scope that is shadowed another one of its owner is opened. -/
theorem ScopeTree.OpenedBy.exists_shadowing (found : t.scopes[i]? = some s)
    (shadowed : s.IsShadowed (parse text).program) :
    ∃ s', t.scopes[i + 1]? = some s' ∧ s'.owner = s.owner := by
  obtain ⟨o, opened, node⟩ := all.exists_opener found
  have member := List.mem_of_getElem? opened
  obtain ⟨st, first, rfl, opens⟩ := (isShadowed_iff member node).mp shadowed
  obtain ⟨among, begins⟩ := elseBranch_mem_openers.mp member
  obtain ⟨-, among⟩ := precedes_of_head? (precedes_allStatements text) among begins
  obtain ⟨s', found', node'⟩ := all.exists_scope
    (body_of_elseBranch (openers_ahead text) opened (body_mem_openers.mpr ⟨among, opens⟩))
  exact ⟨s', found', (congrArg Node.id node').trans (congrArg Node.id node)⟩

theorem ScopeTree.OpenedBy.owner_eq_iff (found : t.scopes[i]? = some s)
    (found' : t.scopes[j]? = some s') (less : i < j) :
    s.owner = s'.owner ↔ j = i + 1 ∧ s.IsShadowed (parse text).program := by
  constructor
  · intro same
    obtain ⟨o, opened, node⟩ := all.exists_opener found
    obtain ⟨o', opened', node'⟩ := all.exists_opener found'
    have same : o.node.id = o'.node.id := by
      rw [node, node']
      exact same
    obtain ⟨next, st, first, rfl, rfl⟩ :=
      eq_succ_of_same_owner (openers_ahead text) opened opened' less same
    have opens := (body_mem_openers.mp (List.mem_of_getElem? opened')).2
    exact ⟨next, (isShadowed_iff (List.mem_of_getElem? opened) node).mpr ⟨st, first, rfl, opens⟩⟩
  · rintro ⟨rfl, shadowed⟩
    obtain ⟨s'', found'', owner⟩ := all.exists_shadowing found shadowed
    cases found'.symm.trans found''
    exact owner.symm

/-- Of two scopes of one owner the one that is opened last is found. -/
theorem ScopeTree.OpenedBy.scopeOf_eq (found : t.scopes[i]? = some s) :
    t.scopeOf s.owner = some (if s.IsShadowed (parse text).program then i + 1 else i) := by
  rw [scopeOf_eq_some_iff]
  split
  · next shadowed =>
    refine ⟨all.exists_shadowing found shadowed, fun j s' found' owner => ?_⟩
    by_contra later
    have less : i < j := Nat.lt_of_succ_lt (Nat.lt_of_not_le later)
    exact later (Nat.le_of_eq ((all.owner_eq_iff found found' less).mp owner.symm).1)
  · next plain =>
    refine ⟨⟨s, found, rfl⟩, fun j s' found' owner => ?_⟩
    by_contra later
    have less : i < j := Nat.lt_of_not_le later
    exact plain ((all.owner_eq_iff found found' less).mp owner.symm).2

end Texts

/-- A scope is found by its owner unless it is that of an `else` whose first statement opens a scope
itself: then the scope of that statement, which is opened right behind it and has the same owner, is
found in its place. No other two scopes have one owner, and what is found for an owner is a scope of
that owner. So all scopes of a text are found exactly if no `else` in it begins with a statement
that opens a scope. -/
theorem scopeOf_owner (text : String) (document : DocumentId) (uri : String) :
    let p := (parse text).program
    let t := (computeScopes document uri p).tree
    (∀ (i : ScopeId) s, t.scopes[i]? = some s →
        (¬ s.IsShadowed p → t.scopeOf s.owner = some i) ∧
        (s.IsShadowed p → t.scopeOf s.owner = some (i + 1))) ∧
      (∀ (i j : ScopeId) s s', t.scopes[i]? = some s → t.scopes[j]? = some s' → i < j →
        (s.owner = s'.owner ↔ j = i + 1 ∧ s.IsShadowed p)) ∧
      (∀ owner (i : ScopeId), t.scopeOf owner = some i →
        ∃ s, t.scopes[i]? = some s ∧ s.owner = owner) ∧
      ((∀ (i : ScopeId) s, t.scopes[i]? = some s → t.scopeOf s.owner = some i) ↔
        ∀ st ∈ p.allStatements, ∀ first ∈ st.elseBranch.head?, first.opensScope = false) := by
  intro p t
  have all : t.OpenedBy p := openedBy_computeScopes document uri p
  refine ⟨fun i s found => ⟨fun plain => ?_, fun shadowed => ?_⟩,
    fun i j s s' found found' => all.owner_eq_iff found found',
    fun owner i found => (ScopeTree.scopeOf_eq_some_iff.mp found).1,
    fun each st among first begins => ?_, fun none i s found => ?_⟩
  · rw [all.scopeOf_eq found, if_neg plain]
  · rw [all.scopeOf_eq found, if_pos shadowed]
  · -- if the first statement opens a scope, that of the `else` is not found
    by_contra opens
    obtain ⟨i, opened⟩ := List.mem_iff_getElem?.mp (elseBranch_mem_openers.mpr ⟨among, begins⟩)
    obtain ⟨s, found, node⟩ := all.exists_scope opened
    have shadowed : s.IsShadowed p := (isShadowed_iff (List.mem_of_getElem? opened) node.symm).mpr
      ⟨st, first, rfl, Bool.eq_true_of_not_eq_false opens⟩
    have other := all.scopeOf_eq found
    rw [each i s found, if_pos shadowed] at other
    exact Nat.ne_of_lt (Nat.lt_succ_self i) (Option.some.inj other)
  · rw [all.scopeOf_eq found, if_neg]
    rintro ⟨st, among, first, begins, opens, -⟩
    exact Bool.noConfusion ((none st among first begins).symm.trans opens)

/-- An `if` that begins the `else` of another one: the scope of that `else` is not found, while the
one ahead of the `else` is. -/
theorem scopeOf_owner_elseIf :
    let text := "if a then\nb = 1\nelse\nif c then\nd = 1\nfi\nfi\n"
    let p := (parse text).program
    let t := (computeScopes 0 "a.bbj" p).tree
    let front : Scope := ⟨.block, some 0, 1, ⟨0, 42⟩, []⟩
    let other : Scope := ⟨.block, some 0, 7, ⟨0, 42⟩, []⟩
    (t.scopes[1]? = some front ∧ ¬ front.IsShadowed p ∧ t.scopeOf front.owner = some 1) ∧
      t.scopes[2]? = some other ∧ other.IsShadowed p ∧ t.scopeOf other.owner = some 3 := by
  intro text p t front other
  have first : t.scopes[1]? = some front ∧ ¬ front.IsShadowed p := by decide +kernel
  have second : t.scopes[2]? = some other ∧ other.IsShadowed p := by decide +kernel
  have found := (scopeOf_owner text 0 "a.bbj").1
  exact ⟨⟨first.1, first.2, (found 1 front first.1).1 first.2⟩, second.1, second.2,
    (found 2 other second.1).2 second.2⟩

end BbjAnalysis
