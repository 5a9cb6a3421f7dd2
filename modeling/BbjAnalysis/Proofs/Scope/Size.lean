import BbjAnalysis.Proofs.Scope.Opener
import BbjAnalysis.Proofs.Scope.Shape

/-! # How far the counters of a text go

Nodes, scopes and symbols are numbered as they come. A text has no more tokens than bytes, and for
each of them no more than two identities are given away, and two besides (`Parser.Leads`). A
statement opens two scopes at most. A name declares one symbol at most, and has an identity of its
own. So each counter stays below little more than twice the size of the text.
-/

namespace BbjAnalysis

open BbjAnalysis.Parser Statement

section Counters

variable (text : String)

/-! ## Identities -/

theorem size_startOf_le : (startOf text).size ≤ text.utf8ByteSize := by
  have row : 0 + (startOf text).size ≤ text.utf8ByteSize := (laid_startOf text).length_le
  rwa [Nat.zero_add] at row

theorem freeId_le : freeId text ≤ 2 * text.utf8ByteSize + 3 := by
  have tokens := size_startOf_le text
  have price : (if (startOf text).atStatementEnd then 0 else 2) ≤ 2 := by split <;> decide
  have spare := (statements_runs [] (startOf text) rfl).1.spare
  rw [freeId_eq]
  refine Nat.le_trans (Nat.le_trans (Nat.le_add_left _ _) spare) ?_
  show 2 * (startOf text).size + _ + 1 ≤ 2 * text.utf8ByteSize + 3
  omega

/-- All that was read of the text was read up to the free identity. -/
theorem collected_parse : ∃ last, last.nextId = freeId text ∧
    Collected (startOf text) last (HasParts.parts (parse text).program.statements) := by
  have covered := (statements_covers [] (startOf text) rfl (laid_startOf text)).1
  rw [← parse_statements] at covered
  exact ⟨_, (freeId_eq text).symm, covered.gathered.toCollected⟩

/-- The identities of all parts are those that the reader has given away. -/
theorem lt_freeId {p : Part} (member : p ∈ (parse text).program.parts) {i : NodeId}
    (given : i ∈ p.id?) : Program.rootId < i ∧ i < freeId text := by
  obtain ⟨last, free, collected⟩ := collected_parse text
  exact free ▸ (collected.fits p member).id i given

/-! ## Scopes and symbols -/

/-- There are at most `n` numbers below `n` that rise. -/
theorem length_le_of_rising {l : List Nat} {n : Nat} (rising : l.Pairwise (· < ·))
    (below : ∀ i ∈ l, i < n) : l.length ≤ n := by
  have distinct : l.Nodup := rising.imp Nat.ne_of_lt
  have among : l ⊆ List.range n := fun i member => List.mem_range.mpr (below i member)
  simpa using (distinct.subperm among).length_le

/-- A statement begins behind those that are visited before it. -/
theorem length_allStatements_le :
    (parse text).program.allStatements.length ≤ text.utf8ByteSize + 1 := by
  rw [← List.length_map fun s : Statement => s.span.start]
  apply length_le_of_rising
  · exact List.pairwise_map.mpr ((precedes_allStatements text).imp (·.2))
  · intro i member
    obtain ⟨s, visited, rfl⟩ := List.mem_map.mp member
    have within := span_within (Program.mem_allStatements.mp visited) (s := s.span) rfl
    omega

theorem length_openersList_le (ss : List Statement) :
    (openersList ss).length ≤ 2 * (walkList ss).length := by
  induction ss using list_induction with
  | nil => exact Nat.zero_le _
  | cons s ss first rest =>
      rw [openersList_cons, walkList_cons, List.length_append, List.length_append]
      omega
  | single s body other =>
      have own : s.bodyOpeners.length ≤ 1 := by
        unfold bodyOpeners
        split <;> simp
      have behind : s.elseOpeners.length ≤ 1 := by
        unfold elseOpeners
        cases s.elseBranch.head? <;> simp
      rw [openersList_singleton, walkList_singleton_eq]
      simp only [List.length_append, List.length_cons]
      omega

/-- Names that may be declared have identities that rise, none of them that of the program. -/
theorem length_declarables_le :
    (parse text).program.declarables.length ≤ 2 * text.utf8ByteSize + 2 := by
  obtain ⟨last, free, collected⟩ := collected_parse text
  have between (i : Ident) (member : i ∈ (parse text).program.declarables) :
      Program.rootId < i.id ∧ i.id < freeId text :=
    free ▸ (within_of_mem_declarables collected.fits member).1
  have rising : (Program.rootId :: (parse text).program.declarables.map (·.id)).Pairwise (· < ·) :=
    List.pairwise_cons.mpr ⟨List.forall_mem_map.mpr fun i member => (between i member).1,
      List.pairwise_map.mpr (collected.ordered.imp (·.1))⟩
  have all := length_le_of_rising (n := freeId text) rising ?_
  · rw [List.length_cons, List.length_map] at all
    exact Nat.le_of_succ_le_succ (all.trans (freeId_le text))
  · rw [List.forall_mem_cons, List.forall_mem_map]
    refine ⟨?_, fun i member => (between i member).2⟩
    exact Nat.lt_of_lt_of_le Nat.zero_lt_one (free ▸ collected.behind.nextId)

variable (document : DocumentId) (uri : String)

theorem size_scopes_le :
    (computeScopes document uri (parse text).program).tree.scopes.size ≤
      2 * text.utf8ByteSize + 3 := by
  have owners := congrArg List.length (openedBy_computeScopes document uri (parse text).program)
  simp only [ScopeTree.owners, List.length_map, Array.length_toList, Program.openers,
    List.length_cons] at owners
  have openers := length_openersList_le (parse text).program.statements
  have statements : (walkList (parse text).program.statements).length ≤ text.utf8ByteSize + 1 :=
    length_allStatements_le text
  omega

theorem size_symbols_le :
    (computeScopes document uri (parse text).program).tree.symbols.size ≤
      2 * text.utf8ByteSize + 2 := by
  obtain ⟨-, used, symbols, among, declared, same, -⟩ :=
    (walk_collect document (parse text).program).declares
  have all : (computeScopes document uri (parse text).program).tree.symbols.toList = symbols := same
  rw [← Array.length_toList, all, declared.length_eq]
  exact among.length_le.trans (length_declarables_le text)

/-- No counter of 32 bits overflows for a text of less than 2 GiB. -/
theorem counters_lt (small : 2 * text.utf8ByteSize + 3 < UInt32.size) :
    let t := (computeScopes document uri (parse text).program).tree
    freeId text < UInt32.size ∧ t.scopes.size < UInt32.size ∧ t.symbols.size < UInt32.size := by
  have scopes := size_scopes_le text document uri
  have symbols := size_symbols_le text document uri
  exact ⟨Nat.lt_of_le_of_lt (freeId_le text) small, Nat.lt_of_le_of_lt scopes small, by omega⟩

/-- The bound on identities is reached: the statement, its operator and two missing operands have
one each. -/
example : freeId "=" = 2 * 1 + 3 := by decide +kernel

end Counters

end BbjAnalysis
