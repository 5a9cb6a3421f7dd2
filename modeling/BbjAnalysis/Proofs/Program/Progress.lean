import BbjAnalysis.Proofs.Program.Ensures
import Mathlib.Data.List.Chain
import Mathlib.Logic.Relation

/-! # The course of reading

Whatever is read, reading goes on in small moves: a token is read, a fault is noted, an identity
is given away, or the count of open one-line `if` statements changes. A token is read only where
there is one, and the fault that a block notes when it stands still is never noted. Hence the
position never goes back, and never leaves the text.

No more than two identities are given away for each token that is read, but for a few that go to
what is marked before it is read, or is absent. The reader carries along how many it has to spare
(`Leads`): a token gains two, an identity costs one. Every reading function takes its course at a
price (`Step.Runs`), which is the sum of the prices of the steps it is put together from.
-/

namespace BbjAnalysis.Parser

open Cursor Relation

/-- One move of the reader. -/
inductive Move : Cursor → Cursor → Prop
  | read {c : Cursor} (next : c.rest ≠ []) : Move c c.bump
  | note (c : Cursor) {fault : Fault} (plain : fault ≠ .unexpectedToken) : Move c (c.report fault)
  | identify (c : Cursor) : Move c c.skipId
  | nest (c : Cursor) (depth : Nat) : Move c (c.withInlineDepth depth)

/-- Any number of moves. -/
abbrev Course : Cursor → Cursor → Prop := ReflTransGen Move

namespace Move

variable {c d : Cursor}

theorem pos_add_size (move : Move c d) : d.pos + d.size = c.pos + c.size := by
  cases move with
  | note | identify | nest => rfl
  | read next =>
      obtain ⟨t, ts, rest⟩ := List.exists_cons_of_ne_nil next
      simp only [bump, size, rest, List.length_cons]
      omega

theorem size_le (move : Move c d) : d.size ≤ c.size := by
  cases move with
  | note | identify | nest => exact Nat.le_refl _
  | read => exact c.size_bump_le

theorem noted (move : Move c d) {e : SyntaxError} (found : e ∈ d.errors) :
    e ∈ c.errors ∨ e.fault ≠ .unexpectedToken := by
  cases move with
  | identify | nest => exact .inl found
  | read next =>
      obtain ⟨t, ts, rest⟩ := List.exists_cons_of_ne_nil next
      rw [bump, rest] at found
      exact .inl found
  | note plain =>
      rcases List.mem_cons.mp found with rfl | found
      · exact .inr plain
      · exact .inl found

end Move

namespace Course

variable {c d : Cursor}

theorem pos_add_size (course : Course c d) : d.pos + d.size = c.pos + c.size := by
  induction course with
  | refl => rfl
  | tail _ move ih => exact move.pos_add_size.trans ih

theorem noted (course : Course c d) {e : SyntaxError} (found : e ∈ d.errors) :
    e ∈ c.errors ∨ e.fault ≠ .unexpectedToken := by
  induction course with
  | refl => exact .inl found
  | tail _ move ih => exact (move.noted found).elim ih .inr

/-- The cursors on the way, the first and the last included: with each move the position stays or
goes on, and it is never behind the last token. -/
theorem exists_path (course : Course c d) :
    ∃ path : List Cursor, (c :: path).getLast (List.cons_ne_nil _ _) = d ∧
      (c :: path).IsChain Move ∧ (c :: path).Pairwise (·.pos ≤ ·.pos) ∧
      ∀ e ∈ c :: path, e.pos ≤ c.pos + c.size := by
  induction course using ReflTransGen.head_induction_on with
  | refl => exact ⟨[], rfl, .singleton _, List.pairwise_singleton _ _, by simp⟩
  | @head c e move _ ih =>
      obtain ⟨path, last, chain, sorted, within⟩ := ih
      have kept := move.pos_add_size
      have fewer := move.size_le
      refine ⟨e :: path, last, .cons_cons move chain, List.pairwise_cons.mpr ⟨?_, sorted⟩, ?_⟩
      · intro f member
        rcases List.mem_cons.mp member with rfl | later
        · omega
        · have : e.pos ≤ f.pos := List.rel_of_pairwise_cons sorted later
          omega
      · intro f member
        rcases List.mem_cons.mp member with rfl | later
        · omega
        · have : f.pos ≤ e.pos + e.size := within f later
          omega

end Course

/-! ## Identities to spare -/

/-- Moves lead from one cursor to the other, with `n` identities to spare at first and `m` at
last. -/
structure Leads (c : Cursor) (n : Nat) (d : Cursor) (m : Nat) : Prop where
  course : Course c d
  spare : 2 * d.size + m + d.nextId ≤ 2 * c.size + n + c.nextId

namespace Leads

variable {c d e : Cursor} {n m k p q : Nat}

theorem refl (c : Cursor) (n : Nat) : Leads c n c n := ⟨.refl, Nat.le_refl _⟩

theorem trans (h : Leads c n d m) (h' : Leads d m e k) : Leads c n e k :=
  ⟨ReflTransGen.trans h.course h'.course, Nat.le_trans h'.spare h.spare⟩

theorem mono (h : Leads c n d m) (more : n ≤ p) (less : q ≤ m) : Leads c p d q :=
  ⟨h.course, by have := h.spare; omega⟩

/-- What is still to spare need not be used. -/
theorem forget (h : Leads c n d m) : Leads c n d 0 := h.mono (Nat.le_refl n) (Nat.zero_le m)

/-- What is to spare besides stays to spare. -/
theorem add_iff (k : Nat) : Leads c (n + k) d (m + k) ↔ Leads c n d m := by
  constructor
  · exact fun h => ⟨h.course, by have := h.spare; omega⟩
  · exact fun h => ⟨h.course, by have := h.spare; omega⟩

/-- Prices add up. -/
theorem add (h : Leads c p d 0) (h' : Leads d q e 0) : Leads c (q + p) e 0 := by
  have before : Leads c (p + q) d (0 + q) := (add_iff q).mpr h
  rw [Nat.add_comm, Nat.zero_add] at before
  exact before.trans h'

end Leads

/-! ## Single moves -/

section Moves

variable {c : Cursor} {n : Nat}

theorem leads_bump (next : c.rest ≠ []) : Leads c n c.bump (n + 2) := by
  refine ⟨.single (.read next), ?_⟩
  have kept : c.bump.nextId = c.nextId := by
    obtain ⟨t, ts, rest⟩ := List.exists_cons_of_ne_nil next
    simp only [bump, rest]
  have shorter : c.bump.size < c.size := size_bump_lt next
  rw [kept]
  omega

theorem leads_bump_of_isAt {kind : TokenKind} (next : c.isAt kind = true) :
    Leads c n c.bump (n + 2) := leads_bump (rest_ne_nil_of_isAt next)

theorem leads_bump_of_atKeyword {word : String} (next : c.atKeyword word = true) :
    Leads c n c.bump (n + 2) := leads_bump (rest_ne_nil_of_atKeyword next)

theorem leads_bump_of_cons {t : Token} {ts : List Token} (next : c.rest = t :: ts) :
    Leads c n c.bump (n + 2) := leads_bump (by rw [next]; exact List.cons_ne_nil t ts)

theorem leads_bump_bump {kind next : TokenKind} (pair : c.atPair kind next = true) :
    Leads c n c.bump.bump (n + 4) :=
  (leads_bump_of_isAt (isAt_of_atPair pair)).trans
    (leads_bump_of_isAt (isAt_bump_of_atPair pair))

theorem leads_report (c : Cursor) (n : Nat) {fault : Fault} (plain : fault ≠ .unexpectedToken) :
    Leads c n (c.report fault) n := ⟨.single (.note c plain), Nat.le_refl _⟩

theorem leads_skipId (c : Cursor) (n : Nat) : Leads c (n + 1) c.skipId n :=
  ⟨.single (.identify c), by simp only [skipId, size]; omega⟩

theorem leads_withInlineDepth (c : Cursor) (n depth : Nat) :
    Leads c n (c.withInlineDepth depth) n := ⟨.single (.nest c depth), Nat.le_refl _⟩

end Moves

/-- To pass over tokens is to read each of them. -/
theorem skipUntil_of_passed {c : Cursor} {p : Token → Bool} {t : Token} {ts : List Token}
    (rest : c.rest = t :: ts) (passed : p t = false) : c.skipUntil p = c.bump.skipUntil p := by
  simp only [skipUntil, bump, rest, List.dropWhile_cons, List.takeWhile_cons, passed,
    Bool.not_false, if_true, List.length_cons, List.getLast?_cons, Cursor.mk.injEq, true_and,
    and_true]
  refine ⟨by omega, ?_⟩
  cases (List.takeWhile (fun x => !p x) ts).getLast? <;> rfl

theorem skipUntil_of_found {c : Cursor} {p : Token → Bool}
    (found : ∀ t ∈ c.rest.head?, p t = true) : c.skipUntil p = c := by
  cases c with
  | mk rest =>
      cases rest with
      | nil => rfl
      | cons t ts =>
          have : p t = true := found t rfl
          simp [skipUntil, this]

theorem leads_skipUntil (c : Cursor) (n : Nat) (p : Token → Bool) :
    Leads c n (c.skipUntil p) n := by
  cases rest : c.rest with
  | nil =>
      rw [skipUntil_of_found (by simp [rest])]
      exact .refl c n
  | cons t ts =>
      cases passed : p t with
      | true =>
          rw [skipUntil_of_found (by simp [rest, passed])]
          exact .refl c n
      | false =>
          have shorter : c.bump.size < c.size := size_bump_lt (by simp [rest])
          have first : Leads c n c.bump n :=
            (leads_bump_of_cons rest).mono (Nat.le_refl n) (Nat.le_add_right n 2)
          rw [skipUntil_of_passed rest passed]
          exact first.trans (leads_skipUntil c.bump n p)
termination_by c.size

/-! ## Steps -/

namespace Step

variable {c d : Cursor} {α β : Type}

/-- The step leads to its cursor by moves. Besides two for each token it costs at most `n`
identities. -/
def Runs (r : Step c α) (n : Nat) : Prop := r.Ensures fun _ d => Leads c n d 0

namespace Runs

variable {r : Step c α} {n m p q : Nat}

theorem mono (h : r.Runs p) (le : p ≤ n) : r.Runs n := Leads.mono h le (Nat.le_refl 0)

theorem free (h : r.Runs 0) : r.Runs n := h.mono (Nat.zero_le n)

theorem pure (c : Cursor) (a : α) : (Step.pure c a).Runs n :=
  (Leads.refl c 0).mono n.zero_le (Nat.le_refl 0)

theorem widen (h : r.Runs m) {before : c.Behind d} (leads : Leads d n c m) :
    (r.widen before).Runs n := leads.trans h

theorem map (h : r.Runs n) (f : α → β) : (r.map f).Runs n := h

theorem andThen (h : r.Runs p) {f : (a : α) → (d : Cursor) → d.size ≤ c.size → Step d β}
    (next : ∀ (a : α) (d : Cursor) (l : d.size ≤ c.size), (f a d l).Runs q) :
    (r.andThen f).Runs (q + p) :=
  Ensures.andThen h fun a d l leads => leads.add (next a d l)

theorem ifSome {r : Step c (Option α)} (h : r.Runs p)
    {f : (a : α) → (d : Cursor) → d.size ≤ c.size → Step d (Option β)}
    (next : ∀ (a : α) (d : Cursor) (l : d.size ≤ c.size), (f a d l).Runs q) :
    (r.ifSome f).Runs (q + p) :=
  Ensures.ifSome h (fun leads => leads.mono (Nat.le_add_left p q) (Nat.le_refl 0))
    fun a d l leads => leads.add (next a d l)

theorem ifTrue {r : Step c Bool} (h : r.Runs p)
    {f : (d : Cursor) → d.size ≤ c.size → Step d (Option β)}
    (next : ∀ (d : Cursor) (l : d.size ≤ c.size), (f d l).Runs q) : (r.ifTrue f).Runs (q + p) :=
  Ensures.ifTrue h (fun leads => leads.mono (Nat.le_add_left p q) (Nat.le_refl 0))
    fun d l leads => leads.add (next d l)

end Runs
end Step

/-! ## Tokens, names and types -/

section Tokens

variable {c : Cursor}

theorem fail_runs {α : Type} (c : Cursor) {fault : Fault} (plain : fault ≠ .unexpectedToken) :
    (fail (α := α) c fault).Runs 0 := leads_report c 0 plain

theorem expected_ne (what : Expectation) : Fault.expected what ≠ .unexpectedToken := by simp

/-- A token that is read costs nothing. -/
theorem runs_bump {α : Type} {c : Cursor} (a : α) (next : c.rest ≠ []) :
    Step.Runs (⟨a, c.bump, c.bump_behind⟩ : Step c α) 0 := (leads_bump next).forget

theorem eat_runs (kind : TokenKind) (c : Cursor) : (eat kind c).Runs 0 := by
  unfold eat
  split
  · next next => exact runs_bump true (rest_ne_nil_of_isAt next)
  · exact .pure c false

theorem eatKeyword_runs (word : String) (c : Cursor) : (eatKeyword word c).Runs 0 := by
  unfold eatKeyword
  split
  · next next => exact runs_bump true (rest_ne_nil_of_atKeyword next)
  · exact .pure c false

theorem expect_runs (kind : TokenKind) (what : Expectation) (c : Cursor) :
    (expect kind what c).Runs 0 := by
  unfold expect
  split
  · next next => exact runs_bump true (rest_ne_nil_of_isAt next)
  · exact leads_report c 0 (expected_ne what)

theorem ident_runs (what : Expectation) (c : Cursor) : (ident what c).Runs 0 := by
  unfold ident
  split
  · next rest =>
    split
    · have named : Leads c 0 c.bump.skipId 1 := (leads_bump_of_cons rest).trans (leads_skipId _ 1)
      exact named.forget
    · exact fail_runs c (expected_ne what)
  · exact fail_runs c (expected_ne what)

theorem dottedNames_leads {c : Cursor} (next : c.rest ≠ []) :
    (dottedNames c).Ensures fun _ d => Leads c 0 d 2 := by
  rw [dottedNames.eq_def]
  split
  · next t ts rest =>
    have first : Leads c 0 c.bump 2 := leads_bump_of_cons rest
    split
    · next pair =>
      have shorter : c.bump.bump.size < c.size :=
        Nat.lt_of_le_of_lt c.bump.size_bump_le (size_bump_lt (by simp [rest]))
      have dot := first.trans (leads_bump_of_isAt (isAt_of_atPair pair))
      have more := dottedNames_leads (rest_ne_nil_of_isAt (isAt_bump_of_atPair pair))
      exact dot.forget.trans more
    · exact first
  · next rest => exact absurd rest next
termination_by c.size

theorem skipArraySuffixes_runs (c : Cursor) : (skipArraySuffixes c).Runs 0 := by
  rw [skipArraySuffixes]
  split
  · next pair =>
    have shorter := size_bump_bump_lt (isAt_of_atPair pair)
    exact (skipArraySuffixes_runs c.bump.bump).free.widen (leads_bump_bump pair)
  · exact .pure c ()
termination_by c.size

/-- The names of a type pay for its identity. -/
theorem typeRef_runs (c : Cursor) : (typeRef c).Runs 0 := by
  unfold typeRef
  split
  · next named =>
    apply (dottedNames_leads (rest_ne_nil_of_isAt named)).andThen
    intro segments d _ names
    refine names.trans ?_
    apply Step.Runs.andThen (skipArraySuffixes_runs d)
    intro _ e _
    exact (leads_skipId e 0).mono (Nat.le_succ 1) (Nat.le_refl 0)
  · exact fail_runs c (expected_ne _)

end Tokens

end BbjAnalysis.Parser
