import BbjAnalysis.Proofs.Program.Soundness
import BbjAnalysis.Proofs.Program.Walk
import Mathlib.Data.List.NodupEquivFin

/-! # The order of statements

Statements are walked through in the order in which they begin in the text, and that is also the
order of their identities, whether or not something is wrong with the text. A statement has its
identity and its start before what is behind its first word is read (`Opens`), and from where one
statement begins to where the next one does at least one token is read (`Marches`).
-/

namespace BbjAnalysis

/-! ## Statements in a statement -/

namespace Statement

/-- The statements immediately in a statement. -/
def nested : Statement → List Statement
  | classDecl _ _ body | method _ _ body | procedure _ _ body | forLoop _ _ body _
  | whileLoop _ _ body => body
  | branch _ _ thenBranch elseBranch => thenBranch ++ elseBranch
  | _ => []

theorem walkList_append (ss ss' : List Statement) :
    walkList (ss ++ ss') = walkList ss ++ walkList ss' := by
  induction ss with
  | nil => rfl
  | cons s ss ih => rw [List.cons_append, walkList, walkList, ih, List.append_assoc]

theorem walk_eq_cons (s : Statement) : s.walk = s :: walkList s.nested := by
  cases s with
  | branch _ _ thenBranch elseBranch =>
      simp only [nested, walkList_append]
      rfl
  | _ => rfl

theorem walkList_singleton (s : Statement) : walkList [s] = s :: walkList s.nested := by
  rw [walkList, walkList, List.append_nil, walk_eq_cons]

open HasParts BbjAnalysis.Part in
theorem mem_children_iff {s t : Statement} : Part.statement t ∈ s.children ↔ t ∈ s.nested := by
  cases s with
  | assign _ _ target _ => cases target <;> simp [children, nested]
  | _ => simp [children, nested, mem_parts_list, mem_parts_option]

/-- The second statement has a greater identity, and begins further behind. -/
def Precedes (s t : Statement) : Prop := s.id < t.id ∧ s.span.start < t.span.start

theorem mem_walkList_of_mem {ss : List Statement} {s : Statement} (member : s ∈ ss) :
    s ∈ walkList ss := by
  obtain ⟨front, back, rfl⟩ := List.append_of_mem member
  rw [walkList_append, walkList, walk_eq_cons]
  exact List.mem_append_right _ List.mem_cons_self

open HasParts BbjAnalysis.Part in
/-- What is in a statement is walked through behind it. -/
theorem walk_sublist_walkList {ss : List Statement} {s : Statement} (member : s ∈ walkList ss) :
    s.walk.Sublist (walkList ss) := by
  rw [walkList_eq] at member ⊢
  obtain ⟨q, among, here⟩ := List.mem_filterMap.mp member
  obtain rfl := statement?_eq_some.mp here
  obtain ⟨p, root, inside⟩ := List.mem_flatMap.mp among
  rw [walk_eq, picked, allOf, List.flatMap_singleton]
  exact ((all_sublist_all inside).trans (all_sublist_allOf root)).filterMap statement?

end Statement

namespace Parser

open Cursor Statement

variable {b c d e : Cursor} {s : Statement} {ss ss' : List Statement}

/-! ## Statements between two cursors -/

/-- The statements, and all that are in them, begin between the two cursors, one behind the
other. -/
structure Marches (c d : Cursor) (ss : List Statement) : Prop where
  laid : c.Laid
  behind : d.Behind c
  within : ∀ s ∈ walkList ss, (c.nextId ≤ s.id ∧ s.id < d.nextId) ∧
    c.offset ≤ s.span.start ∧ s.span.start < d.offset
  ordered : (walkList ss).Pairwise Precedes

/-- The statement begins at the first cursor, and all that are in it begin further behind. -/
structure Opens (c d : Cursor) (s : Statement) : Prop where
  id : s.id = c.nextId
  start : s.span.start = c.offset
  within : ∀ t ∈ walkList s.nested, (c.nextId < t.id ∧ t.id < d.nextId) ∧
    c.offset < t.span.start ∧ t.span.start < d.offset
  ordered : (walkList s.nested).Pairwise Precedes
  behind : d.Behind c.skipId

namespace Marches

theorem nothing (laid : c.Laid) (behind : d.Behind c) : Marches c d [] :=
  ⟨laid, behind, by simp [walkList], List.Pairwise.nil⟩

theorem start (laid : c.Laid) : Marches c c [] := nothing laid (.refl c)

theorem laid_next (marches : Marches c d ss) : d.Laid := (marches.behind.laid marches.laid).1

theorem append (front : Marches b c ss) (back : Marches c d ss') : Marches b d (ss ++ ss') where
  laid := front.laid
  behind := back.behind.trans front.behind
  within s member := by
    rw [walkList_append] at member
    rcases List.mem_append.mp member with member | member
    · obtain ⟨⟨least, most⟩, first, last⟩ := front.within s member
      exact ⟨⟨least, Nat.lt_of_lt_of_le most back.behind.nextId⟩, first,
        Nat.lt_of_lt_of_le last (back.behind.offset_le front.laid_next)⟩
    · obtain ⟨⟨least, most⟩, first, last⟩ := back.within s member
      exact ⟨⟨Nat.le_trans front.behind.nextId least, most⟩,
        Nat.le_trans (front.behind.offset_le front.laid) first, last⟩
  ordered := by
    rw [walkList_append]
    refine List.pairwise_append.mpr ⟨front.ordered, back.ordered, fun s here t there => ?_⟩
    obtain ⟨⟨-, most⟩, -, last⟩ := front.within s here
    obtain ⟨⟨least, -⟩, first, -⟩ := back.within t there
    exact ⟨Nat.lt_of_lt_of_le most least, Nat.lt_of_lt_of_le last first⟩

theorem late (marches : Marches c d ss) (behind : e.Behind d) : Marches c e ss := by
  have all := marches.append (nothing marches.laid_next behind)
  rwa [List.append_nil] at all

theorem early (marches : Marches c d ss) (laid : b.Laid) (behind : c.Behind b) : Marches b d ss :=
  (nothing laid behind).append marches

theorem ofInlineDepth {n m : Nat} (marches : Marches (c.withInlineDepth n) d ss)
    (outside : m = c.inlineDepth) : Marches c (d.withInlineDepth m) ss :=
  ⟨marches.laid, marches.behind.ofInlineDepth outside, marches.within, marches.ordered⟩

end Marches

/-- A statement behind which a token was read. -/
theorem Opens.marches (opens : Opens c d s) (laid : c.Laid) (moved : d.size < c.size) :
    Marches c d [s] := by
  have behind : d.Behind c := opens.behind.trans c.skipId_behind
  have further : c.offset < d.offset := Nat.lt_of_lt_of_le (behind.offset_lt laid moved)
    (behind.laid laid).1.lastStop_le_offset
  have more : c.nextId < d.nextId := opens.behind.nextId
  refine ⟨laid, behind, ?_, ?_⟩
  · intro t member
    rw [walkList_singleton] at member
    rcases List.mem_cons.mp member with rfl | member
    · rw [opens.id, opens.start]
      exact ⟨⟨Nat.le_refl _, more⟩, Nat.le_refl _, further⟩
    · obtain ⟨⟨least, most⟩, first, last⟩ := opens.within t member
      exact ⟨⟨Nat.le_of_lt least, most⟩, Nat.le_of_lt first, last⟩
  · rw [walkList_singleton]
    refine List.pairwise_cons.mpr ⟨fun t member => ?_, opens.ordered⟩
    obtain ⟨⟨least, -⟩, first, -⟩ := opens.within t member
    rw [Precedes, opens.id, opens.start]
    exact ⟨least, first⟩

theorem Opens.late (opens : Opens c d s) (laid : c.Laid) (behind : e.Behind d) : Opens c e s where
  id := opens.id
  start := opens.start
  within t member := by
    have laid : d.Laid := (opens.behind.laid (c := c.skipId) laid).1
    obtain ⟨⟨least, most⟩, first, last⟩ := opens.within t member
    exact ⟨⟨least, Nat.lt_of_lt_of_le most behind.nextId⟩, first,
      Nat.lt_of_lt_of_le last (behind.offset_le laid)⟩
  ordered := opens.ordered
  behind := behind.trans opens.behind

/-! ## Statements without a block -/

/-- Whatever is yielded has the property. -/
def Step.Yields {α : Type} (r : Step c (Option α)) (Q : α → Prop) : Prop :=
  r.Ensures fun a? _ => ∀ a ∈ a?, Q a

namespace Step.Yields

variable {α β : Type} {Q : β → Prop}

theorem fail (c : Cursor) (fault : Fault) : (Parser.fail (α := β) c fault).Yields Q := nofun

theorem andThen {r : Step c α}
    {f : (a : α) → (d : Cursor) → d.size ≤ c.size → Step d (Option β)}
    (next : ∀ a d l, (f a d l).Yields Q) : (r.andThen f).Yields Q :=
  Ensures.andThen (.any r) fun a d l _ => next a d l

theorem ifSome {r : Step c (Option α)}
    {f : (a : α) → (d : Cursor) → d.size ≤ c.size → Step d (Option β)}
    (next : ∀ a d l, (f a d l).Yields Q) : (r.ifSome f).Yields Q :=
  Ensures.ifSome (.any r) (fun _ => nofun) fun a d l _ => next a d l

theorem ifTrue {r : Step c Bool} {f : (d : Cursor) → d.size ≤ c.size → Step d (Option β)}
    (next : ∀ d l, (f d l).Yields Q) : (r.ifTrue f).Yields Q :=
  Ensures.ifTrue (.any r) (fun _ => nofun) fun d l _ => next d l

end Step.Yields

/-- The statement begins at the mark, and no other one is in it. -/
def IsPlainAt (m : Mark) (s : Statement) : Prop :=
  s.id = m.id ∧ s.span.start = m.start ∧ s.nested = []

section Simple

variable (m : Mark) (c : Cursor)

theorem assignment_yields (explicitLet : Bool) :
    (assignment m explicitLet c).Yields (IsPlainAt m) := by
  apply Step.Yields.andThen
  intro isField d _
  apply Step.Yields.ifSome
  intro name e _
  apply Step.Yields.ifTrue
  intro f _
  apply Step.Yields.andThen
  rintro value g _ s ⟨⟩
  exact ⟨rfl, rfl, rfl⟩

theorem declare_yields : (declare m c).Yields (IsPlainAt m) := by
  apply Step.Yields.andThen
  intro auto d _
  apply Step.Yields.ifSome
  intro type e _
  apply Step.Yields.ifSome
  rintro name f _ s ⟨⟩
  exact ⟨rfl, rfl, rfl⟩

theorem useStatement_yields : (useStatement m c).Yields (IsPlainAt m) := by
  apply Step.Yields.andThen
  intro isPath d _
  split
  · apply Step.Yields.andThen
    intro path e _
    apply Step.Yields.ifTrue
    intro f _
    apply Step.Yields.ifSome
    rintro name g _ s ⟨⟩
    exact ⟨rfl, rfl, rfl⟩
  · apply Step.Yields.ifSome
    rintro type e _ s ⟨⟩
    exact ⟨rfl, rfl, rfl⟩

theorem fieldDecl_yields : (fieldDecl m c).Yields (IsPlainAt m) := by
  apply Step.Yields.andThen
  intro modifier d _
  apply Step.Yields.andThen
  intro isStatic e _
  apply Step.Yields.ifSome
  intro type f _
  apply Step.Yields.andThen
  intro _ g _
  apply Step.Yields.ifSome
  intro name h _
  apply Step.Yields.andThen
  intro hasInit i _
  split
  · apply Step.Yields.andThen
    rintro init j _ s ⟨⟩
    exact ⟨rfl, rfl, rfl⟩
  · rintro s ⟨⟩
    exact ⟨rfl, rfl, rfl⟩

theorem jump_yields (verb : JumpVerb) : (jump m verb c).Yields (IsPlainAt m) := by
  unfold jump
  split
  · rintro s ⟨⟩
    exact ⟨rfl, rfl, rfl⟩
  · apply Step.Yields.ifSome
    rintro target d _ s ⟨⟩
    exact ⟨rfl, rfl, rfl⟩

theorem onJump_yields : (onJump m c).Yields (IsPlainAt m) := by
  apply Step.Yields.andThen
  intro selector d _
  dsimp only
  split
  · apply Step.Ensures.widen
    apply Step.Yields.ifSome
    rintro targets e _ s ⟨⟩
    exact ⟨rfl, rfl, rfl⟩
  · exact .fail d _

theorem openStatement_yields : (openStatement m c).Yields (IsPlainAt m) := by
  apply Step.Yields.ifTrue
  intro d _
  apply Step.Yields.andThen
  intro channel e _
  apply Step.Yields.ifSome
  intro options f _
  apply Step.Yields.ifTrue
  intro g _
  dsimp only
  split
  · rintro s ⟨⟩
    exact ⟨rfl, rfl, rfl⟩
  · apply Step.Yields.andThen
    rintro path h _ s ⟨⟩
    exact ⟨rfl, rfl, rfl⟩

theorem returnStatement_yields : (returnStatement m c).Yields (IsPlainAt m) := by
  unfold returnStatement
  split
  · rintro s ⟨⟩
    exact ⟨rfl, rfl, rfl⟩
  · apply Step.Yields.andThen
    rintro value d _ s ⟨⟩
    exact ⟨rfl, rfl, rfl⟩

theorem simpleStatement_yields (word : SimpleWord) :
    (simpleStatement m c word).Yields (IsPlainAt m) := by
  cases word with
  | rem | terminate =>
      rintro s ⟨⟩
      exact ⟨rfl, rfl, rfl⟩
  | letWord => exact assignment_yields m c true
  | declare => exact declare_yields m c
  | use => exact useStatement_yields m c
  | field => exact fieldDecl_yields m c
  | jump verb => exact jump_yields m c verb
  | on => exact onJump_yields m c
  | openWord => exact openStatement_yields m c
  | ret => exact returnStatement_yields m c
  | global | keyed =>
      apply Step.Yields.ifSome
      rintro items d _ s ⟨⟩
      exact ⟨rfl, rfl, rfl⟩
  | print =>
      apply Step.Yields.andThen
      rintro items d _ s ⟨⟩
      exact ⟨rfl, rfl, rfl⟩

theorem bareStatement_yields : (bareStatement m c).Yields (IsPlainAt m) := by
  unfold bareStatement
  split
  · exact assignment_yields m c false
  · apply Step.Yields.andThen
    rintro value d _ s ⟨⟩
    exact ⟨rfl, rfl, rfl⟩

end Simple

/-! ## Blocks -/

/-- The first word of the statement that begins at `b` is read. -/
structure Begun (b c : Cursor) : Prop where
  laid : c.Laid
  behind : c.Behind b.skipId
  further : b.offset < c.offset

theorem Begun.late (begun : Begun b c) (behind : d.Behind c) : Begun b d where
  laid := (behind.laid begun.laid).1
  behind := behind.trans begun.behind
  further := Nat.lt_of_lt_of_le begun.further (behind.offset_le begun.laid)

theorem begun_bump {t : Token} {ts : List Token} (laid : c.Laid) (next : c.rest = t :: ts) :
    Begun c c.skipId.bump := by
  have laid : c.skipId.Laid := laid
  have behind := c.skipId.bump_behind
  have shorter : c.skipId.bump.size < c.skipId.size := size_bump_lt (by simp [skipId, next])
  have laid' := (behind.laid laid).1
  exact ⟨laid', behind, Nat.lt_of_lt_of_le (behind.offset_lt laid shorter)
    laid'.lastStop_le_offset⟩

/-- A statement is closed around the statements that were read behind its first word. -/
theorem Marches.opens (inner : Marches c d s.nested) (begun : Begun b c)
    (node : s.node = d.close b.mark) : Opens b d s where
  id := congrArg Node.id node
  start := congrArg (·.span.start) node
  within t member := by
    have given : b.nextId < c.nextId := begun.behind.nextId
    obtain ⟨⟨least, most⟩, first, last⟩ := inner.within t member
    exact ⟨⟨Nat.lt_of_lt_of_le given least, most⟩, Nat.lt_of_lt_of_le begun.further first, last⟩
  ordered := inner.ordered
  behind := inner.behind.trans begun.behind

theorem IsPlainAt.opens (plain : IsPlainAt b.mark s) (behind : d.Behind b.skipId) :
    Opens b d s where
  id := plain.1
  start := plain.2.1
  within := by simp [plain.2.2, walkList]
  ordered := by
    rw [plain.2.2]
    exact .nil
  behind := behind

theorem label_marches (laid : c.Laid) :
    (label c).Ensures fun s? d => Marches c d s?.toList := by
  have behind := (label c).behind
  have read : (label c).Ensures fun s? d => (∀ s ∈ s?, Opens c d s ∧ d.size < c.size) ∧
      (s? = none → d = c) := by
    unfold label
    split
    · split
      · next pair =>
        refine ⟨?_, nofun⟩
        rintro s ⟨⟩
        refine ⟨IsPlainAt.opens ⟨rfl, rfl, rfl⟩ ?_, ?_⟩
        · exact c.skipId.skipId.bump.bump_behind.trans
            (c.skipId.skipId.bump_behind.trans c.skipId.skipId_behind)
        · exact size_bump_bump_lt (c := c.skipId.skipId) (isAt_of_atPair pair)
      · exact ⟨nofun, fun _ => rfl⟩
    · exact ⟨nofun, fun _ => rfl⟩
  obtain ⟨found, absent⟩ := read
  show Marches c _ _
  cases value : (label c).value with
  | none =>
      rw [absent value]
      exact .start laid
  | some s =>
      obtain ⟨opens, moved⟩ := found s value
      exact opens.marches laid moved

/-- What is read of a block is followed by its closing word. -/
theorem Step.Ensures.closed {r : Step c Block} {P : Block → Cursor → Prop} (h : r.Ensures P)
    (expected : String) {β : Type} {Q : β → Cursor → Prop}
    {f : (block : Block) → (d : Cursor) → d.size ≤ c.size → (e : Cursor) → e.size ≤ d.size →
      Step e β}
    (next : ∀ block d l e l', P block d → e.Behind d → (f block d l e l').Ensures Q) :
    (r.andThen fun block d l => (closeBlock block.closer expected d).andThen fun _ e l' =>
      f block d l e l').Ensures Q :=
  h.andThen fun block d l holds =>
    .andThen (P := fun _ e => e.Behind d) (closeBlock block.closer expected d).behind
      fun _ e l' behind => next block d l e l' holds behind

/-- The statement that begins at `b` is closed at the cursor. -/
theorem done_opens (begun : Begun b c) (make : Node → Statement)
    (inner : ∀ n, Marches c d (make n).nested) (node : ∀ n, (make n).node = n) :
    (done b.mark d make).Ensures fun s? e => ∀ s ∈ s?, Opens b e s := by
  rintro s ⟨⟩
  exact (inner _).opens begun (node _)

mutual

theorem statement_opens (c : Cursor) (laid : c.Laid) : (statement c).Ensures fun s? d =>
    ∀ s ∈ s?, c.atStatementEnd = false ∧ Opens c d s := by
  rw [statement.eq_def]
  split
  · nofun
  · next t ts next =>
    have shorter : c.skipId.bump.size < c.size :=
      size_bump_lt (c := c.skipId) (by simp [skipId, next])
    split
    · nofun
    · next inside =>
      have inside : c.atStatementEnd = false := by simpa using inside
      split
      · nofun
      · dsimp only
        split
        · next word _ =>
          intro s yields
          have plain := simpleStatement_yields c.mark c.skipId.bump word s yields
          have behind := (simpleStatement c.mark c.skipId.bump word).behind
          exact ⟨inside, plain.opens (behind.trans c.skipId.bump_behind)⟩
        · next word _ =>
          intro s yields
          exact ⟨inside, blockStatement_opens c.skipId.bump word (begun_bump laid next) s yields⟩
        · intro s yields
          have plain := bareStatement_yields c.mark c.skipId s yields
          exact ⟨inside, plain.opens (bareStatement c.mark c.skipId).behind⟩
termination_by c.size * 8

theorem labelledStatement_marches (c : Cursor) (laid : c.Laid) :
    (labelledStatement c).Ensures fun ss d => Marches c d ss := by
  rw [labelledStatement_eq]
  apply (label_marches laid).andThen
  intro found d _ front
  split
  · exact front
  · have opens := statement_opens d front.laid_next
    have behind := (statement d).behind
    have ends := (endStatement (statement d).next).behind
    refine front.append ?_
    show Marches d (endStatement (statement d).next).next (statement d).value.toList
    cases value : (statement d).value with
    | none => exact .nothing front.laid_next (ends.trans behind)
    | some s =>
        obtain ⟨inside, opens⟩ := opens s value
        exact (opens.late front.laid_next ends).marches front.laid_next
          (size_endStatement_statement_lt inside)
termination_by c.size * 8 + 1

theorem statements_marches (closers : List String) (c : Cursor) (depth : c.inlineDepth = 0)
    (laid : c.Laid) : (statements closers c).Ensures fun block d =>
      Marches c d block.statements := by
  have front : Marches c c.skipSeparators [] := .nothing laid (c.skipUntil_behind _)
  have before : c.skipSeparators.size ≤ c.size := c.size_skipUntil_le _
  cases next : c.skipSeparators.rest with
  | nil =>
      rw [statements_of_end next]
      exact front
  | cons t ts =>
      cases closer : closers.find? t.isKeyword with
      | some word =>
          rw [statements_of_closer next closer]
          exact front
      | none =>
          have progress := size_labelledStatement_lt (atStatementEnd_skipSeparators depth next)
          have behind := (labelledStatement c.skipSeparators).behind
          have first := labelledStatement_marches c.skipSeparators front.laid_next
          have rest := statements_marches closers (labelledStatement c.skipSeparators).next
            (behind.inlineDepth.trans depth) (Marches.laid_next first)
          rw [statements_of_statement next closer]
          simp only [Step.andThen, Step.widen, if_pos progress]
          exact front.append (first.append rest)
termination_by c.size * 8 + 2

theorem block_marches (closers : List String) (c : Cursor) (laid : c.Laid) :
    (block closers c).Ensures fun block d => Marches c d block.statements := by
  rw [block]
  exact (statements_marches closers (c.withInlineDepth 0) rfl laid).ofInlineDepth rfl
termination_by c.size * 8 + 3

theorem inlineStatements_marches (c : Cursor) (laid : c.Laid) :
    (inlineStatements c).Ensures fun ss d => Marches c d ss := by
  rw [inlineStatements]
  apply (labelledStatement_marches c laid).andThen
  intro found d _ front
  split
  · next semicolon =>
    have shorter : d.bump.size < d.size := size_bump_lt_of_isAt semicolon
    split
    · exact front.late d.bump_behind
    · apply Step.Ensures.widen
      have laid := (d.bump_behind.laid front.laid_next).1
      apply (inlineStatements_marches d.bump laid).map
      exact fun more => front.append (more.early front.laid_next d.bump_behind)
  · exact front
termination_by c.size * 8 + 2

theorem blockIf_opens (condition : Expr) (c : Cursor) {b : Cursor} (begun : Begun b c) :
    (blockIf b.mark condition c).Ensures fun s? d => ∀ s ∈ s?, Opens b d s := by
  rw [blockIf]
  apply (block_marches _ c begun.laid).andThen
  intro first d _ front
  have shorter : d.bump.size ≤ d.size := d.size_bump_le
  dsimp only
  split
  · apply Step.Ensures.widen
    have laid := (d.bump_behind.laid front.laid_next).1
    apply (block_marches ["fi", "endif"] d.bump laid).closed
    intro second e _ f _ back behind
    have both := front.append ((back.late behind).early front.laid_next d.bump_behind)
    exact done_opens begun _ (fun _ => both) fun _ => rfl
  · apply Step.Ensures.andThen (P := fun _ e => e.Behind d) (Step.behind _)
    intro _ e _ behind
    refine done_opens begun _ (fun n => ?_) fun _ => rfl
    show Marches c e (first.statements ++ [])
    rw [List.append_nil]
    exact front.late behind
termination_by c.size * 8 + 4

theorem inlineIf_opens (condition : Expr) (c : Cursor) {b : Cursor} (begun : Begun b c) :
    (inlineIf b.mark condition c).Ensures fun s? d => ∀ s ∈ s?, Opens b d s := by
  have same : (c.withInlineDepth (c.inlineDepth + 1)).size = c.size := size_withInlineDepth ..
  rw [inlineIf]
  have branches : Step.Ensures ((inlineStatements (c.withInlineDepth (c.inlineDepth + 1))).andThen
      fun thenBranch d _ => (eatKeyword "else" d).andThen fun hasElse e _ =>
        if hasElse then (inlineStatements e).map fun elseBranch => (thenBranch, elseBranch)
        else .pure e (thenBranch, [])) fun both d =>
          Marches (c.withInlineDepth (c.inlineDepth + 1)) d (both.1 ++ both.2) := by
    have laid : (c.withInlineDepth (c.inlineDepth + 1)).Laid := begun.laid
    apply (inlineStatements_marches (c.withInlineDepth (c.inlineDepth + 1)) laid).andThen
    intro thenBranch d l front
    apply Step.Ensures.andThen (P := fun _ e => e.Behind d) (Step.behind _)
    intro hasElse e l' behind
    have front := front.late behind
    split
    · apply (inlineStatements_marches e front.laid_next).map
      exact fun back => front.append back
    · show Marches _ e (thenBranch ++ [])
      rw [List.append_nil]
      exact front
  -- behind both branches one `if` less is open, as before them
  have inner := branches.ofInlineDepth (congrArg (· - 1) branches.behind.inlineDepth)
  rintro s ⟨⟩
  exact inner.opens begun rfl
termination_by c.size * 8 + 4

theorem blockStatement_opens (c : Cursor) (word : BlockWord) {b : Cursor} (begun : Begun b c) :
    (blockStatement b.mark c word).Ensures fun s? d => ∀ s ∈ s?, Opens b d s := by
  rw [blockStatement.eq_def]
  cases word with
  | classWord isInterface =>
      apply Step.Ensures.ifSome (P := fun _ d => d.Behind c) (Step.behind _) (fun _ => nofun)
      intro head d _ behind
      apply (block_marches _ d (begun.late behind).laid).closed
      intro body e _ f _ inner onward
      exact done_opens (begun.late behind) _ (fun _ => inner.late onward) fun _ => rfl
  | method =>
      apply Step.Ensures.ifSome (P := fun _ d => d.Behind c) (Step.behind _) (fun _ => nofun)
      intro head d _ behind
      apply (block_marches _ d (begun.late behind).laid).closed
      intro body e _ f _ inner onward
      exact done_opens (begun.late behind) _ (fun _ => inner.late onward) fun _ => rfl
  | procedure =>
      apply Step.Ensures.ifSome (P := fun _ d => d.Behind c) (Step.behind _) (fun _ => nofun)
      intro head d _ behind
      apply Step.Ensures.andThen (P := fun _ e => e.Behind d) (Step.behind _)
      intro isInline e _ further
      have begun := begun.late (further.trans behind)
      split
      · apply Step.Ensures.andThen (P := fun _ f => f.Behind e) (Step.behind _)
        intro body f _ onward
        exact done_opens begun _ (fun _ => .nothing begun.laid onward) fun _ => rfl
      · apply (block_marches _ e begun.laid).closed
        intro body f _ g _ inner onward
        exact done_opens begun _ (fun _ => inner.late onward) fun _ => rfl
  | ifWord =>
      apply Step.Ensures.andThen (P := fun _ d => d.Behind c) (Step.behind _)
      intro condition d _ behind
      split
      · have shorter : d.bump.size ≤ d.size := d.size_bump_le
        have begun := begun.late (d.bump_behind.trans behind)
        apply Step.Ensures.widen
        split
        · exact blockIf_opens condition d.bump begun
        · exact inlineIf_opens condition d.bump begun
      · nofun
  | forWord =>
      apply Step.Ensures.ifSome (P := fun _ d => d.Behind c) (Step.behind _) (fun _ => nofun)
      intro head d _ behind
      apply (block_marches _ d (begun.late behind).laid).closed
      intro body e _ f _ inner onward
      apply Step.Ensures.andThen (P := fun _ g => g.Behind f) (Step.behind _)
      intro next g _ further
      exact done_opens (begun.late behind) _ (fun _ => inner.late (further.trans onward))
        fun _ => rfl
  | whileWord =>
      apply Step.Ensures.andThen (P := fun _ d => d.Behind c) (Step.behind _)
      intro condition d _ behind
      apply (block_marches _ d (begun.late behind).laid).closed
      intro body e _ f _ inner onward
      exact done_opens (begun.late behind) _ (fun _ => inner.late onward) fun _ => rfl
termination_by c.size * 8 + 5

end

end Parser

open BbjAnalysis.Parser Statement

theorem precedes_allStatements (text : String) :
    (parse text).program.allStatements.Pairwise Precedes := by
  have marches := statements_marches [] (startOf text) rfl (laid_startOf text)
  rw [Program.allStatements, parse_statements]
  exact marches.ordered

/-- The walk over a program visits each statement in it once and nothing else, a statement before
those in it, and comes to greater and greater identities and further and further behind in the
text, whether or not something is wrong with it. -/
theorem parse_allStatements (text : String) :
    let program := (parse text).program
    let visited := program.allStatements
    (∀ s, .statement s ∈ program.parts → ∃! k : Nat, visited[k]? = some s) ∧
      (∀ s ∈ visited, .statement s ∈ program.parts) ∧
      (∀ s t, .statement s ∈ program.parts → .statement t ∈ s.children →
        ∃ i j : Nat, i < j ∧ visited[i]? = some s ∧ visited[j]? = some t) ∧
      visited.Pairwise fun s t : Statement => s.id < t.id ∧ s.span.start < t.span.start := by
  intro program visited
  have ordered : visited.Pairwise Precedes := precedes_allStatements text
  -- a statement does not precede itself
  have distinct : visited.Nodup := by
    refine List.Pairwise.imp ?_ ordered
    rintro s _ order rfl
    exact Nat.lt_irrefl _ order.1
  refine ⟨fun s inside => ?_, fun s => Program.mem_allStatements.mp, fun s t inside child => ?_,
    ordered⟩
  · obtain ⟨k, found⟩ := List.mem_iff_getElem?.mp (Program.mem_allStatements.mpr inside)
    have small := (List.getElem?_eq_some_iff.mp found).1
    exact ⟨k, found, fun l again =>
      ((List.getElem?_inj small distinct).mp (found.trans again.symm)).symm⟩
  · have all := walk_sublist_walkList (Program.mem_allStatements.mpr inside)
    rw [walk_eq_cons] at all
    have later : t ∈ walkList s.nested := mem_walkList_of_mem (mem_children_iff.mp child)
    have both : [s, t].Sublist visited :=
      ((List.singleton_sublist.mpr later).cons_cons s).trans all
    obtain ⟨place, there⟩ := List.sublist_iff_exists_orderEmbedding_getElem?_eq.mp both
    exact ⟨place 0, place 1, place.lt_iff_lt.mpr Nat.zero_lt_one, (there 0).symm, (there 1).symm⟩

end BbjAnalysis
