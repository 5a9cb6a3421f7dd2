import BbjAnalysis.Program.Walk
import BbjAnalysis.Proofs.Scope.Shape

/-! # Variables that are written

A variable is written where it is assigned and where a `for` runs through it. The walk declares it
there if no scope up to the nearest procedure has a variable of the name yet, and refers to it
otherwise. What it has yet is told by the scopes when all is done: symbols have greater and greater
identities, so those declared before a write are those with a lesser one (`Findings.Meets`).
-/

namespace BbjAnalysis

open HasParts BbjAnalysis.Part

/-! ## Writes and where they stand -/

/-- What opens a scope, other than that of the module. -/
structure Region where
  kind : ScopeKind
  owner : NodeId
deriving DecidableEq

/-- A variable that is written, with the scopes around the write by what opens them, innermost
first. -/
structure Write where
  around : List Region
  name : Ident

namespace Opening

def region (o : Opening) : Region := ⟨o.kind, o.owner.id⟩

/-- The regions in what is opened, if something is. -/
def regions (o : Option Opening) (around : List Region) : List Region :=
  (o.map region).toList ++ around

end Opening

namespace Statement

/-- The variable that a statement writes itself. -/
def written? : Statement → Option Ident
  | assign _ _ (.var name) _ => some name
  | forLoop _ head _ _ => some head.loopVariable
  | _ => none

mutual

/-- The writes in a statement. A loop runs through its variable from outside of its body, and the
first statement of an `else` stands for it. -/
def writes (around : List Region) : Statement → List Write
  | assign _ _ (.var name) _ => [⟨around, name⟩]
  | classDecl node _ members => writesList (⟨.classBody, node.id⟩ :: around) members
  | method node _ body | procedure node _ body =>
      writesList (⟨.procedure, node.id⟩ :: around) body
  | branch node _ thenBranch elseBranch =>
      writesList (⟨.block, node.id⟩ :: around) thenBranch ++
        writesList (⟨.block, (elseBranch.head?.map id).getD node.id⟩ :: around) elseBranch
  | forLoop node head body _ =>
      ⟨around, head.loopVariable⟩ :: writesList (⟨.block, node.id⟩ :: around) body
  | whileLoop node _ body => writesList (⟨.block, node.id⟩ :: around) body
  | assign _ _ (.field _) _ | label _ _ | rem _ | declare _ _ _ _ | globals _ _ | useJava _ _
  | useClass _ _ _ | fieldDecl _ _ | inlineProcedure _ _ _ | jump _ _ _ _ | openFile _ _
  | keyedFile _ _ | print _ _ | ret _ _ | terminate _ _ | expr _ _ => []

def writesList (around : List Region) : List Statement → List Write
  | [] => []
  | s :: rest => writes around s ++ writesList around rest

end

theorem writesList_cons (around : List Region) (s : Statement) (ss : List Statement) :
    writesList around (s :: ss) = writesList around [s] ++ writesList around ss := by
  rw [writesList, writesList, writesList, List.append_nil]

/-- A statement writes a variable itself, or in what it opens. -/
theorem writesList_singleton (around : List Region) (s : Statement) :
    writesList around [s] = s.written?.toList.map (⟨around, ·⟩) ++
      (writesList (Opening.regions s.opening? around) s.body ++
        writesList (Opening.regions s.elseOpening? around) s.elseBranch) := by
  rw [writesList, writesList, List.append_nil]
  cases s with
  | assign _ _ target => cases target <;> rfl
  | classDecl | method | procedure => exact (List.append_nil _).symm
  | branch _ _ body elseBranch => cases body <;> cases elseBranch <;> rfl
  | forLoop _ _ body | whileLoop _ _ body =>
      cases body <;>
        simp [writes, written?, writesList, opening?, Statement.body, Statement.elseBranch,
          Opening.regions, Opening.region, Opening.kind, Opening.owner]
  | _ => rfl

theorem map_writesList (around : List Region) (ss : List Statement) :
    (writesList around ss).map (·.name) = (walkList ss).filterMap written? := by
  induction ss using list_induction generalizing around with
  | nil => rfl
  | cons s ss first rest =>
      rw [writesList_cons, walkList_cons, List.map_append, List.filterMap_append, first, rest]
  | single s body other =>
      have own : (s.written?.toList.map (⟨around, ·⟩ : Ident → Write)).map (·.name) =
          [s].filterMap written? := by
        rw [List.map_map, List.filterMap_cons]
        cases s.written? <;> rfl
      rw [writesList_singleton, walkList_singleton_eq, List.map_append, List.map_append, own, body,
        other, ← List.filterMap_append, ← List.filterMap_append, List.cons_append]
      rfl

end Statement

/-- The writes in a program, in source order. -/
def Program.writes (p : Program) : List Write := Statement.writesList [] p.statements

theorem Program.map_writes (p : Program) :
    p.writes.map (·.name) = p.allStatements.filterMap Statement.written? :=
  Statement.map_writesList [] p.statements

/-! ## Scopes and regions -/

namespace ScopeTree

/-- What opens the scope at a place. -/
def regionAt (t : ScopeTree) (i : ScopeId) : Option Region :=
  t.scopes[i]?.bind fun s => s.parent.map fun _ => ⟨s.kind, s.owner⟩

/-- What opens a scope and the scopes around it, innermost first. -/
def regions (t : ScopeTree) (i : ScopeId) : List Region := (t.ancestors i).filterMap t.regionAt

variable {t t' : ScopeTree} {i : ScopeId}

theorem regions_zero (wf : t.WellFormed) : t.regions 0 = [] := by
  obtain ⟨s, found, -, top⟩ := wf.root
  have none : t.regionAt 0 = none := by simp [regionAt, found, top]
  rw [regions, ancestors_zero wf, List.filterMap_cons_none none, List.filterMap_nil]

theorem Grows.regions (grows : t.Grows t') (wf : t.WellFormed) (wf' : t'.WellFormed)
    (small : i < t.scopes.size) : t'.regions i = t.regions i := by
  rw [ScopeTree.regions, ScopeTree.regions, grows.ancestors wf wf' small]
  refine List.filterMap_congr fun j around => ?_
  have found := Array.getElem?_eq_getElem (lt_of_mem_ancestors wf small around)
  obtain ⟨s', found', kind, parent, owner, -⟩ := grows.scopes j _ found
  rw [regionAt, regionAt, found, found', Option.bind_some, Option.bind_some, kind, parent, owner]

theorem regions_openScope (wf : t.WellFormed) {kind : ScopeKind} {parent : ScopeId}
    (small : parent < t.scopes.size) (plain : kind ≠ .module) (owner : NodeId) (span : Span) :
    (t.openScope kind parent owner span).regions t.scopes.size =
      ⟨kind, owner⟩ :: t.regions parent := by
  have wf' := wf.openScope small plain owner span
  have found : (t.openScope kind parent owner span).scopes[t.scopes.size]? = _ :=
    (getElem?_scopes_openScope _).trans (if_pos rfl)
  have own : (t.openScope kind parent owner span).regionAt t.scopes.size =
      some ⟨kind, owner⟩ := by
    rw [regionAt, found]
    rfl
  rw [regions, ancestors_eq_cons wf' found rfl small, List.filterMap_cons_some own]
  exact congrArg _ (grows_openScope.regions wf wf' small)

end ScopeTree

/-! ## What is declared during a part of the walk -/

/-- Between `f` and `g` nothing was declared but by the given names, and references were noted. -/
structure Runs (names : List Ident) (f g : Findings) : Prop where
  grows : f.tree.Grows g.tree
  kept : f.references ⊆ g.references
  listed : ∀ i name, ∃ more, g.tree.lookupLocal i name = f.tree.lookupLocal i name ++ more ∧
    ∀ x ∈ more, ∃ n ∈ names, x.node = some n.id

namespace Runs

variable {names names' : List Ident} {f g h : Findings}

theorem refl (f : Findings) : Runs [] f f where
  grows := .refl _
  kept := List.Subset.refl _
  listed _ _ := ⟨[], (List.append_nil _).symm, nofun⟩

theorem mono (runs : Runs names f g) (more : names ⊆ names') : Runs names' f g where
  grows := runs.grows
  kept := runs.kept
  listed i name := by
    obtain ⟨last, same, declared⟩ := runs.listed i name
    refine ⟨last, same, fun x member => ?_⟩
    obtain ⟨n, among, node⟩ := declared x member
    exact ⟨n, more among, node⟩

theorem append (first : Runs names f g) (second : Runs names' g h) :
    Runs (names ++ names') f h where
  grows := first.grows.trans second.grows
  kept := List.Subset.trans first.kept second.kept
  listed i name := by
    obtain ⟨more, same, declared⟩ := first.listed i name
    obtain ⟨more', same', declared'⟩ := second.listed i name
    refine ⟨more ++ more', by rw [same', same, List.append_assoc], fun x member => ?_⟩
    rcases List.mem_append.mp member with member | member
    · obtain ⟨n, among, node⟩ := declared x member
      exact ⟨n, List.mem_append_left _ among, node⟩
    · obtain ⟨n, among, node⟩ := declared' x member
      exact ⟨n, List.mem_append_right _ among, node⟩

theorem mentions {scope : ScopeId} {ps : List Part} (mentions : Mentions scope ps f g) :
    Runs [] f g where
  grows := mentions.tree ▸ .refl _
  kept := by
    obtain ⟨sites, references, -⟩ := mentions.noted
    rw [references]
    exact List.subset_append_left _ _
  listed i name := ⟨[], by rw [mentions.tree, List.append_nil], nofun⟩

theorem declare (wf : f.tree.WellFormed) {target : ScopeId} (small : target < f.tree.scopes.size)
    (name : Ident) (kind : SymbolKind) (exported : Bool) (detail : Option String) :
    Runs [name] f (f.declare target name.text kind name.id name.span exported detail) where
  grows := ScopeTree.grows_declare
  kept := List.Subset.refl _
  listed i key := by
    refine ⟨_, ScopeTree.lookupLocal_declare wf small i key, fun x member => ?_⟩
    split at member
    · rw [List.mem_singleton.mp member]
      exact ⟨name, List.mem_singleton_self _, rfl⟩
    · cases member

theorem openScope (f : Findings) (kind : ScopeKind) (parent : ScopeId) (owner : NodeId)
    (span : Span) : Runs [] f { f with tree := f.tree.openScope kind parent owner span } where
  grows := ScopeTree.grows_openScope
  kept := List.Subset.refl _
  listed i name := ⟨[], (ScopeTree.lookupLocal_openScope i name).trans (List.append_nil _).symm,
    nofun⟩

end Runs

theorem Walk.runs {span : Span} {scope : ScopeId} {ps : List Part} {f g : Findings}
    (walk : Walk span scope ps f g) (tidy : f.Tidy) (small : scope < f.tree.scopes.size) :
    Runs (ps.flatMap declarables) f g := by
  induction walk with
  | mention mentions => exact (Runs.mentions mentions).mono (List.nil_subset _)
  | @declare _ _ _ _ _ _ f g _ _ _ _ _ own placed _ mentions =>
      have noted := mentions.tidy tidy small
      rw [List.flatMap_singleton, own]
      rw [← mentions.tree] at small
      exact (Runs.mentions mentions).append
        (.declare noted.wellFormed (placed.lt noted.wellFormed small) _ _ _ _)
  | append first _ ih ih' =>
      obtain ⟨tidy', grows⟩ := first.tidy tidy small
      rw [List.flatMap_append]
      exact (ih tidy small).append (ih' tidy' (grows.lt small))
  | swap _ plain ih =>
      have all := ih tidy small
      rw [List.flatMap_append, flatMap_declarables_of_isPlain plain, List.nil_append] at all
      rw [List.flatMap_append, flatMap_declarables_of_isPlain plain, List.append_nil]
      exact all
  | inside _ own _ ih =>
      rw [List.flatMap_singleton, own]
      exact ih tidy small
  | opening inner _ ih =>
      exact (Runs.openScope _ _ _ _ _).append (ih (tidy.openScope small inner _ _)
        (ScopeTree.lt_size_openScope _ _ _ _ _))

/-! ## Coming to a write -/

/-- The walk is in a scope that the given regions open. -/
structure Within (around : List Region) (s : Surroundings) (f : Findings) : Prop where
  tidy : f.Tidy
  small : s.scope < f.tree.scopes.size
  place : f.tree.regions s.scope = around

/-- The walk goes on in its scope. -/
structure Goes (around : List Region) (s : Surroundings) (names : List Ident) (f g : Findings) :
    Prop where
  runs : Runs names f g
  within : Within around s g

section Goes

variable {around : List Region} {s : Surroundings} {names : List Ident} {f g : Findings}

namespace Within

theorem walk (within : Within around s f) {span : Span} {ps : List Part}
    (walk : Walk span s.scope ps f g) : Goes around s (ps.flatMap declarables) f g := by
  have runs := walk.runs within.tidy within.small
  have tidy := (walk.tidy within.tidy within.small).1
  refine ⟨runs, tidy, runs.grows.lt within.small, ?_⟩
  rw [runs.grows.regions within.tidy.wellFormed tidy.wellFormed within.small, within.place]

/-- The walk in a scope that is opened next. -/
theorem inside (within : Within around s f) (kind : ScopeKind) (plain : kind ≠ .module)
    (owner : Node) :
    Within (⟨kind, owner.id⟩ :: around) (s.inside f) (f.openScope s kind owner) where
  tidy := within.tidy.openScope within.small plain owner.id owner.span
  small := f.tree.lt_size_openScope kind s.scope owner.id owner.span
  place := by
    rw [← within.place]
    exact ScopeTree.regions_openScope within.tidy.wellFormed within.small plain owner.id owner.span

end Within

end Goes

/-- Between `f` and `g` the walk comes to a write in the given scope, after `h` was found. Among the
names, those of `front` declare before it, and those of `back` behind it. -/
structure Findings.Meets (names : List Ident) (f g : Findings) (w : Write) (s : Surroundings)
    (h : Findings) (front back : List Ident) : Prop where
  order : (front ++ w.name :: back).Sublist names
  before : Runs front f h
  within : Within w.around s h
  behind : Runs back (h.assignVariable s w.name) g

/-- Between `f` and `g` the walk comes to a write. -/
def Findings.Met (names : List Ident) (f g : Findings) (w : Write) : Prop :=
  ∃ s h front back, Meets names f g w s h front back

namespace Findings.Met

variable {names names' : List Ident} {f g h : Findings} {w : Write}

theorem sublist (met : Met names f g w) (among : names.Sublist names') : Met names' f g w := by
  obtain ⟨s, e, front, back, meets⟩ := met
  exact ⟨s, e, front, back, meets.order.trans among, meets.before, meets.within, meets.behind⟩

/-- The write comes behind something else. -/
theorem behind (met : Met names' g h w) (first : Runs names f g) : Met (names ++ names') f h w := by
  obtain ⟨s, e, front, back, meets⟩ := met
  refine ⟨s, e, names ++ front, back, ?_, first.append meets.before, meets.within, meets.behind⟩
  rw [List.append_assoc]
  exact (List.Sublist.refl names).append meets.order

/-- The write comes before something else. -/
theorem before (met : Met names f g w) (last : Runs names' g h) : Met (names ++ names') f h w := by
  obtain ⟨s, e, front, back, meets⟩ := met
  refine ⟨s, e, front, back ++ names', ?_, meets.before, meets.within, meets.behind.append last⟩
  have order := meets.order.append (List.Sublist.refl names')
  rwa [List.append_assoc, List.cons_append] at order

/-- The walk is at the write. -/
theorem here {s : Surroundings} {around : List Region} (within : Within around s f) (name : Ident) :
    Met [name] f (f.assignVariable s name) ⟨around, name⟩ := by
  refine ⟨s, f, [], [], List.Sublist.refl _, .refl f, ?_, .refl _⟩
  exact within

end Findings.Met

/-! ## Visits -/

section Visits

variable {around : List Region} {s : Surroundings} {f : Findings} (within : Within around s f)
include within

/-- The walk in what is opened next, if something is. -/
theorem Within.enter (o : Option Opening) :
    Within (Opening.regions o around) (s.enter f o) (f.enter s o) := by
  cases o with
  | none => exact within
  | some o =>
      have inside := within.inside o.kind o.kind_ne_module o.owner
      cases o with
      | classBody => exact ⟨inside.tidy, inside.small, inside.place⟩
      | procedure | block => exact inside

theorem met_visitAll (span : Span) {vs : List Visit} (own : ∀ v ∈ vs, v.isImport = false)
    {name : Ident} (writes : .write name ∈ vs) :
    Findings.Met ((vs.flatMap Visit.parts).flatMap declarables) f (visitAll s f vs)
      ⟨around, name⟩ := by
  induction vs generalizing f with
  | nil => cases writes
  | cons v vs ih =>
      have others := fun w among => own w (.tail v among)
      have first : Walk span _ _ f _ := walk_visit s f v (own v List.mem_cons_self)
      have goes := within.walk first
      rw [List.flatMap_cons, List.flatMap_append]
      rcases List.mem_cons.mp writes with rfl | writes
      · have rest (f : Findings) : Walk span _ _ f _ := walk_visitAll s f vs others
        have here := (Findings.Met.here within name).before (goes.within.walk (rest _)).runs
        have own : (parts name).flatMap declarables = [name] := by
          rw [parts_ident, List.flatMap_singleton, declarables_ident]
        rwa [← own] at here
      · exact (ih goes.within others writes).behind goes.runs

end Visits

/-! ## Statements -/

namespace Statement

variable (st : Statement)

theorem declarables_visits (plain : st.imported? = none) :
    (st.visits.flatMap Visit.parts).flatMap declarables =
      st.aheadParts.flatMap declarables := by
  have types (names : List TypeRef) := flatMap_declarables_of_isPlain (isPlain_types names)
  have optional (e : Option Expr) := flatMap_declarables_of_isPlain (isPlain_optional e)
  have expr (e : Expr) : (Part.expr e).declarables = [] := declarables_of_isPlain rfl
  cases st with
  | useJava | useClass => cases plain
  | assign _ _ target =>
      cases target <;>
        simp [visits, aheadParts, children, Visit.parts, Referral.parts, expr]
  | openFile _ file =>
      have options : (Part.optionsSpan file.optionsSpan).declarables = [] :=
        declarables_of_isPlain rfl
      simp [visits, aheadParts, children, Visit.parts, Referral.parts, options]
  | _ => simp [visits, aheadParts, children, Visit.parts, Referral.parts, expr, types, optional]

theorem write_mem_visits {name : Ident} (written : st.written? = some name) :
    .write name ∈ st.visits := by
  cases st with
  | assign _ _ target =>
      cases target with
      | var =>
          cases written
          exact List.mem_cons_of_mem _ List.mem_cons_self
      | field => cases written
  | forLoop =>
      cases written
      simp [visits]
  | _ => cases written

end Statement

/-- A write in what is opened, behind what is visited at its start. -/
theorem met_collectScope {around : List Region} {s : Surroundings} {f : Findings} {span : Span}
    (within : Within around s f) (o : Option Opening) (ps : List Part) (entry : List Visit)
    (start : ∀ s f, Walk span s.scope ps f (visitAll s f entry)) {sts : List Statement} {w : Write}
    (inner : ∀ s f around, Within around s f → w ∈ Statement.writesList around sts →
      Findings.Met ((parts sts).flatMap declarables) f (collectStatements s f sts) w)
    (member : w ∈ Statement.writesList (Opening.regions o around) sts) :
    Findings.Met ((ps ++ parts sts).flatMap declarables) f (collectScope s f o entry sts) w := by
  have inside := within.enter o
  have first := inside.walk (start _ _)
  have opened : Runs [] f (f.enter s o) := by
    cases o with
    | none => exact .refl f
    | some o => exact .openScope ..
  have met := inner _ _ _ first.within member
  rw [List.flatMap_append]
  exact (met.behind first.runs).behind opened

theorem Statement.not_mem_writes {st : Statement} {name : Ident}
    (imported : st.imported? = some name) {around : List Region} {w : Write} :
    w ∉ writesList around [st] := by
  cases st with
  | useJava | useClass => exact List.not_mem_nil
  | _ => cases imported

theorem met_collectStatements (s : Surroundings) (f : Findings) (sts : List Statement)
    {around : List Region} (within : Within around s f) {w : Write}
    (member : w ∈ Statement.writesList around sts) :
    Findings.Met ((parts sts).flatMap declarables) f (collectStatements s f sts) w := by
  induction sts using Statement.list_induction generalizing s f around with
  | nil => cases member
  | cons st rest first others =>
      have goes := within.walk (walk_collectStatements st.span s f [st])
      have tail := goes.within.walk (walk_collectStatements st.span s _ rest)
      rw [Statement.writesList_cons, List.mem_append] at member
      rw [collectStatements_cons, parts_cons, ← parts_singleton, List.flatMap_append]
      rcases member with member | member
      · exact (first s f within member).before tail.runs
      · exact (others s _ goes.within member).behind goes.runs
  | single st body other =>
      have plain : st.imported? = none := Option.eq_none_iff_forall_ne_some.mpr
        fun _ imported => Statement.not_mem_writes imported member
      have whole : (parts [st]).flatMap declarables = st.aheadParts.flatMap declarables ++
          ((st.entryParts ++ parts st.body).flatMap declarables ++
            (([] ++ parts st.elseBranch).flatMap declarables ++
              st.closingParts.flatMap declarables)) := by
        rw [parts_singleton, parts_statement, List.flatMap_singleton,
          declarables_of_not_imported plain, st.children_eq]
        simp only [List.flatMap_append, List.append_assoc, List.nil_append]
      have start (s : Surroundings) (f : Findings) : Walk st.span _ _ _ _ := walk_entry s f st
      have nothing (s : Surroundings) (f : Findings) : Walk st.span s.scope [] f _ := .skip
      have ahead := within.walk (walk_ahead s f st plain : Walk st.span _ _ _ _)
      have inside := ahead.within.walk (walk_collectScope s _ st.span_of_opening st.entryParts
        st.entry start fun s f => walk_collectStatements st.span s f st.body)
      have else_ := inside.within.walk (walk_collectScope s _ st.span_of_elseOpening [] []
        nothing fun s f => walk_collectStatements st.span s f st.elseBranch)
      have last := else_.within.walk (walk_closing s _ st : Walk st.span _ _ _ _)
      have behind := else_.runs.append last.runs
      rw [collectStatements_singleton, whole]
      rw [st.writesList_singleton, List.mem_append, List.mem_append] at member
      rcases member with member | member | member
      · obtain ⟨name, written, rfl⟩ := List.mem_map.mp member
        have visited := st.write_mem_visits (Option.mem_toList.mp written)
        have met := met_visitAll within st.span (st.isImport_eq_false plain) visited
        rw [st.declarables_visits plain] at met
        exact met.before (inside.runs.append behind)
      · have met := met_collectScope ahead.within st.opening? _ _ start
          (fun s f _ within member => body s f within member) member
        exact (met.before behind).behind ahead.runs
      · have met := met_collectScope inside.within st.elseOpening? [] [] nothing
          (fun s f _ within member => other s f within member) member
        exact ((met.before last.runs).behind inside.runs).behind ahead.runs

theorem met_collect (document : DocumentId) (p : Program) : ∀ w ∈ p.writes,
    Findings.Met p.declarables (Findings.start document p.span) (collect document p) w := by
  intro w member
  have tidy := Findings.tidy_start document p.span
  have within : Within [] ⟨ScopeTree.moduleId, false⟩ (Findings.start document p.span) :=
    ⟨tidy, Nat.zero_lt_one, ScopeTree.regions_zero tidy.wellFormed⟩
  exact met_collectStatements _ _ p.statements within member

end BbjAnalysis
