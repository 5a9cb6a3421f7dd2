import BbjAnalysis.Program.Parser.Simple

/-! # The parts of a program

Statements, expressions, options, parameters, types and names are the parts of a program. Each
part consists of its children, in the order of the source but for arguments and options of one
call, which are kept apart. Most parts are nodes, with an identity and a span; a parameter has no
span of its own, and the span around the options of `open` no identity.
-/

namespace BbjAnalysis

/-- The least span that the given spans lie in. -/
structure Span.IsHull (s : Span) (spans : List Span) : Prop where
  around : ∀ t ∈ spans, s.start ≤ t.start ∧ t.stop ≤ s.stop
  least : ∀ u : Span, (∀ t ∈ spans, u.start ≤ t.start ∧ t.stop ≤ u.stop) →
    u.start ≤ s.start ∧ s.stop ≤ u.stop

namespace Span.IsHull

theorem singleton (s : Span) : s.IsHull [s] :=
  ⟨by simp, fun _ outside => outside s List.mem_cons_self⟩

/-- In place of two spans the least one around both may stand. -/
theorem ofCover {s a b : Span} {spans : List Span} (h : s.IsHull (a.cover b :: spans)) :
    s.IsHull (a :: b :: spans) where
  around t member := by
    have both := h.around _ List.mem_cons_self
    simp only [Span.cover] at both
    rcases List.mem_cons.mp member with rfl | member
    · omega
    · rcases List.mem_cons.mp member with rfl | member
      · omega
      · exact h.around t (List.mem_cons_of_mem _ member)
  least u outside := by
    refine h.least u fun t member => ?_
    rcases List.mem_cons.mp member with rfl | member
    · have first := outside a List.mem_cons_self
      have second := outside b (List.mem_cons_of_mem a List.mem_cons_self)
      simp only [Span.cover]
      omega
    · exact outside t (List.mem_cons_of_mem a (List.mem_cons_of_mem b member))

end Span.IsHull

inductive Part where
  | statement (s : Statement)
  | expr (e : Expr)
  | option (o : StatementOption)
  /-- A parameter by its identity; its type and its name stand beside it. -/
  | param (id : NodeId)
  | type (t : TypeRef)
  | ident (i : Ident)
  /-- The span around the options of `open`. -/
  | optionsSpan (s : Span)

/-- The size of a part that others can be in. -/
noncomputable def Part.weight : Part → Nat
  | .statement s => sizeOf s
  | .expr e => sizeOf e
  | .option o => sizeOf o
  | .param _ | .type _ | .ident _ | .optionsSpan _ => 0

/-- The name that is written to. -/
def AssignTarget.name : AssignTarget → Ident
  | .var name | .field name => name

/-- What is put together from parts, none of them larger than the whole. -/
class HasParts (α : Type) [SizeOf α] where
  parts : α → List Part
  weight_le : ∀ (a : α) (q : Part), q ∈ parts a → q.weight ≤ sizeOf a

export HasParts (parts)

namespace HasParts

open BbjAnalysis.Part

section Containers

variable {α β : Type} [SizeOf α] [SizeOf β] [HasParts α] [HasParts β]

instance : HasParts (List α) where
  parts := List.flatMap parts
  weight_le as q member := by
    obtain ⟨a, inside, member⟩ := List.mem_flatMap.mp member
    exact Nat.le_of_lt (Nat.lt_of_le_of_lt (weight_le a q member) (List.sizeOf_lt_of_mem inside))

instance : HasParts (Option α) where
  parts a? := a?.elim [] parts
  weight_le a? q member := by
    cases a? with
    | none => cases member
    | some a => exact Nat.le_trans (weight_le a q member) (by simp)

instance : HasParts (α × β) where
  parts p := parts p.1 ++ parts p.2
  weight_le p q member := by grind [→ weight_le]

@[simp] theorem parts_nil : parts ([] : List α) = [] := rfl

@[simp] theorem parts_cons (a : α) (as : List α) : parts (a :: as) = parts a ++ parts as := rfl

@[simp] theorem parts_append (as bs : List α) : parts (as ++ bs) = parts as ++ parts bs :=
  List.flatMap_append

@[simp] theorem parts_none : parts (none : Option α) = [] := rfl

@[simp] theorem parts_some (a : α) : parts (some a) = parts a := rfl

@[simp] theorem parts_pair (p : α × β) : parts p = parts p.1 ++ parts p.2 := rfl

end Containers

instance : HasParts Ident := ⟨fun i => [.ident i], by simp [weight]⟩

instance : HasParts TypeRef := ⟨fun t => [.type t], by simp [weight]⟩

instance : HasParts Expr := ⟨fun e => [.expr e], by simp [weight]⟩

instance : HasParts StatementOption := ⟨fun o => [.option o], by simp [weight]⟩

instance : HasParts Statement := ⟨fun s => [.statement s], by simp [weight]⟩

instance : HasParts AssignTarget where
  parts target := parts target.name
  weight_le target q member := by cases target <;> grind [AssignTarget.name, → weight_le]

instance : HasParts Param where
  parts p := .param p.id :: (parts p.type ++ parts p.name)
  weight_le p q member := by
    obtain ⟨id, type, name⟩ := p
    grind [weight, → weight_le]

instance : HasParts ClassHead where
  parts h := parts h.name ++ (parts h.supertypes ++ parts h.interfaces)
  weight_le h q member := by
    obtain ⟨isInterface, modifier, name, supertypes, interfaces⟩ := h
    grind [→ weight_le]

instance : HasParts MethodHead where
  parts h := parts h.returnType ++ (parts h.name ++ parts h.params)
  weight_le h q member := by
    obtain ⟨modifier, isStatic, returnType, name, params⟩ := h
    grind [→ weight_le]

instance : HasParts ProcedureHead where
  parts h := parts h.name ++ parts h.params
  weight_le h q member := by
    obtain ⟨isPublic, name, params⟩ := h
    grind [→ weight_le]

instance : HasParts FieldDecl where
  parts f := parts f.type ++ (parts f.name ++ parts f.init)
  weight_le f q member := by
    obtain ⟨modifier, isStatic, type, name, init⟩ := f
    grind [→ weight_le]

instance : HasParts OpenFile where
  parts f := parts f.channel ++ (parts f.options ++ (.optionsSpan f.optionsSpan :: parts f.path))
  weight_le f q member := by
    obtain ⟨channel, options, span, path⟩ := f
    grind [weight, → weight_le]

instance : HasParts KeyedFile where
  parts f := parts f.args ++ parts f.options
  weight_le f q member := by
    obtain ⟨verb, args, options⟩ := f
    grind [→ weight_le]

instance : HasParts ForHead where
  parts h := parts h.loopVariable ++ (parts h.first ++ (parts h.last ++ parts h.step))
  weight_le h q member := by
    obtain ⟨name, first, last, step⟩ := h
    grind [→ weight_le]

instance : HasParts Parser.Args where
  parts a := parts a.positional ++ parts a.options
  weight_le a q member := by
    obtain ⟨positional, options⟩ := a
    grind [→ weight_le]

section Values

@[simp] theorem parts_ident (i : Ident) : parts i = [.ident i] := rfl

@[simp] theorem parts_type (t : TypeRef) : parts t = [.type t] := rfl

@[simp] theorem parts_expr (e : Expr) : parts e = [.expr e] := rfl

@[simp] theorem parts_option (o : StatementOption) : parts o = [.option o] := rfl

@[simp] theorem parts_statement (s : Statement) : parts s = [.statement s] := rfl

@[simp] theorem parts_args (a : Parser.Args) :
    parts a = parts a.positional ++ parts a.options := rfl

@[simp] theorem parts_param (p : Param) :
    parts p = .param p.id :: (parts p.type ++ parts p.name) := rfl

@[simp] theorem parts_var (name : Ident) : parts (AssignTarget.var name) = parts name := rfl

@[simp] theorem parts_field (name : Ident) : parts (AssignTarget.field name) = parts name := rfl

@[simp] theorem parts_target (isField : Bool) (name : Ident) :
    parts (if isField then AssignTarget.field name else .var name) = parts name := by
  cases isField <;> rfl

@[simp] theorem parts_classHead (h : ClassHead) :
    parts h = parts h.name ++ (parts h.supertypes ++ parts h.interfaces) := rfl

@[simp] theorem parts_methodHead (h : MethodHead) :
    parts h = parts h.returnType ++ (parts h.name ++ parts h.params) := rfl

@[simp] theorem parts_procedureHead (h : ProcedureHead) :
    parts h = parts h.name ++ parts h.params := rfl

@[simp] theorem parts_fieldDecl (f : FieldDecl) :
    parts f = parts f.type ++ (parts f.name ++ parts f.init) := rfl

@[simp] theorem parts_openFile (f : OpenFile) : parts f =
    parts f.channel ++ (parts f.options ++ (.optionsSpan f.optionsSpan :: parts f.path)) := rfl

@[simp] theorem parts_keyedFile (f : KeyedFile) : parts f = parts f.args ++ parts f.options := rfl

@[simp] theorem parts_forHead (h : ForHead) : parts h =
    parts h.loopVariable ++ (parts h.first ++ (parts h.last ++ parts h.step)) := rfl

end Values

end HasParts

def Expr.children : Expr → List Part
  | .number _ _ | .str _ _ | .missing _ => []
  | .var _ name | .field _ name | .starLabel _ name => parts name
  | .call _ callee args options => parts callee ++ (parts args ++ parts options)
  | .methodCall _ receiver name args options =>
      parts receiver ++ (parts name ++ (parts args ++ parts options))
  | .member _ receiver name => parts receiver ++ parts name
  | .index _ base indices => parts base ++ parts indices
  | .new _ type args options => parts type ++ (parts args ++ parts options)
  | .unary _ _ operand => parts operand
  | .binary _ _ lhs rhs => parts lhs ++ parts rhs
  | .paren _ inner => parts inner

def Statement.children : Statement → List Part
  | .rem _ | .terminate _ _ => []
  | .label _ name | .useClass _ _ name => parts name
  | .assign _ _ target value => parts target ++ parts value
  | .declare _ _ type name => parts type ++ parts name
  | .globals _ names => parts names
  | .useJava _ type => parts type
  | .classDecl _ head members => parts head ++ parts members
  | .fieldDecl _ decl => parts decl
  | .method _ head body => parts head ++ parts body
  | .procedure _ head body => parts head ++ parts body
  | .inlineProcedure _ head body => parts head ++ parts body
  | .jump _ _ selector targets => parts selector ++ parts targets
  | .openFile _ file => parts file
  | .keyedFile _ file => parts file
  | .print _ items => parts items
  | .branch _ condition thenBranch elseBranch =>
      parts condition ++ (parts thenBranch ++ parts elseBranch)
  | .forLoop _ head body next => parts head ++ (parts body ++ parts next)
  | .whileLoop _ condition body => parts condition ++ parts body
  | .ret _ value => parts value
  | .expr _ value => parts value

namespace Part

/-- The parts that a part immediately consists of. -/
def children : Part → List Part
  | .statement s => s.children
  | .expr e => e.children
  | .option o => parts o.key ++ parts o.value
  | .param _ | .type _ | .ident _ | .optionsSpan _ => []

/-! ## All that is in a part -/

open HasParts in
theorem weight_lt_of_mem_children {p q : Part} (member : q ∈ p.children) :
    q.weight < p.weight := by
  cases p with
  | param | type | ident | optionsSpan => cases member
  | option o =>
      obtain ⟨id, key, value, span⟩ := o
      grind [children, weight, → weight_le]
  | expr e => cases e <;> grind [children, Expr.children, weight, → weight_le]
  | statement s => cases s <;> grind [children, Statement.children, weight, → weight_le]

/-- The part itself and all that is in it. -/
def all (p : Part) : List Part := p :: p.children.attach.flatMap fun q => q.1.all
termination_by p.weight
decreasing_by exact weight_lt_of_mem_children q.2

theorem all_eq (p : Part) : p.all = p :: p.children.flatMap all := by
  rw [all, List.flatMap_subtype (fun _ _ => rfl), List.unattach_attach]

/-- Several parts and all that is in them. -/
def allOf (ps : List Part) : List Part := ps.flatMap all

@[simp] theorem allOf_nil : allOf [] = [] := rfl

@[simp] theorem allOf_append (ps qs : List Part) : allOf (ps ++ qs) = allOf ps ++ allOf qs :=
  List.flatMap_append

theorem allOf_singleton (p : Part) : allOf [p] = p :: allOf p.children := by
  rw [allOf, List.flatMap_singleton, all_eq, allOf]

theorem mem_all_self (p : Part) : p ∈ p.all := by
  rw [all_eq]
  exact List.mem_cons_self

theorem allOf_children_sublist_all (p : Part) : (allOf p.children).Sublist p.all := by
  rw [all_eq]
  exact List.sublist_cons_self p _

theorem mem_all_of_mem_children {p q r : Part} (child : q ∈ p.children) (inside : r ∈ q.all) :
    r ∈ p.all :=
  (allOf_children_sublist_all p).subset (List.mem_flatMap.mpr ⟨q, child, inside⟩)

theorem mem_allOf_of_mem {ps : List Part} {p : Part} (member : p ∈ ps) : p ∈ allOf ps :=
  List.mem_flatMap.mpr ⟨p, member, mem_all_self p⟩

/-- An option stands with its key. -/
theorem key_mem_allOf {ps : List Part} {o : StatementOption} (member : .option o ∈ ps) :
    .ident o.key ∈ allOf ps :=
  List.mem_flatMap.mpr ⟨.option o, member,
    mem_all_of_mem_children List.mem_cons_self (mem_all_self _)⟩

theorem all_sublist_allOf {ps : List Part} {p : Part} (member : p ∈ ps) :
    p.all.Sublist (allOf ps) := by
  rw [allOf, List.flatMap_def]
  exact List.sublist_flatten_of_mem (List.mem_map_of_mem member)

theorem all_sublist_all {p q : Part} (member : p ∈ q.all) : p.all.Sublist q.all := by
  rw [all_eq q] at member
  rcases List.mem_cons.mp member with rfl | member
  · exact .refl _
  · obtain ⟨child, among, member⟩ := List.mem_flatMap.mp member
    have smaller := weight_lt_of_mem_children among
    rw [all_eq q]
    exact ((all_sublist_all member).trans (all_sublist_allOf among)).cons q
termination_by q.weight

/-- What is in one of all parts is among them. -/
theorem allOf_children_sublist {ps : List Part} {p : Part} (member : p ∈ allOf ps) :
    (allOf p.children).Sublist (allOf ps) := by
  obtain ⟨q, among, member⟩ := List.mem_flatMap.mp member
  have inside := (all_sublist_all member).trans (all_sublist_allOf among)
  exact (allOf_children_sublist_all p).trans inside

theorem allOf_perm {ps qs : List Part} (perm : ps.Perm qs) : (allOf ps).Perm (allOf qs) :=
  perm.flatMap_right _

/-! ## Identities and spans -/

/-- Identity and span of a part that has both. -/
def node? : Part → Option Node
  | .statement s => some s.node
  | .expr e => some e.node
  | .option o => some ⟨o.id, o.span⟩
  | .type t => some ⟨t.id, t.span⟩
  | .ident i => some ⟨i.id, i.span⟩
  | .param _ | .optionsSpan _ => none

def id? : Part → Option NodeId
  | .param id => some id
  | p => p.node?.map (·.id)

def span? : Part → Option Span
  | .optionsSpan span => some span
  | p => p.node?.map (·.span)

/-- Identity and span of a name: an identifier or a type. -/
def name? : Part → Option Node
  | .type t => some ⟨t.id, t.span⟩
  | .ident i => some ⟨i.id, i.span⟩
  | _ => none

theorem id?_of_name? {p : Part} {n : Node} (named : n ∈ p.name?) : n.id ∈ p.id? := by
  cases p <;> simp_all [name?, id?, node?]

/-- Whether the part only stands where an expression was expected. -/
def isMissing : Part → Bool
  | .expr (.missing _) => true
  | _ => false

/-- Options in the order of the text. -/
def KeysInOrder (options : List StatementOption) : Prop :=
  options.Pairwise fun o o' => o.key.span.stop ≤ o'.key.span.start

/-- An option begins with its key. The options of `open` stand in the order of the text, and the
span around them is the least one that they lie in. -/
def Shaped : Part → Prop
  | .option o => o.span.start = o.key.span.start
  | .statement (.openFile _ file) =>
      KeysInOrder file.options ∧
        (file.options ≠ [] → file.optionsSpan.IsHull (file.options.map (·.span)))
  | _ => True

/-- Two parts of one whole do not overlap. Statements follow one another. -/
def Beside : Part → Part → Prop
  | .statement s, .statement s' => s.span.stop ≤ s'.span.start
  | p, q => ∀ m ∈ p.node?, ∀ n ∈ q.node?,
      m.span.stop ≤ n.span.start ∨ n.span.stop ≤ m.span.start

/-- What ends where the other begins lies beside it. -/
theorem beside_of_le {p q : Part}
    (apart : ∀ m ∈ p.node?, ∀ n ∈ q.node?, m.span.stop ≤ n.span.start) : p.Beside q := by
  cases p with
  | statement s =>
      cases q with
      | statement s' => exact apart s.node rfl s'.node rfl
      | _ => exact fun m here n there => .inl (apart m here n there)
  | _ => exact fun m here n there => .inl (apart m here n there)

theorem Beside.symm {p q : Part} (beside : p.Beside q) (plain : ∀ s, q ≠ .statement s) :
    q.Beside p := by
  cases q with
  | statement s => exact absurd rfl (plain s)
  | _ => cases p <;> exact fun m here n there => (beside n there m here).symm

/-- A part as it is read where nothing is wrong: it is there, it is not empty, and its children lie
in it, one beside the other. -/
structure Neat (p : Part) : Prop where
  present : p.isMissing = false
  nonempty : ∀ n ∈ p.node?, n.span.start < n.span.stop
  inside : ∀ q ∈ p.children, ∀ m ∈ q.node?, ∀ n ∈ p.node?,
    n.span.start ≤ m.span.start ∧ m.span.stop ≤ n.span.stop
  beside : p.children.Pairwise Beside

/-- The second of two names comes behind the first, also in the order of identities. -/
def Follows (m n : Node) : Prop := m.id < n.id ∧ m.span.stop ≤ n.span.start

/-- Two parts have different identities; of two names one comes behind the other. -/
structure Apart (p q : Part) : Prop where
  id : ∀ i ∈ p.id?, i ∉ q.id?
  name : ∀ m ∈ p.name?, ∀ n ∈ q.name?, Follows m n ∨ Follows n m

theorem Apart.symm {p q : Part} (h : p.Apart q) : q.Apart p where
  id i member other := h.id i other member
  name m member n other := (h.name n other m member).symm

end Part

/-! ## Names that are declared -/

/-- What a `use` statement declares: the name of what it imports, with the identity of the
statement. -/
def Statement.imported? : Statement → Option Ident
  | .useJava node type => some ⟨node.id, type.text, type.span⟩
  | .useClass node _ name => some ⟨node.id, name.text, name.span⟩
  | _ => none

def Ident.node (i : Ident) : Node := ⟨i.id, i.span⟩

namespace Part

/-- Whether nothing can be declared by a part, nor by what is in it. -/
def isPlain : Part → Bool
  | .statement _ | .ident _ => false
  | _ => true

/-- The names by which something can be declared in a part, in the order of the text: what is
imported, and the identifiers outside of expressions. -/
def declarables (p : Part) : List Ident :=
  match p with
  | .ident i => [i]
  | .statement s =>
      match s.imported? with
      | some i => [i]
      | none => (Part.statement s).children.attach.flatMap fun q => q.1.declarables
  | _ => []
termination_by p.weight
decreasing_by exact weight_lt_of_mem_children q.2

@[simp] theorem declarables_ident (i : Ident) : (Part.ident i).declarables = [i] := by
  rw [declarables]

theorem declarables_of_imported {s : Statement} {i : Ident} (imported : s.imported? = some i) :
    (Part.statement s).declarables = [i] := by
  rw [declarables]
  simp only [imported]

theorem declarables_of_not_imported {s : Statement} (none : s.imported? = none) :
    (Part.statement s).declarables = s.children.flatMap declarables := by
  rw [declarables]
  simp only [none]
  rw [List.flatMap_subtype (fun _ _ => rfl), List.unattach_attach]
  rfl

theorem declarables_of_isPlain {p : Part} (plain : p.isPlain = true) : p.declarables = [] := by
  rw [declarables]
  · rintro i rfl
    cases plain
  · rintro s rfl
    cases plain

theorem flatMap_declarables_of_isPlain {ps : List Part} (plain : ∀ p ∈ ps, p.isPlain = true) :
    ps.flatMap declarables = [] :=
  List.flatMap_eq_nil_iff.mpr fun p member => declarables_of_isPlain (plain p member)

/-- A part declares by one name, by the names of its children, or not at all. -/
theorem declarables_cases (p : Part) : (∃ i, p.declarables = [i]) ∨
    p.declarables = p.children.flatMap declarables ∨ p.declarables = [] := by
  cases p with
  | ident i => exact .inl ⟨i, declarables_ident i⟩
  | statement s =>
      cases imported : s.imported? with
      | some i => exact .inl ⟨i, declarables_of_imported imported⟩
      | none => exact .inr (.inl (declarables_of_not_imported imported))
  | _ => exact .inr (.inr (declarables_of_isPlain rfl))

/-- A name stands in the text as an identifier or as a type. -/
inductive Writes : Part → String → Span → Prop
  | ident (i : Ident) : Writes (.ident i) i.text i.span
  | type (t : TypeRef) : Writes (.type t) t.text t.span

/-- The names that may be declared stand in the part, and have identities of parts in it. -/
theorem of_mem_declarables {p : Part} {i : Ident} (member : i ∈ p.declarables) :
    (∃ q ∈ p.all, q.id? = some i.id) ∧ ∃ q ∈ p.all, q.Writes i.text i.span := by
  have here := mem_all_self p
  have child {q : Part} (inside : q ∈ p.children) : q ∈ p.all :=
    mem_all_of_mem_children inside (mem_all_self q)
  cases p with
  | ident j =>
      obtain rfl := List.mem_singleton.mp (declarables_ident j ▸ member)
      exact ⟨⟨_, here, rfl⟩, _, here, .ident i⟩
  | statement s =>
      cases imported : s.imported? with
      | some j =>
          rw [declarables_of_imported imported, List.mem_singleton] at member
          subst member
          cases s with
          | useJava node type =>
              cases imported
              exact ⟨⟨_, here, rfl⟩, .type type, child List.mem_cons_self, .type type⟩
          | useClass node path name =>
              cases imported
              exact ⟨⟨_, here, rfl⟩, .ident name, child List.mem_cons_self, .ident name⟩
          | _ => cases imported
      | none =>
          rw [declarables_of_not_imported imported] at member
          obtain ⟨q, inside, member⟩ := List.mem_flatMap.mp member
          have smaller := weight_lt_of_mem_children (p := .statement s) inside
          have among := all_sublist_all (child inside)
          obtain ⟨⟨r, own, id⟩, t, place, writes⟩ := of_mem_declarables member
          exact ⟨⟨r, among.subset own, id⟩, t, among.subset place, writes⟩
  | _ =>
      rw [declarables_of_isPlain rfl] at member
      cases member
termination_by p.weight

end Part

/-- All parts of a program. -/
def Program.parts (p : Program) : List Part := Part.allOf (HasParts.parts p.statements)

theorem Program.mem_parts_of_mem_children {p : Program} {q r : Part} (among : q ∈ p.parts)
    (child : r ∈ q.children) : r ∈ p.parts :=
  (Part.allOf_children_sublist among).subset (Part.mem_allOf_of_mem child)

/-- The names by which a program may declare something, in the order of the text. -/
def Program.declarables (p : Program) : List Ident :=
  (HasParts.parts p.statements).flatMap Part.declarables

end BbjAnalysis
