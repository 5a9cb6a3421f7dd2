import BbjAnalysis.Proofs.Program.Ensures
import BbjAnalysis.Proofs.Program.Part
import BbjAnalysis.Proofs.Token.Row

/-! # What is gathered from the tokens

Between two cursors tokens are read, and parts of a program are gathered from them. The parts have
the identities that were given away in between, and their names lie in the tokens read, one behind
the other. Where nothing was found wrong, all parts lie there, and no token that fits nowhere was
passed over without a statement that may hold it.

All of this is kept where reading goes on (`Gathered.append`), and where a node is closed around
the parts gathered since it began (`Gathered.enclose`, `Gathered.complete`).
-/

namespace BbjAnalysis.Parser

open Cursor HasParts BbjAnalysis.Part

/-! ## Where cursors stand -/

namespace Cursor

variable {b c d : Cursor} {t : Token}

/-- The tokens left stand in a row between the last token read and the end of the text. -/
def Laid (c : Cursor) : Prop := Token.Row c.lastStop c.rest c.stop

theorem Laid.row_offset (laid : c.Laid) :
    c.lastStop ≤ c.offset ∧ Token.Row c.offset c.rest c.stop := by
  unfold Laid at laid
  unfold offset
  split
  · next t ts rest =>
    rw [rest] at laid ⊢
    exact ⟨laid.1, Nat.le_refl _, laid.2⟩
  · next rest =>
    rw [rest] at laid ⊢
    exact ⟨laid, Nat.le_refl _⟩

theorem Laid.lastStop_le_offset (laid : c.Laid) : c.lastStop ≤ c.offset := laid.row_offset.1

theorem Laid.offset_le_stop (laid : c.Laid) : c.offset ≤ c.stop := laid.row_offset.2.le

namespace Behind

theorem laid (behind : d.Behind c) (laid : c.Laid) : d.Laid ∧ c.lastStop ≤ d.lastStop := by
  obtain ⟨ts, rest, lastStop⟩ := behind.read
  have row : Token.Row c.lastStop (ts ++ d.rest) c.stop := by
    rw [rest]
    exact laid
  obtain ⟨further, row⟩ := row.behind
  constructor
  · unfold Laid
    rw [behind.stop, lastStop]
    exact row
  · rw [lastStop]
    exact further

end Behind

/-- The token was read between the two cursors. -/
def Passed (b c : Cursor) (t : Token) : Prop := ∃ ts, ts ++ c.rest = b.rest ∧ t ∈ ts

namespace Passed

theorem of_mem (member : t ∈ b.rest) (ends : c.rest = []) : Passed b c t :=
  ⟨b.rest, by rw [ends, List.append_nil], member⟩

theorem not_of_rest_eq (same : c.rest = b.rest) : ¬ Passed b c t := by
  rintro ⟨ts, rest, member⟩
  have none : ts = [] := by simpa [same] using rest
  rw [none] at member
  cases member

theorem bump (passed : Passed c c.bump t) : c.rest.head? = some t := by
  obtain ⟨ts, rest, member⟩ := passed
  cases next : c.rest with
  | nil =>
      have none : ts = [] := by simp_all [Cursor.bump]
      rw [none] at member
      cases member
  | cons u us =>
      have one : ts = [u] := by
        simp only [Cursor.bump, next] at rest
        exact List.append_cancel_right (rest.trans (List.singleton_append).symm)
      rw [one] at member
      rw [List.mem_singleton.mp member, List.head?_cons]

theorem split (passed : Passed b d t) (front : c.Behind b) (back : d.Behind c) :
    Passed b c t ∨ Passed c d t := by
  obtain ⟨ts, rest, member⟩ := passed
  obtain ⟨us, front⟩ := front.rest
  obtain ⟨vs, back⟩ := back.rest
  have parts : ts = us ++ vs := by
    apply List.append_cancel_right
    rw [rest, List.append_assoc, back, front]
  rw [parts] at member
  rcases List.mem_append.mp member with member | member
  · exact .inl ⟨us, front, member⟩
  · exact .inr ⟨vs, back, member⟩

theorem within (passed : Passed b c t) (laid : b.Laid) (behind : c.Behind b) :
    b.offset ≤ t.start ∧ t.start < t.stop ∧ t.stop ≤ c.lastStop := by
  obtain ⟨us, rest', member⟩ := passed
  obtain ⟨ts, rest, lastStop⟩ := behind.read
  rw [List.append_cancel_right (rest'.trans rest.symm)] at member
  have row : Token.Row b.offset (ts ++ c.rest) b.stop := by
    rw [rest]
    exact laid.row_offset.2
  have ends : Token.endOf ts b.offset = c.lastStop := by
    rw [lastStop]
    cases ts with
    | nil => cases member
    | cons u us => rw [Token.endOf_cons, ← Token.endOf_cons u us b.lastStop, Token.endOf]
  obtain ⟨starts, nonempty, stops⟩ := row.within member
  exact ⟨starts, nonempty, ends ▸ stops⟩

end Passed

namespace Behind

theorem offset_lt (behind : d.Behind c) (laid : c.Laid) (moved : d.size < c.size) :
    c.offset < d.lastStop := by
  obtain ⟨ts, rest⟩ := behind.rest
  cases ts with
  | nil =>
      rw [List.nil_append] at rest
      rw [size, size, rest] at moved
      exact absurd moved (Nat.lt_irrefl _)
  | cons t ts =>
      have passed : Passed c d t := ⟨t :: ts, rest, List.mem_cons_self⟩
      obtain ⟨starts, nonempty, stops⟩ := passed.within laid behind
      omega

theorem offset_le (behind : d.Behind c) (laid : c.Laid) : c.offset ≤ d.offset := by
  by_cases moved : d.size < c.size
  · have := behind.offset_lt laid moved
    have := (behind.laid laid).1.lastStop_le_offset
    omega
  · simp only [offset, behind.rest_eq moved, behind.stop, Nat.le_refl]

/-- What was found wrong before is part of what was found wrong in all. -/
theorem errors_eq (front : c.Behind b) (back : d.Behind c) (clean : d.errors = b.errors) :
    c.errors = b.errors ∧ d.errors = c.errors := by
  have first : c.errors = b.errors := by
    apply List.IsSuffix.eq_of_length_le ?_ ?_ |>.symm
    · exact front.errors
    · rw [← clean]
      exact back.errors.length_le
  exact ⟨first, clean.trans first.symm⟩

end Behind

end Cursor

/-! ## Parts between two cursors -/

/-- Identifiers that dots join. -/
inductive Dotted : List String → List Token → Prop
  | name {t : Token} (isName : t.kind = .ident) : Dotted [t.text] [t]
  | cons {t dot : Token} {segments : List String} {ts : List Token} (isName : t.kind = .ident)
    (joins : dot.kind = .dot) (rest : Dotted segments ts) :
    Dotted (t.text :: segments) (t :: dot :: ts)

/-- Tokens begin and end where a span does. -/
def Fill (ts : List Token) (s : Span) : Prop :=
  ts.head?.map Token.start = some s.start ∧ ts.getLast?.map Token.stop = some s.stop

/-- The tokens that a `use ::path::Class` was read from. The path is what stands between the two
`::`, if anything does. -/
inductive ReadsPath (tokens : List Token) (node : Node) (path : Option String) (name : Ident) :
    Prop
  | intro {word first second last : Token} {between : List Token}
    (run : word :: first :: (between ++ [second, last]) <:+: tokens)
    (use : word.isKeyword "use" = true) (opens : first.kind = .colonColon)
    (closes : second.kind = .colonColon) (inside : ∀ u ∈ between, u.kind ≠ .colonColon)
    (stored : path = if (String.join (between.map Token.text)).isEmpty then none
      else some (String.join (between.map Token.text)))
    (named : last.text = name.text ∧ last.span = name.span)
    (span : node.span = ⟨word.start, last.stop⟩)

/-- A part has the shape that it is read in. -/
def ShapedFrom (tokens : List Token) : Part → Prop
  | .statement (.useClass node path name) => ReadsPath tokens node path name
  | p => p.Shaped

theorem ShapedFrom.shaped {tokens : List Token} {p : Part} (h : ShapedFrom tokens p) :
    p.Shaped := by
  cases p with
  | statement s =>
      cases s with
      | useClass node path name => trivial
      | _ => exact h
  | _ => exact h

theorem ShapedFrom.mono {tokens tokens' : List Token} {p : Part} (h : ShapedFrom tokens p)
    (more : tokens <:+: tokens') : ShapedFrom tokens' p := by
  cases p with
  | statement s =>
      cases s with
      | useClass node path name =>
          obtain ⟨run, use, opens, closes, inside, stored, named, span⟩ := h
          exact .intro (run.trans more) use opens closes inside stored named span
      | _ => exact h
  | _ => exact h

/-- A part has an identity that was given away between the cursors, and a span in the text; a name
lies in the tokens read between them, an identifier is one of them, and a type consists of several,
with nothing but blanks in between. -/
structure Fits (b c : Cursor) (p : Part) : Prop where
  id : ∀ i ∈ p.id?, b.nextId ≤ i ∧ i < c.nextId
  span : ∀ s ∈ p.span?, s.start ≤ s.stop ∧ s.stop ≤ c.stop
  name : ∀ n ∈ p.name?, b.offset ≤ n.span.start ∧ n.span.start < n.span.stop ∧
    n.span.stop ≤ c.lastStop
  token : ∀ i, p = .ident i → ∃ t ∈ b.rest, t.kind = .ident ∧ t.text = i.text ∧ t.span = i.span
  dotted : ∀ t, p = .type t → ∃ ts, ts <:+: b.rest ∧ Dotted t.segments ts ∧ Fill ts t.span
  shaped : ShapedFrom b.rest p

/-- The parts lie between the cursors, one beside the other, and so does all that is in them. -/
structure Neatly (b c : Cursor) (ps : List Part) : Prop where
  within : ∀ p ∈ ps, ∀ n ∈ p.node?, b.offset ≤ n.span.start ∧ n.span.stop ≤ c.lastStop
  beside : ps.Pairwise Beside
  neat : ∀ p ∈ allOf ps, p.Neat

/-- What is known of parts that were read between two cursors. -/
structure Collected (b c : Cursor) (ps : List Part) : Prop where
  laid : b.Laid
  behind : c.Behind b
  fits : ∀ p ∈ allOf ps, Fits b c p
  apart : (allOf ps).Pairwise Apart
  ordered : (ps.flatMap declarables).Pairwise fun i j => Follows i.node j.node
  neatly : c.errors = b.errors → Neatly b c ps

section Between

variable {a b c d : Cursor} {p : Part} {ps qs : List Part}

theorem Fits.mono (fits : Fits b c p) (laid : a.Laid) (front : b.Behind a) (back : d.Behind c)
    (within : c.Behind b) : Fits a d p where
  id i member := by
    obtain ⟨least, most⟩ := fits.id i member
    exact ⟨Nat.le_trans front.nextId least, Nat.lt_of_lt_of_le most back.nextId⟩
  span s member := by
    have := fits.span s member
    have := back.stop
    omega
  name n member := by
    have := fits.name n member
    have := front.offset_le laid
    have := (back.laid (within.laid (front.laid laid).1).1).2
    omega
  token i eq := by
    obtain ⟨t, member, same⟩ := fits.token i eq
    exact ⟨t, front.rest.subset member, same⟩
  dotted t eq := by
    obtain ⟨ts, run, same⟩ := fits.dotted t eq
    exact ⟨ts, run.trans front.rest.isInfix, same⟩
  shaped := fits.shaped.mono front.rest.isInfix

/-- Parts that were read one after the other have different identities, and names follow. -/
theorem Fits.apart {q : Part} (fits : Fits b c p) (fits' : Fits c d q) (laid : c.Laid) :
    p.Apart q where
  id i here there :=
    Nat.lt_irrefl i (Nat.lt_of_lt_of_le (fits.id i here).2 (fits'.id i there).1)
  name m here n there := by
    have between := laid.lastStop_le_offset
    have before := (fits.id m.id (id?_of_name? here)).2
    have behind := (fits'.id n.id (id?_of_name? there)).1
    have ends := fits.name m here
    have begins := fits'.name n there
    exact .inl ⟨Nat.lt_of_lt_of_le before behind, by omega⟩

/-- A name that may be declared has an identity given away between the cursors, and lies in the
tokens read between them. -/
theorem within_of_mem_declarables {i : Ident} (fits : ∀ p ∈ allOf ps, Fits b c p)
    (member : i ∈ ps.flatMap declarables) :
    (b.nextId ≤ i.id ∧ i.id < c.nextId) ∧ b.offset ≤ i.span.start ∧ i.span.stop ≤ c.lastStop := by
  obtain ⟨p, among, member⟩ := List.mem_flatMap.mp member
  obtain ⟨⟨q, inside, id⟩, r, inside', writes⟩ := of_mem_declarables member
  have all := (all_sublist_allOf among).subset
  refine ⟨(fits q (all inside)).id i.id id, ?_⟩
  have place : ∃ n ∈ r.name?, n.span = i.span := by
    generalize i.text = text, i.span = span at writes
    cases writes with
    | ident j => exact ⟨_, rfl, rfl⟩
    | type t => exact ⟨_, rfl, rfl⟩
  obtain ⟨n, named, span⟩ := place
  have within := (fits r (all inside')).name n named
  rw [span] at within
  exact ⟨within.1, within.2.2⟩

theorem Neatly.append (front : Neatly b c ps) (back : Neatly c d qs) (laid : b.Laid)
    (behind : c.Behind b) (onward : d.Behind c) : Neatly b d (ps ++ qs) := by
  have laid' := (behind.laid laid).1
  have between := laid'.lastStop_le_offset
  constructor
  · intro p member n node
    rcases List.mem_append.mp member with member | member
    · have := front.within p member n node
      have := (onward.laid laid').2
      omega
    · have := back.within p member n node
      have := behind.offset_le laid
      omega
  · -- what is read first ends where the rest begins, or before
    rw [List.pairwise_append]
    refine ⟨front.beside, back.beside, fun p first q second => ?_⟩
    apply beside_of_le
    intro m here n there
    have := front.within p first m here
    have := back.within q second n there
    omega
  · intro p member
    rw [allOf_append] at member
    exact (List.mem_append.mp member).elim (front.neat p) (back.neat p)

namespace Collected

theorem laid_next (h : Collected b c ps) : c.Laid := (h.behind.laid h.laid).1

/-- Where tokens are passed over, no parts are gathered. -/
theorem nothing (laid : c.Laid) (behind : d.Behind c) : Collected c d [] :=
  ⟨laid, behind, nofun, .nil, .nil, fun _ => ⟨nofun, .nil, nofun⟩⟩

/-- Parts that were read one after the other. -/
theorem append (front : Collected b c ps) (back : Collected c d qs) :
    Collected b d (ps ++ qs) where
  laid := front.laid
  behind := back.behind.trans front.behind
  fits p member := by
    rw [allOf_append] at member
    rcases List.mem_append.mp member with member | member
    · exact (front.fits p member).mono front.laid (.refl b) back.behind front.behind
    · exact (back.fits p member).mono front.laid front.behind (.refl d) back.behind
  apart := by
    rw [allOf_append, List.pairwise_append]
    refine ⟨front.apart, back.apart, fun p first q second => ?_⟩
    exact (front.fits p first).apart (back.fits q second) front.laid_next
  ordered := by
    rw [List.flatMap_append, List.pairwise_append]
    refine ⟨front.ordered, back.ordered, fun i first j second => ?_⟩
    have between := front.laid_next.lastStop_le_offset
    obtain ⟨before, ends⟩ := within_of_mem_declarables front.fits first
    obtain ⟨behind, begins⟩ := within_of_mem_declarables back.fits second
    exact ⟨Nat.lt_of_lt_of_le before.2 behind.1, by simp only [Ident.node]; omega⟩
  neatly clean := by
    obtain ⟨first, second⟩ := front.behind.errors_eq back.behind clean
    exact (front.neatly first).append (back.neatly second) front.laid front.behind back.behind

/-- Parts in which nothing is declared, in another order. -/
theorem perm (h : Collected b c ps) (same : ps.Perm qs) (plain : ∀ p ∈ ps, p.isPlain = true) :
    Collected b c qs where
  laid := h.laid
  behind := h.behind
  fits p member := h.fits p ((allOf_perm same).mem_iff.mpr member)
  apart := h.apart.perm (allOf_perm same) Apart.symm
  ordered := by
    rw [flatMap_declarables_of_isPlain fun p member => plain p (same.mem_iff.mpr member)]
    exact .nil
  neatly clean := by
    have neatly := h.neatly clean
    refine ⟨fun p member => neatly.within p (same.mem_iff.mpr member), ?_,
      fun p member => neatly.neat p ((allOf_perm same).mem_iff.mpr member)⟩
    have both : ps.Pairwise fun p q => p.Beside q ∧ q.Beside p := by
      apply neatly.beside.imp_of_mem
      intro p q _ member beside
      refine ⟨beside, beside.symm fun s statement => ?_⟩
      have impossible := plain q member
      rw [statement] at impossible
      cases impossible
    exact (both.perm same And.symm).imp And.left

/-- A part put around all parts that were gathered. -/
theorem around (inner : Collected b c p.children) (fits : Fits b c p)
    (fresh : ∀ q ∈ allOf p.children, p.Apart q)
    (whole : c.errors = b.errors → p.isMissing = false ∧ ∀ n ∈ p.node?,
      b.offset ≤ n.span.start ∧ n.span.start < n.span.stop ∧ n.span.stop ≤ c.lastStop ∧
        (p.children = [] ∨ n.span = ⟨b.offset, c.lastStop⟩)) : Collected b c [p] where
  laid := inner.laid
  behind := inner.behind
  fits q member := by
    rw [allOf_singleton] at member
    rcases List.mem_cons.mp member with rfl | member
    · exact fits
    · exact inner.fits q member
  apart := by
    rw [allOf_singleton]
    exact List.pairwise_cons.mpr ⟨fresh, inner.apart⟩
  ordered := by
    rw [List.flatMap_singleton]
    rcases declarables_cases p with ⟨i, one⟩ | same | none
    · rw [one]
      exact List.pairwise_singleton _ _
    · rw [same]
      exact inner.ordered
    · rw [none]
      exact .nil
  neatly clean := by
    obtain ⟨present, place⟩ := whole clean
    have children := inner.neatly clean
    constructor
    · intro q member n node
      cases List.mem_singleton.mp member
      have := place n node
      omega
    · exact List.pairwise_singleton _ _
    · intro q member
      rw [allOf_singleton] at member
      rcases List.mem_cons.mp member with rfl | member
      · refine ⟨present, fun n node => (place n node).2.1, ?_, children.beside⟩
        intro child inside m lies n node
        rcases (place n node).2.2.2 with none | span
        · rw [none] at inside
          cases inside
        · rw [span]
          exact children.within child inside m lies
      · exact children.neat q member

/-- A name that was read last. -/
theorem name {n : Node} (laid : c.Laid) (behind : d.Behind c) (node : p.node? = some n)
    (named : p.name? = some n) (id : n.id = d.nextId)
    (span : n.span.start = c.offset ∧ c.offset < n.span.stop ∧ n.span.stop ≤ d.lastStop)
    (token : ∀ i, p = .ident i →
      ∃ t ∈ c.rest, t.kind = .ident ∧ t.text = i.text ∧ t.span = i.span)
    (dotted : ∀ t, p = .type t → ∃ ts, ts <:+: c.rest ∧ Dotted t.segments ts ∧ Fill ts t.span) :
    Collected c d.skipId [p] := by
  have leaf : p.children = [] := by cases p <;> first | rfl | cases named
  have present : p.isMissing = false := by cases p <;> first | rfl | cases named
  have identity : p.id? = some n.id := by cases p <;> simp_all [id?, node?, name?]
  have place : p.span? = some n.span := by cases p <;> simp_all [span?, node?, name?]
  have onward := d.skipId_behind.trans behind
  apply around
  · rw [leaf]
    exact nothing laid onward
  · constructor
    · intro i given
      cases identity.symm.trans given
      rw [id]
      exact ⟨behind.nextId, Nat.lt_succ_self _⟩
    · intro s taken
      cases place.symm.trans taken
      have onward := (behind.laid laid).1
      have room := onward.lastStop_le_offset
      have room' := onward.offset_le_stop
      exact ⟨by omega, Nat.le_trans span.2.2 (Nat.le_trans room room')⟩
    · intro m taken
      cases named.symm.trans taken
      exact ⟨by omega, by omega, span.2.2⟩
    · exact token
    · exact dotted
    · cases p <;> first | exact trivial | cases named
  · rw [leaf]
    simp
  · intro _
    refine ⟨present, fun m taken => ?_⟩
    cases node.symm.trans taken
    exact ⟨by omega, by omega, span.2.2, .inl leaf⟩

/-- The identity of a parameter. -/
theorem param (laid : c.Laid) : Collected c c.skipId [.param c.nextId] := by
  apply around
  · exact nothing laid c.skipId_behind
  · refine ⟨fun i given => ?_, nofun, nofun, nofun, nofun, trivial⟩
    cases given
    exact ⟨Nat.le_refl _, Nat.lt_succ_self _⟩
  · nofun
  · exact fun _ => ⟨rfl, nofun⟩

/-- A span that belongs to no node. -/
theorem optionsSpan {s : Span} (laid : c.Laid) (ordered : s.start ≤ s.stop)
    (within : s.stop ≤ c.stop) : Collected c c [.optionsSpan s] := by
  apply around
  · exact nothing laid (.refl c)
  · refine ⟨nofun, fun s' taken => ?_, nofun, nofun, nofun, trivial⟩
    cases taken
    exact ⟨ordered, within⟩
  · nofun
  · exact fun _ => ⟨rfl, nofun⟩

/-- A node other than a name, from where the first of its children may begin up to where the last
token of it was read. -/
theorem node {n : Node} (inner : Collected b c ps) (node : p.node? = some n)
    (children : p.children = ps) (span : n.span = c.spanFrom b.offset)
    (unnamed : p.name? = none) (given : b.nextId ≤ n.id ∧ n.id < c.nextId)
    (fresh : ∀ q ∈ allOf ps, n.id ∉ q.id?)
    (filled : c.errors = b.errors → p.isMissing = false ∧ b.offset < c.lastStop)
    (shaped : ShapedFrom b.rest p) : Collected b c [p] := by
  cases children
  have identity : p.id? = some n.id := by cases p <;> simp_all [id?, node?, name?]
  have place : p.span? = some n.span := by cases p <;> simp_all [span?, node?, name?]
  have room := inner.laid_next.lastStop_le_offset
  have room' := inner.laid_next.offset_le_stop
  have before := inner.behind.offset_le inner.laid
  apply around
  · exact inner
  · constructor
    · intro i taken
      cases identity.symm.trans taken
      exact given
    · intro s taken
      cases place.symm.trans taken
      rw [span, spanFrom]
      exact ⟨Nat.le_max_right _ _, Nat.max_le.mpr ⟨by omega, by omega⟩⟩
    · rw [unnamed]
      simp
    · rintro i rfl
      cases unnamed
    · rintro t rfl
      cases unnamed
    · exact shaped
  · intro q member
    refine ⟨fun i taken => ?_, ?_⟩
    · cases identity.symm.trans taken
      exact fresh q member
    · rw [unnamed]
      simp
  · intro clean
    obtain ⟨present, filled⟩ := filled clean
    refine ⟨present, fun m taken => ?_⟩
    cases node.symm.trans taken
    have most : max c.lastStop b.offset = c.lastStop := Nat.max_eq_left (by omega)
    rw [span, spanFrom, most]
    exact ⟨Nat.le_refl _, filled, Nat.le_refl _, .inr rfl⟩

/-- Closes a node whose identity was given away before its children were read. -/
theorem complete (acc : Collected c.skipId d ps)
    (node : p.node? = some ⟨c.nextId, d.spanFrom c.offset⟩) (children : p.children = ps)
    (unnamed : p.name? = none) (filled : d.errors = c.errors → p.isMissing = false ∧
      c.offset < d.lastStop) (shaped : ShapedFrom c.rest p) : Collected c d [p] := by
  have outside : Collected c d ps := (nothing (c := c) acc.laid c.skipId_behind).append acc
  -- the identity of the node comes before all that were given away since
  apply outside.node node children rfl unnamed ⟨Nat.le_refl _, acc.behind.nextId⟩ ?_ filled shaped
  intro q member taken
  exact absurd (acc.fits q member |>.id _ taken).1 (Nat.not_succ_le_self _)

end Collected

/-! ## Tokens that fit nowhere -/

/-- A statement may hold the token wherever else it fits: a remark holds whatever is on its line,
and the path of a file in `use ::path::Class` whatever comes before the second `::`. -/
inductive Excused (tokens : List Token) (t : Token) : Statement → Prop
  | remark {node : Node} (within : node.span.start ≤ t.start ∧ t.stop ≤ node.span.stop) :
    Excused tokens t (.rem node)
  | path {node : Node} {path : Option String} {name : Ident} {word first second last : Token}
    {between : List Token} (run : word :: first :: (between ++ [second, last]) <:+: tokens)
    (use : word.isKeyword "use" = true) (opens : first.kind = .colonColon)
    (closes : second.kind = .colonColon) (inside : ∀ u ∈ between, u.kind ≠ .colonColon)
    (joined : path.getD "" = String.join (between.map Token.text))
    (named : last.text = name.text ∧ last.span = name.span)
    (span : node.span = ⟨word.start, last.stop⟩) (member : t ∈ between) :
    Excused tokens t (.useClass node path name)

theorem Excused.mono {tokens tokens' : List Token} {t : Token} {s : Statement}
    (excused : Excused tokens t s) (more : tokens <:+: tokens') : Excused tokens' t s := by
  cases excused with
  | remark within => exact .remark within
  | path run use opens closes inside joined named span member =>
      exact .path (run.trans more) use opens closes inside joined named span member

/-- What is known of parts that were read between two cursors, and of the tokens they were read
from. -/
structure Gathered (b c : Cursor) (ps : List Part) : Prop extends Collected b c ps where
  strays : c.errors = b.errors → ∀ t, Passed b c t → t.kind = .error →
    ∃ s, .statement s ∈ allOf ps ∧ Excused b.rest t s

/-- Something was found wrong between two cursors. -/
structure Failed (b c : Cursor) : Prop where
  behind : c.Behind b
  errors : c.errors ≠ b.errors

namespace Gathered

theorem nothing (laid : c.Laid) (behind : d.Behind c)
    (plain : d.errors = c.errors → ∀ t, Passed c d t → t.kind ≠ .error) : Gathered c d [] :=
  ⟨.nothing laid behind, fun clean t passed stray => absurd stray (plain clean t passed)⟩

theorem start (laid : c.Laid) : Gathered c c [] :=
  nothing laid (.refl c) fun _ _ passed => absurd passed (Passed.not_of_rest_eq rfl)

theorem param (laid : c.Laid) : Gathered c c.skipId [.param c.nextId] :=
  ⟨.param laid, fun _ _ passed => absurd passed (Passed.not_of_rest_eq rfl)⟩

theorem optionsSpan {s : Span} (laid : c.Laid) (ordered : s.start ≤ s.stop)
    (within : s.stop ≤ c.stop) : Gathered c c [.optionsSpan s] :=
  ⟨.optionsSpan laid ordered within, fun _ _ passed => absurd passed (Passed.not_of_rest_eq rfl)⟩

theorem append (front : Gathered b c ps) (back : Gathered c d qs) : Gathered b d (ps ++ qs) where
  toCollected := front.toCollected.append back.toCollected
  strays clean t passed stray := by
    obtain ⟨first, second⟩ := front.behind.errors_eq back.behind clean
    rw [allOf_append]
    rcases passed.split front.behind back.behind with passed | passed
    · obtain ⟨s, member, excused⟩ := front.strays first t passed stray
      exact ⟨s, List.mem_append_left _ member, excused⟩
    · obtain ⟨s, member, excused⟩ := back.strays second t passed stray
      exact ⟨s, List.mem_append_right _ member, excused.mono front.behind.rest.isInfix⟩

/-- The same statements among other parts. -/
theorem regroup (acc : Gathered b c ps) (parts : Collected b c qs)
    (kept : ∀ p ∈ allOf ps, p ∈ allOf qs) : Gathered b c qs where
  toCollected := parts
  strays clean t passed stray := by
    obtain ⟨s, member, excused⟩ := acc.strays clean t passed stray
    exact ⟨s, kept _ member, excused⟩

theorem perm (acc : Gathered b c ps) (same : ps.Perm qs) (plain : ∀ p ∈ ps, p.isPlain = true) :
    Gathered b c qs :=
  acc.regroup (acc.toCollected.perm same plain) fun _ => (allOf_perm same).mem_iff.mp

/-- Goes on over tokens that fit everywhere, or behind something wrong. -/
theorem move (acc : Gathered b c ps) (behind : d.Behind c)
    (plain : d.errors = c.errors → ∀ t, Passed c d t → t.kind ≠ .error) : Gathered b d ps := by
  have moved := acc.append (nothing acc.laid_next behind plain)
  rw [List.append_nil] at moved
  exact moved

theorem skipId (acc : Gathered b c ps) : Gathered b c.skipId ps :=
  acc.move c.skipId_behind fun _ _ passed => absurd passed (Passed.not_of_rest_eq rfl)

theorem report (acc : Gathered b c ps) (fault : Fault) : Gathered b (c.report fault) ps :=
  acc.move (c.report_behind fault) fun clean => absurd clean (List.cons_ne_self _ _)

theorem bump (acc : Gathered b c ps) (next : ∀ t ∈ c.rest.head?, t.kind ≠ .error) :
    Gathered b c.bump ps :=
  acc.move c.bump_behind fun _ t passed => next t passed.bump

theorem bumpAt (acc : Gathered b c ps) {kind : TokenKind} (next : c.isAt kind = true)
    (plain : kind ≠ .error) : Gathered b c.bump ps := by
  refine acc.bump fun t first => ?_
  obtain ⟨ts, rest⟩ := List.head?_eq_some_iff.mp first
  rw [(isAt_iff_head rest kind).mp next]
  exact plain

theorem bumpKeyword (acc : Gathered b c ps) {word : String} (next : c.atKeyword word = true) :
    Gathered b c.bump ps := by
  refine acc.bump fun t first => ?_
  obtain ⟨ts, rest⟩ := List.head?_eq_some_iff.mp first
  simp only [atKeyword, rest, Token.isKeyword, Bool.and_eq_true, beq_iff_eq] at next
  rw [next.1]
  decide

theorem moved (acc : Gathered b c ps) (shorter : c.size < b.size) : b.offset < c.lastStop :=
  acc.behind.offset_lt acc.laid shorter

/-- A part that lies between the cursors takes up room there. -/
theorem moved_of_mem (acc : Gathered b c ps) {n : Node} (member : p ∈ ps)
    (node : p.node? = some n) (clean : c.errors = b.errors) : b.offset < c.lastStop := by
  have neatly := acc.neatly clean
  have within := neatly.within p member n node
  have nonempty := (neatly.neat p (mem_allOf_of_mem member)).nonempty n node
  omega

/-- Closes a node whose identity was given away before its children were read. -/
theorem complete (acc : Gathered c.skipId d ps)
    (node : p.node? = some ⟨c.nextId, d.spanFrom c.offset⟩) (children : p.children = ps)
    (unnamed : p.name? = none) (filled : d.errors = c.errors → p.isMissing = false ∧
      c.offset < d.lastStop) (shaped : ShapedFrom c.rest p) : Gathered c d [p] := by
  have outside : Gathered c d ps := (start (c := c) acc.laid).skipId.append acc
  refine outside.regroup (acc.toCollected.complete node children unnamed filled shaped) ?_
  rw [allOf_singleton, children]
  exact fun q member => List.mem_cons_of_mem p member

/-- Closes a node that is given its identity behind its children. -/
theorem enclose (acc : Gathered b d ps) (node : p.node? = some (d.nodeFrom b.offset))
    (children : p.children = ps) (unnamed : p.name? = none)
    (filled : d.errors = b.errors → p.isMissing = false ∧ b.offset < d.lastStop)
    (shaped : ShapedFrom b.rest p) : Gathered b d.skipId [p] := by
  have onward := acc.skipId
  -- the identity of the node comes behind all that were given away inside
  refine onward.regroup ?_ ?_
  · apply onward.node node children rfl unnamed ⟨acc.behind.nextId, Nat.lt_succ_self _⟩ ?_ filled
      shaped
    intro q member taken
    exact absurd (acc.fits q member |>.id _ taken).2 (Nat.lt_irrefl _)
  · rw [allOf_singleton, children]
    exact fun q member => List.mem_cons_of_mem p member

end Gathered

namespace Failed

theorem early (failed : Failed c d) (before : c.Behind b) : Failed b d where
  behind := failed.behind.trans before
  errors clean := failed.errors (before.errors_eq failed.behind clean).2

theorem late (failed : Failed b c) (behind : d.Behind c) : Failed b d where
  behind := behind.trans failed.behind
  errors clean := failed.errors (failed.behind.errors_eq behind clean).1

/-- Something went wrong behind an identity that was given away. -/
theorem outside (failed : Failed c.skipId d) : Failed c d := failed.early c.skipId_behind

/-- Behind something wrong the parts that were read may be forgotten. -/
theorem gathered (failed : Failed b c) (laid : b.Laid) : Gathered b c [] :=
  .nothing laid failed.behind fun clean => absurd clean failed.errors

end Failed

/-- Where something goes wrong, the parts that were read before stay gathered. -/
theorem Gathered.fail (acc : Gathered b c ps) (failed : Failed c d) : Gathered b d ps :=
  acc.move failed.behind fun clean => absurd clean failed.errors

theorem failed_report (c : Cursor) (fault : Fault) : Failed c (c.report fault) :=
  ⟨c.report_behind fault, List.cons_ne_self _ _⟩

end Between

/-! ## Steps -/

section Steps

variable {b c d : Cursor} {α β : Type} [SizeOf α] [HasParts α] [SizeOf β] [HasParts β]
  {ps qs : List Part}

/-- What was found is gathered, or something was found wrong. -/
def Found (b : Cursor) (ps : List Part) : Option α → Cursor → Prop
  | some a, d => Gathered b d (ps ++ parts a)
  | none, d => Failed b d

/-- Reading goes on over tokens that fit, and what is read has no parts. -/
def Step.Passes {α : Type} (r : Step c α) : Prop :=
  ∀ ⦃b ps⦄, Gathered b c ps → r.Ensures fun _ d => Gathered b d ps

/-- The parts of what is read are gathered. -/
def Step.Gathers (r : Step c α) : Prop :=
  ∀ ⦃b ps⦄, Gathered b c ps → r.Ensures fun a d => Gathered b d (ps ++ parts a)

/-- The parts of what is read are gathered, unless something is wrong. -/
def Step.Finds (r : Step c (Option α)) : Prop :=
  ∀ ⦃b ps⦄, Gathered b c ps → r.Ensures (Found b ps)

/-- Where a token was looked for, it is read, or reported as missing. -/
def Checked (b : Cursor) (ps : List Part) : Bool → Cursor → Prop
  | true, d => Gathered b d ps
  | false, d => Failed b d

/-- A token that is looked for is read, unless it is missing. -/
def Step.Checks (r : Step c Bool) : Prop :=
  ∀ ⦃b ps⦄, Gathered b c ps → r.Ensures (Checked b ps)

/-- What is gathered since reading began adds to what was gathered before. -/
theorem Step.Gathers.of_start {r : Step c α}
    (h : Gathered c c [] → r.Ensures fun a d => Gathered c d (parts a)) : r.Gathers :=
  fun _ _ acc => (h (.start acc.laid_next)).imp acc.append

theorem Step.Finds.of_start {r : Step c (Option α)}
    (h : Gathered c c [] → r.Ensures (Found c [])) : r.Finds := by
  intro b ps acc
  refine (h (.start acc.laid_next)).imp fun {a? d} found => ?_
  cases a? with
  | none => exact Failed.early found acc.behind
  | some a => exact acc.append found

theorem Step.Finds.ifSome {r : Step c (Option α)} (h : r.Finds) (acc : Gathered b c ps)
    {f : (a : α) → (d : Cursor) → d.size ≤ c.size → Step d (Option β)}
    (next : ∀ (a : α) (d : Cursor) (l : d.size ≤ c.size), Gathered b d (ps ++ parts a) →
      (f a d l).Ensures (Found b qs)) : (r.ifSome f).Ensures (Found b qs) :=
  Step.Ensures.ifSome (h acc) (fun failed => failed) next

theorem Step.Checks.ifTrue {r : Step c Bool} (h : r.Checks) (acc : Gathered b c ps)
    {f : (d : Cursor) → d.size ≤ c.size → Step d (Option β)}
    (next : ∀ (d : Cursor) (l : d.size ≤ c.size), Gathered b d ps →
      (f d l).Ensures (Found b qs)) : (r.ifTrue f).Ensures (Found b qs) :=
  Step.Ensures.ifTrue (h acc) (fun failed => failed) next

/-- A token that is missing is passed over, too. -/
theorem Step.Checks.passes {r : Step c Bool} (h : r.Checks) : r.Passes := by
  intro b ps acc
  apply (h (.start acc.laid_next)).imp
  intro isRead d read
  cases isRead with
  | true =>
      have all := acc.append read
      rwa [List.append_nil] at all
  | false => exact acc.fail read

/-- Where what is looked for may be left out, nothing is gathered instead. -/
theorem Step.Finds.gathers {r : Step c (Option α)} (h : r.Finds) : r.Gathers := by
  intro b ps acc
  apply (h (.start acc.laid_next)).imp
  intro a? d found
  cases a? with
  | none =>
      rw [parts_none, List.append_nil]
      exact acc.fail found
  | some a => exact acc.append found

theorem Found.map {f : α → β} {a? : Option α} (found : Found b ps a? d)
    (same : ∀ a, ps ++ parts a = qs ++ parts (f a)) : Found b qs (a?.map f) d := by
  cases a? with
  | none => exact found
  | some a =>
      show Gathered b d (qs ++ parts (f a))
      rw [← same a]
      exact found

end Steps

end BbjAnalysis.Parser
