import BbjAnalysis.Proofs.Java.Resolver

/-! # Calls of a resolver side by side

Calls of one resolver do not wait for each other: between two acts of a call, others may act. A
look-up reads the cache, reads the generation, asks the catalog, and keeps the answer. To reload
is one act. To replace the catalog is two: the new catalog is put in place, then all answers are
dropped; in between, answers of the former catalog may still be kept.

At any other time every kept answer is that of the present catalog, since an answer that was found
in an earlier generation is not kept (`Traffic.Sound`). So a look-up that begins when no catalog is
being replaced answers as the catalog does, and one that begins when another look-up of the name is
over does not ask the catalog again (`Traffic.run_faithful`).
-/

namespace BbjAnalysis.Java

/-! ## What a catalog is asked -/

theorem segments_ne_nil (cs : List Char) : segments cs ≠ [] := by
  cases cs with
  | nil => simp [segments]
  | cons c cs =>
      cases rest : segments cs with
      | nil => exact absurd rest (segments_ne_nil cs)
      | cons s ss =>
          simp only [segments, rest]
          split <;> simp

theorem segments_append (before behind : List Char) :
    segments (before ++ '.' :: behind) = segments before ++ segments behind := by
  induction before with
  | nil => simp [segments]
  | cons c before ih =>
      cases rest : segments before with
      | nil => exact absurd rest (segments_ne_nil before)
      | cons s ss =>
          simp only [List.cons_append, segments, ih, rest]
          split <;> simp

/-- Owner and member are what stands before and behind a dot. -/
theorem toList_of_ownerAndMember {name owner member : String}
    (parted : ownerAndMember name = some (owner, member)) :
    name.toList = owner.toList ++ '.' :: member.toList := by
  unfold ownerAndMember at parted
  generalize reversed : name.toList.reverse = chars at parted
  generalize isInside : (fun c : Char => decide (c ≠ '.')) = inside at parted
  have left : chars.drop (chars.takeWhile inside).length = chars.dropWhile inside := by
    calc chars.drop (chars.takeWhile inside).length
        = (chars.takeWhile inside ++ chars.dropWhile inside).drop
            (chars.takeWhile inside).length := by rw [List.takeWhile_append_dropWhile]
      _ = chars.dropWhile inside := List.drop_left
  have whole : chars.takeWhile inside ++ chars.dropWhile inside = chars :=
    List.takeWhile_append_dropWhile
  have stops := List.head?_dropWhile_not inside chars
  simp only [left] at parted
  cases behind : chars.dropWhile inside with
  | nil => simp [behind] at parted
  | cons c rest =>
      have dot : c = '.' := by
        rw [behind, ← isInside] at stops
        simpa using stops
      simp only [behind, Option.some.injEq, Prod.mk.injEq] at parted
      rw [behind, dot] at whole
      rw [← List.reverse_reverse name.toList, reversed, ← whole, ← parted.1, ← parted.2]
      simp

theorem isQualifiedName_owner {name owner member : String}
    (parted : ownerAndMember name = some (owner, member))
    (qualified : isQualifiedName name = true) : isQualifiedName owner = true := by
  unfold isQualifiedName at *
  rw [toList_of_ownerAndMember parted, segments_append, List.all_append, Bool.and_eq_true]
    at qualified
  exact qualified.1

namespace ClassSource

variable (c : ClassSource) (name : String)

theorem length_query_le : (c.query name).2.length ≤ 2 := by
  unfold query
  split
  · split
    · simp
    · split <;> simp
  · simp

theorem query_of_malformed (malformed : isQualifiedName name = false) :
    (c.query name).2 = [] := by
  simp [query, malformed]

/-- The catalog is only asked for names that a class can have. -/
theorem isQualifiedName_of_mem_query {asked : String} (member : asked ∈ (c.query name).2) :
    isQualifiedName asked = true := by
  unfold query at member
  split at member
  · next qualified =>
    split at member
    · simp_all
    · split at member
      · next owner last reading =>
        obtain ⟨parted, -⟩ := Option.filter_eq_some_iff.mp reading
        have wellFormed := isQualifiedName_owner parted qualified
        simp only [List.mem_cons, List.not_mem_nil, or_false] at member
        rcases member with rfl | rfl
        · exact qualified
        · exact wellFormed
      · simp_all
  · simp at member

end ClassSource

namespace Resolver

variable (r : Resolver) (name : String) (generation : Nat) (answer : Answer)

theorem keep_catalog : (r.keep name generation answer).catalog = r.catalog := by
  unfold keep
  split
  · split <;> rfl
  · rfl

theorem keep_generation : (r.keep name generation answer).generation = r.generation := by
  unfold keep
  split
  · split <;> rfl
  · rfl

theorem keep_asked : (r.keep name generation answer).asked = r.asked := by
  unfold keep
  split
  · split <;> rfl
  · rfl

variable {r name generation answer}

theorem cached_keep_self (now : r.generation = generation) :
    ((r.keep name generation answer).cached? name).isSome = true := by
  unfold keep
  split
  · split
    · next kept => simp [kept]
    · simp [cached?, OrderedMap.get?_insert]
  · contradiction

theorem cached_keep {other : String} (cached : (r.cached? other).isSome = true) :
    ((r.keep name generation answer).cached? other).isSome = true := by
  unfold keep
  split
  · split
    · exact cached
    · simp only [cached?, OrderedMap.get?_insert]
      split
      · rfl
      · exact cached
  · exact cached

end Resolver

/-! ## Calls -/

/-- What a resolver can be told to do. -/
inductive Request where
  | resolve (name : String)
  | reload
  | replaceCatalog (catalog : ClassSource)

/-- A call of a resolver, and how far it has come. -/
inductive Call where
  /-- The cache is read next. -/
  | resolving (name : String)
  /-- The cache had no answer; the generation is read next. -/
  | missed (name : String)
  /-- The catalog is asked next. -/
  | numbered (name : String) (generation : Nat)
  /-- The catalog was asked for some class names; its answer is kept next. -/
  | answered (name : String) (generation : Nat) (answer : Answer) (asked : List String)
  /-- The look-up is over. -/
  | resolved (name : String) (answer : Answer) (asked : List String)
  | reloading
  | replacing (catalog : ClassSource)
  /-- Another catalog was put in place; all answers are dropped next. -/
  | replaced
  | finished

/-- The call that a request begins. -/
def Request.call : Request → Call
  | .resolve name => .resolving name
  | .reload => .reloading
  | .replaceCatalog catalog => .replacing catalog

namespace Call

/-- The name that is looked up. -/
@[simp] def name? : Call → Option String
  | resolving name | missed name | numbered name _ | answered name _ _ _ | resolved name _ _ =>
      some name
  | reloading | replacing _ | replaced | finished => none

/-- The generation that was read. -/
@[simp] def generation? : Call → Option Nat
  | numbered _ generation | answered _ generation _ _ => some generation
  | _ => none

/-- The answer that was found. -/
@[simp] def answer? : Call → Option Answer
  | answered _ _ answer _ | resolved _ answer _ => some answer
  | _ => none

/-- The class names that the catalog was asked for. -/
@[simp] def asked : Call → List String
  | answered _ _ _ asked | resolved _ _ asked => asked
  | _ => []

/-- Whether the call replaces the catalog and is not over. -/
@[simp] def isReplacement : Call → Bool
  | replacing _ | replaced => true
  | _ => false

/-- Whether all answers are dropped next. -/
@[simp] def dropsAnswers : Call → Bool
  | reloading | replaced => true
  | _ => false

end Call

/-- The next act of a call. What is over does nothing more. -/
def Resolver.act (r : Resolver) : Call → Resolver × Call
  | .resolving name =>
      match r.cached? name with
      | some answer => (r, .resolved name answer [])
      | none => (r, .missed name)
  | .missed name => (r, .numbered name r.generation)
  | .numbered name generation =>
      (r.noteAsked (r.catalog.query name).2,
        .answered name generation (r.catalog.query name).1 (r.catalog.query name).2)
  | .answered name generation answer asked =>
      (r.keep name generation answer, .resolved name answer asked)
  | .reloading => (r.reload, .finished)
  | .replacing catalog => (r.setCatalog catalog, .replaced)
  | .replaced => (r.reload, .finished)
  | call@(.resolved _ _ _) | call@.finished => (r, call)

/-- A resolver with all its calls, in the order in which they began. -/
structure Traffic where
  resolver : Resolver
  calls : List Call

/-- What happens next: a call begins, or the call at a place goes on by one act. -/
inductive Event where
  | begins (request : Request)
  | goesOn (place : Nat)

namespace Traffic

/-- A resolver that nothing was asked of yet. -/
def ofCatalog (c : ClassSource) : Traffic := ⟨.ofCatalog c, []⟩

def next (t : Traffic) : Event → Traffic
  | .begins request => ⟨t.resolver, t.calls ++ [request.call]⟩
  | .goesOn place =>
      match t.calls[place]? with
      | some call => ⟨(t.resolver.act call).1, t.calls.set place (t.resolver.act call).2⟩
      | none => t

/-- Every order of the acts of every number of calls is such a run. -/
def run (t : Traffic) (events : List Event) : Traffic := events.foldl next t

theorem run_cons (t : Traffic) (e : Event) (events : List Event) :
    t.run (e :: events) = (t.next e).run events := rfl

/-- What every event of a run keeps holds at its end. -/
theorem run_keeps {P : Traffic → Prop} {events : List Event}
    (step : ∀ t, P t → ∀ e ∈ events, P (t.next e)) {t : Traffic} (holds : P t) :
    P (t.run events) := by
  induction events generalizing t with
  | nil => exact holds
  | cons e rest ih =>
      apply ih
      · intro t holds e' member
        exact step t holds e' (List.mem_cons_of_mem e member)
      · exact step t holds e List.mem_cons_self

/-- A call that goes on stands between those before and behind it, which stay as they are. -/
theorem next_goesOn {t : Traffic} {place : Nat} {call : Call} (at_ : t.calls[place]? = some call) :
    ∃ before behind, before.length = place ∧ t.calls = before ++ call :: behind ∧
      t.next (.goesOn place) =
        ⟨(t.resolver.act call).1, before ++ (t.resolver.act call).2 :: behind⟩ := by
  obtain ⟨within, same⟩ := List.getElem?_eq_some_iff.mp at_
  have parts : t.calls = t.calls.take place ++ call :: t.calls.drop (place + 1) := by
    rw [← same, List.getElem_cons_drop, List.take_append_drop]
  refine ⟨t.calls.take place, t.calls.drop (place + 1), ?_, parts, ?_⟩
  · rw [List.length_take]
    omega
  · simp only [next, at_]
    rw [List.set_eq_take_append_cons_drop, if_pos within]

/-! ## Kept answers -/

/-- An answer that the call has found is the one of the catalog. -/
def AnswersAs (c : ClassSource) (call : Call) : Prop :=
  ∀ name ∈ call.name?, ∀ answer ∈ call.answer?, answer = (c.query name).1

theorem answersAs_of_unanswered {c : ClassSource} {call : Call} (unanswered : call.answer? = none) :
    AnswersAs c call := by
  intro name _ answer found
  rw [unanswered] at found
  cases found

/-- What holds whatever the calls do. No generation was read that is still to come. Unless a new
catalog is in place whose reload is still to come, the kept answers, and those that may yet be
kept, are the ones of the catalog. -/
structure Sound (t : Traffic) : Prop where
  read : ∀ call ∈ t.calls, ∀ g ∈ call.generation?, g ≤ t.resolver.generation
  faithful : .replaced ∉ t.calls → t.resolver.Faithful
  current : .replaced ∉ t.calls → ∀ call ∈ t.calls,
    call.generation? = some t.resolver.generation → AnswersAs t.resolver.catalog call

theorem sound_ofCatalog (c : ClassSource) : (ofCatalog c).Sound where
  read := by simp [ofCatalog]
  faithful _ := Resolver.faithful_ofCatalog c
  current := by simp [ofCatalog]

theorem Sound.begins {t : Traffic} (sound : t.Sound) (request : Request) :
    (t.next (.begins request)).Sound := by
  have fresh : request.call.generation? = none ∧ request.call ≠ .replaced := by
    cases request <;> simp [Request.call, Call.generation?]
  have same : .replaced ∉ t.calls ++ [request.call] → .replaced ∉ t.calls := by
    simp only [List.mem_append, not_or]
    exact And.left
  constructor
  · intro call member
    rcases List.mem_append.mp member with member | member
    · exact sound.read call member
    · rw [List.mem_singleton.mp member, fresh.1]
      simp
  · intro steady
    exact sound.faithful (same steady)
  · intro steady call member read
    rcases List.mem_append.mp member with member | member
    · exact sound.current (same steady) call member read
    · rw [List.mem_singleton.mp member, fresh.1] at read
      cases read

section Act

variable {r : Resolver} {before behind : List Call} {call : Call}

/-- A call among others is itself or one of the others. -/
theorem mem_around {x : Call} :
    x ∈ before ++ call :: behind ↔ x = call ∨ x ∈ before ++ behind := by
  simp only [List.mem_append, List.mem_cons]
  exact or_left_comm

/-- An act that leaves catalog and generation alone. -/
theorem Sound.quiet (sound : Sound ⟨r, before ++ call :: behind⟩) {r' : Resolver} {call' : Call}
    (catalog : r'.catalog = r.catalog) (generation : r'.generation = r.generation)
    (ongoing : call ≠ .replaced) (read : ∀ g ∈ call'.generation?, g ≤ r.generation)
    (faithful : r.Faithful → (call.generation? = some r.generation → AnswersAs r.catalog call) →
      r'.Faithful)
    (current : call'.generation? = some r.generation → AnswersAs r.catalog call') :
    Sound ⟨r', before ++ call' :: behind⟩ := by
  have old : .replaced ∉ before ++ call' :: behind → .replaced ∉ before ++ call :: behind := by
    simp only [mem_around, not_or]
    exact fun steady => ⟨ongoing.symm, steady.2⟩
  have self : call ∈ before ++ call :: behind := mem_around.mpr (.inl rfl)
  constructor
  · intro x member g given
    rw [generation]
    rcases mem_around.mp member with rfl | member
    · exact read g given
    · exact sound.read x (mem_around.mpr (.inr member)) g given
  · intro steady
    exact faithful (sound.faithful (old steady)) (sound.current (old steady) call self)
  · intro steady x member
    rw [generation, catalog]
    rcases mem_around.mp member with rfl | member
    · exact current
    · exact sound.current (old steady) x (mem_around.mpr (.inr member))

/-- Dropping all answers sets everything right: what may come back of earlier generations is not
kept any more. -/
theorem Sound.reload (sound : Sound ⟨r, before ++ call :: behind⟩) :
    Sound ⟨r.reload, before ++ .finished :: behind⟩ := by
  have earlier : ∀ x ∈ before ++ .finished :: behind, ∀ g ∈ x.generation?, g ≤ r.generation := by
    intro x member g given
    rcases mem_around.mp member with rfl | member
    · cases given
    · exact sound.read x (mem_around.mpr (.inr member)) g given
  constructor
  · intro x member g given
    exact Nat.le_succ_of_le (earlier x member g given)
  · intro _
    exact Resolver.faithful_reload r
  · intro _ x member now
    exact absurd (earlier x member _ now) (Nat.not_succ_le_self r.generation)

theorem Sound.act (sound : Sound ⟨r, before ++ call :: behind⟩) :
    Sound ⟨(r.act call).1, before ++ (r.act call).2 :: behind⟩ := by
  have read := sound.read call (mem_around.mpr (.inl rfl))
  cases call with
  | resolving name =>
      simp only [Resolver.act]
      split
      · apply sound.quiet rfl rfl <;> simp
      · apply sound.quiet rfl rfl <;> simp
  | missed name => apply sound.quiet rfl rfl <;> simp [Resolver.act, AnswersAs]
  | numbered name generation =>
      apply sound.quiet
      · rfl
      · rfl
      · simp
      · exact read
      · exact fun faithful _ => faithful
      · simp [Resolver.act, AnswersAs]
  | answered name generation answer asked =>
      apply sound.quiet
      · exact Resolver.keep_catalog r name generation answer
      · exact Resolver.keep_generation r name generation answer
      · simp
      · simp [Resolver.act]
      · intro faithful current
        by_cases now : generation = r.generation
        · rw [current (congrArg some now) name rfl answer rfl]
          exact faithful.keep name generation
        · have missed : r.keep name generation answer = r := if_neg (Ne.symm now)
          rw [Resolver.act, missed]
          exact faithful
      · simp [Resolver.act]
  | reloading => exact sound.reload
  | replaced => exact sound.reload
  | replacing catalog =>
      have between : .replaced ∈ before ++ Call.replaced :: behind := mem_around.mpr (.inl rfl)
      constructor
      · intro x member g given
        rcases mem_around.mp member with rfl | member
        · cases given
        · exact sound.read x (mem_around.mpr (.inr member)) g given
      · exact fun steady => absurd between steady
      · exact fun steady => absurd between steady
  | resolved | finished => exact sound

end Act

theorem Sound.next {t : Traffic} (sound : t.Sound) (e : Event) : (t.next e).Sound := by
  cases e with
  | begins request => exact sound.begins request
  | goesOn place =>
      cases at_ : t.calls[place]? with
      | none =>
          simp only [Traffic.next, at_]
          exact sound
      | some call =>
          obtain ⟨before, behind, -, calls, next⟩ := next_goesOn at_
          rw [next]
          have sound : Sound ⟨t.resolver, before ++ call :: behind⟩ := by
            rw [← calls]
            exact sound
          exact sound.act

theorem Sound.run {t : Traffic} (sound : t.Sound) (events : List Event) :
    (t.run events).Sound :=
  run_keeps (fun _ sound e _ => sound.next e) sound

/-! ## Calls that begin later -/

theorem length_next_le (t : Traffic) (e : Event) :
    t.calls.length ≤ (t.next e).calls.length := by
  cases e with
  | begins request => simp [next]
  | goesOn place =>
      simp only [next]
      split
      · simp
      · exact Nat.le_refl _

/-- What every new call has and every act keeps is kept for all calls from a place on. -/
theorem later_next {P : Call → Prop} {t : Traffic} {n : Nat} (within : n ≤ t.calls.length)
    (holds : ∀ call ∈ t.calls.drop n, P call) (e : Event)
    (begins : ∀ request, e = .begins request → P request.call)
    (goesOn : ∀ place call, e = .goesOn place → t.calls[place]? = some call →
      call ∈ t.calls.drop n → P (t.resolver.act call).2) :
    ∀ call ∈ (t.next e).calls.drop n, P call := by
  intro call member
  cases e with
  | begins request =>
      rw [next, List.drop_append_of_le_length within, List.mem_append, List.mem_singleton] at member
      rcases member with member | rfl
      · exact holds call member
      · exact begins request rfl
  | goesOn place =>
      cases at_ : t.calls[place]? with
      | none =>
          simp only [next, at_] at member
          exact holds call member
      | some former =>
          simp only [next, at_, List.drop_set] at member
          split at member
          · exact holds call member
          · next behind =>
            have inside : former ∈ t.calls.drop n := by
              apply List.mem_of_getElem? (i := place - n)
              rw [List.getElem?_drop, ← at_]
              congr 1
              omega
            rcases List.mem_or_eq_of_mem_set member with member | rfl
            · exact holds call member
            · exact goesOn place former rfl at_ inside

/-- What every new call has and every act keeps is kept for all calls. -/
theorem all_next {P : Call → Prop} {t : Traffic} (holds : ∀ call ∈ t.calls, P call) (e : Event)
    (begins : ∀ request, e = .begins request → P request.call)
    (goesOn : ∀ place call, e = .goesOn place → t.calls[place]? = some call → call ∈ t.calls →
      P (t.resolver.act call).2) :
    ∀ call ∈ (t.next e).calls, P call :=
  later_next (n := 0) (Nat.zero_le _) holds e begins goesOn

/-! ## Answers when no catalog is being replaced -/

/-- No catalog is being replaced, and the calls from a place on find what the catalog says. -/
structure Calm (c : ClassSource) (n : Nat) (t : Traffic) : Prop where
  sound : t.Sound
  within : n ≤ t.calls.length
  catalog : t.resolver.catalog = c
  quiet : ∀ call ∈ t.calls, call.isReplacement = false
  answers : ∀ call ∈ t.calls.drop n, AnswersAs c call

theorem act_of_quiet {r : Resolver} {call : Call} (quiet : call.isReplacement = false) :
    (r.act call).1.catalog = r.catalog ∧ (r.act call).2.isReplacement = false := by
  cases call with
  | resolving name =>
      simp only [Resolver.act]
      split <;> exact ⟨rfl, rfl⟩
  | answered name generation answer asked =>
      exact ⟨Resolver.keep_catalog r name generation answer, rfl⟩
  | replacing | replaced => cases quiet
  | missed | numbered | resolved | reloading | finished => exact ⟨rfl, rfl⟩

/-- A faithful resolver and a call whose answer is right make a right answer. -/
theorem answer_act {r : Resolver} {call : Call} (faithful : r.Faithful)
    (right : AnswersAs r.catalog call) : AnswersAs r.catalog (r.act call).2 := by
  cases call with
  | resolving name =>
      simp only [Resolver.act]
      split
      · next answer kept =>
        intro other same found answer'
        cases same
        cases answer'
        exact faithful name answer kept
      · exact answersAs_of_unanswered rfl
  | numbered name generation => simp [Resolver.act, AnswersAs]
  | answered | resolved => exact right
  | missed | reloading | replacing | replaced | finished => exact answersAs_of_unanswered rfl

variable {c : ClassSource} {n : Nat} {t : Traffic}

theorem Calm.next (calm : t.Calm c n) (e : Event)
    (plain : ∀ catalog, e ≠ .begins (.replaceCatalog catalog)) : (t.next e).Calm c n where
  sound := calm.sound.next e
  within := Nat.le_trans calm.within (length_next_le t e)
  catalog := by
    cases e with
    | begins request => exact calm.catalog
    | goesOn place =>
        simp only [Traffic.next]
        split
        · next call at_ =>
          rw [(act_of_quiet (calm.quiet call (List.mem_of_getElem? at_))).1]
          exact calm.catalog
        · exact calm.catalog
  quiet := by
    apply all_next calm.quiet
    · intro request same
      cases request with
      | replaceCatalog catalog => exact absurd same (plain catalog)
      | resolve | reload => rfl
    · intro _ call _ _ member
      exact (act_of_quiet (calm.quiet call member)).2
  answers := by
    have steady : .replaced ∉ t.calls := by
      intro member
      have := calm.quiet _ member
      cases this
    have faithful := calm.sound.faithful steady
    apply later_next calm.within calm.answers
    · intro request _
      cases request <;> exact answersAs_of_unanswered rfl
    · intro _ call _ _ member
      have right := calm.answers call member
      rw [← calm.catalog] at right ⊢
      exact answer_act faithful right

theorem Calm.run (calm : t.Calm c n) (events : List Event)
    (plain : ∀ catalog, .begins (.replaceCatalog catalog) ∉ events) :
    (t.run events).Calm c n := by
  refine run_keeps ?_ calm
  intro t calm e member
  apply calm.next
  rintro catalog rfl
  exact plain catalog member

/-! ## Asking once -/

/-- The generation counts how often answers were dropped. -/
theorem generation_act (r : Resolver) (call : Call) :
    (r.act call).1.generation = r.generation + if call.dropsAnswers then 1 else 0 := by
  cases call with
  | resolving name =>
      simp only [Resolver.act]
      split <;> rfl
  | answered name generation answer asked =>
      exact Resolver.keep_generation r name generation answer
  | reloading | replaced => rfl
  | missed | numbered | replacing | resolved | finished => rfl

theorem generation_le_next (t : Traffic) (e : Event) :
    t.resolver.generation ≤ (t.next e).resolver.generation := by
  cases e with
  | begins request => exact Nat.le_refl _
  | goesOn place =>
      simp only [next]
      split
      · rw [generation_act]
        exact Nat.le_add_right _ _
      · exact Nat.le_refl _

theorem generation_le_run (t : Traffic) (events : List Event) :
    t.resolver.generation ≤ (t.run events).resolver.generation := by
  refine run_keeps (P := fun t' => t.resolver.generation ≤ t'.resolver.generation) ?_
    (Nat.le_refl _)
  intro t' reached e _
  exact Nat.le_trans reached (generation_le_next t' e)

theorem cached_act {r : Resolver} {call : Call} {name : String}
    (same : (r.act call).1.generation = r.generation) (cached : (r.cached? name).isSome = true) :
    ((r.act call).1.cached? name).isSome = true := by
  cases call with
  | resolving other =>
      simp only [Resolver.act]
      split <;> exact cached
  | answered other generation answer asked => exact Resolver.cached_keep cached
  | reloading | replaced => exact absurd same (Nat.succ_ne_self _)
  | missed | numbered | replacing | resolved | finished => exact cached

theorem cached_next {name : String} (e : Event)
    (same : (t.next e).resolver.generation = t.resolver.generation)
    (cached : (t.resolver.cached? name).isSome = true) :
    ((t.next e).resolver.cached? name).isSome = true := by
  cases e with
  | begins request => exact cached
  | goesOn place =>
      simp only [Traffic.next] at same ⊢
      split at same
      · exact cached_act same cached
      · exact cached

/-- A look-up that is over and whose answer was found in the present generation has left it in the
cache. -/
theorem cached_of_resolved {r : Resolver} {call : Call} {name : String} {answer : Answer}
    {asked : List String} (now : ∀ g ∈ call.generation?, g = r.generation)
    (before : call = .resolved name answer asked → (r.cached? name).isSome = true)
    (ended : (r.act call).2 = .resolved name answer asked) :
    ((r.act call).1.cached? name).isSome = true := by
  cases call with
  | resolving other =>
      simp only [Resolver.act] at ended ⊢
      split at ended
      · next kept =>
        cases ended
        simp [kept]
      · cases ended
  | answered other generation answer' asked' =>
      cases ended
      exact Resolver.cached_keep_self (now generation rfl).symm
  | resolved => exact before ended
  | missed | numbered | reloading | replacing | replaced | finished => cases ended

/-- What was looked up since the generation `g` began is kept as long as it lasts. -/
structure Caching (g n : Nat) (t : Traffic) : Prop where
  sound : t.Sound
  within : n ≤ t.calls.length
  reached : g ≤ t.resolver.generation
  since : ∀ call ∈ t.calls.drop n, ∀ h ∈ call.generation?, g ≤ h
  cached : t.resolver.generation = g → ∀ call ∈ t.calls.drop n,
    ∀ name answer asked, call = .resolved name answer asked →
      (t.resolver.cached? name).isSome = true

theorem Caching.next {g : Nat} (caching : t.Caching g n) (e : Event) :
    (t.next e).Caching g n where
  sound := caching.sound.next e
  within := Nat.le_trans caching.within (length_next_le t e)
  reached := Nat.le_trans caching.reached (generation_le_next t e)
  since := by
    apply later_next caching.within caching.since
    · intro request _
      cases request <;> simp [Request.call]
    · intro _ call _ _ member
      have since := caching.since call member
      cases call with
      | resolving name =>
          simp only [Resolver.act]
          split <;> simp
      | missed name => simpa [Resolver.act] using caching.reached
      | numbered => exact since
      | answered | resolved | reloading | replacing | replaced | finished => simp [Resolver.act]
  cached := by
    intro last
    have grows := generation_le_next t e
    have reached := caching.reached
    have now : t.resolver.generation = g := by omega
    apply later_next (P := fun call => ∀ name answer asked, call = .resolved name answer asked →
      ((t.next e).resolver.cached? name).isSome = true) caching.within
    · intro call member name answer asked ended
      have kept := caching.cached now call member name answer asked ended
      exact cached_next e (last.trans now.symm) kept
    · intro request _ name answer asked ended
      cases request <;> cases ended
    · rintro place call rfl at_ member name answer asked ended
      simp only [Traffic.next, at_]
      apply cached_of_resolved ?_ (caching.cached now call member name answer asked) ended
      intro h read
      have since := caching.since call member h read
      have := caching.sound.read call (List.mem_of_getElem? at_) h read
      omega

theorem Caching.run {g : Nat} (caching : t.Caching g n) (events : List Event) :
    (t.run events).Caching g n :=
  run_keeps (fun _ caching e _ => caching.next e) caching

/-- A call looks up one name all along. -/
theorem name?_act (r : Resolver) (call : Call) : (r.act call).2.name? = call.name? := by
  cases call with
  | resolving name =>
      simp only [Resolver.act]
      split <;> rfl
  | missed | numbered | answered | resolved | reloading | replacing | replaced | finished => rfl

/-- The name is kept as long as the generation `g` lasts, so that no call for it from a place on
has come to ask the catalog. -/
structure Answering (name : String) (g n : Nat) (t : Traffic) : Prop where
  within : n ≤ t.calls.length
  reached : g ≤ t.resolver.generation
  cached : t.resolver.generation = g → (t.resolver.cached? name).isSome = true
  unasked : t.resolver.generation = g → ∀ call ∈ t.calls.drop n, call.name? = some name →
    call = .resolving name ∨ ∃ answer, call = .resolved name answer []

theorem Answering.next {name : String} {g : Nat} (answering : t.Answering name g n) (e : Event) :
    (t.next e).Answering name g n := by
  have grows := generation_le_next t e
  have reached := answering.reached
  constructor
  · exact Nat.le_trans answering.within (length_next_le t e)
  · omega
  · intro last
    exact cached_next e (by omega) (answering.cached (by omega))
  · intro last
    have now : t.resolver.generation = g := by omega
    apply later_next answering.within (answering.unasked now)
    · intro request _ named
      cases request with
      | resolve other =>
          cases named
          exact .inl rfl
      | reload | replaceCatalog => cases named
    · intro _ call _ _ member named
      rw [name?_act] at named
      rcases answering.unasked now call member named with rfl | ⟨answer, rfl⟩
      · obtain ⟨answer, kept⟩ := Option.isSome_iff_exists.mp (answering.cached now)
        simp only [Resolver.act, kept]
        exact .inr ⟨answer, rfl⟩
      · exact .inr ⟨answer, rfl⟩

theorem Answering.run {name : String} {g : Nat} (answering : t.Answering name g n)
    (events : List Event) : (t.run events).Answering name g n :=
  run_keeps (fun _ answering e _ => answering.next e) answering

/-! ## What is asked altogether -/

/-- A call asks what its act adds. -/
theorem asked_act (r : Resolver) (call : Call) : ∃ new,
    (r.act call).1.asked = new.reverse ++ r.asked ∧ (r.act call).2.asked = call.asked ++ new := by
  cases call with
  | numbered name generation => exact ⟨(r.catalog.query name).2, rfl, rfl⟩
  | resolving name =>
      refine ⟨[], ?_⟩
      simp only [Resolver.act]
      split <;> simp
  | answered name generation answer asked =>
      exact ⟨[], Resolver.keep_asked r name generation answer, (List.append_nil asked).symm⟩
  | missed | resolved | reloading | replacing | replaced | finished =>
      exact ⟨[], by simp [Resolver.act, Resolver.reload, Resolver.setCatalog]⟩

/-- The catalogs are asked what the calls ask. -/
theorem asked_next (accounted : (t.calls.flatMap Call.asked).Perm t.resolver.asked) (e : Event) :
    ((t.next e).calls.flatMap Call.asked).Perm (t.next e).resolver.asked := by
  cases e with
  | begins request =>
      have nothing : request.call.asked = [] := by cases request <;> rfl
      rw [Traffic.next, List.flatMap_append, List.flatMap_singleton, nothing, List.append_nil]
      exact accounted
  | goesOn place =>
      cases at_ : t.calls[place]? with
      | none => simpa only [Traffic.next, at_] using accounted
      | some call =>
          obtain ⟨before, behind, -, calls, next⟩ := next_goesOn at_
          obtain ⟨new, asked, adds⟩ := asked_act t.resolver call
          rw [calls, List.perm_iff_count] at accounted
          rw [next, List.perm_iff_count]
          intro name
          have counted := accounted name
          simp only [List.flatMap_append, List.flatMap_cons, List.count_append] at counted ⊢
          rw [asked, adds]
          simp only [List.count_append, List.count_reverse]
          omega

/-- A call asks nothing, or what one query for its name asks. -/
def AsksOnce (call : Call) : Prop :=
  call.asked = [] ∨ ∃ (c : ClassSource) (name : String),
    call.name? = some name ∧ call.asked = (c.query name).2

theorem asksOnce_act {r : Resolver} {call : Call} (once : AsksOnce call) :
    AsksOnce (r.act call).2 := by
  cases call with
  | numbered name generation => exact .inr ⟨r.catalog, name, rfl, rfl⟩
  | resolving name =>
      simp only [Resolver.act]
      split <;> exact .inl rfl
  | answered | resolved => exact once
  | missed | reloading | replacing | replaced | finished => exact .inl rfl

theorem asksOnce_next (once : ∀ call ∈ t.calls, AsksOnce call) (e : Event) :
    ∀ call ∈ (t.next e).calls, AsksOnce call := by
  apply all_next once
  · intro request _
    left
    cases request <;> rfl
  · intro _ call _ _ member
    exact asksOnce_act (once call member)

/-- What the calls of a run ask, each by itself and all together. -/
theorem asked_run (c : ClassSource) (events : List Event) :
    let t := (ofCatalog c).run events
    (t.calls.flatMap Call.asked).Perm t.resolver.asked ∧ ∀ call ∈ t.calls, AsksOnce call :=
  run_keeps
    (P := fun t => (t.calls.flatMap Call.asked).Perm t.resolver.asked ∧
      ∀ call ∈ t.calls, AsksOnce call)
    (fun _ asks e _ => ⟨asked_next asks.1 e, asksOnce_next asks.2 e⟩)
    ⟨.nil, by simp [ofCatalog]⟩

/-! ## Runs -/

theorem next_last (r : Resolver) (calls : List Call) (call : Call) :
    next ⟨r, calls ++ [call]⟩ (.goesOn calls.length) =
      ⟨(r.act call).1, calls ++ [(r.act call).2]⟩ := by
  simp [next]

/-- A look-up that no other call interrupts does what `Resolver.resolve` does. -/
theorem run_resolve (t : Traffic) (name : String) : ∃ asked,
    t.run (.begins (.resolve name) :: List.replicate 4 (.goesOn t.calls.length)) =
      ⟨(t.resolver.resolve name).2,
        t.calls ++ [.resolved name (t.resolver.resolve name).1 asked]⟩ := by
  have begun : t.next (.begins (.resolve name)) = ⟨t.resolver, t.calls ++ [.resolving name]⟩ := rfl
  simp only [List.replicate, run_cons, begun, next_last, Resolver.act]
  cases kept : t.resolver.cached? name with
  | some answer =>
      refine ⟨[], ?_⟩
      simp [run, Resolver.resolve, Resolver.resolveWith, kept]
  | none =>
      refine ⟨(t.resolver.catalog.query name).2, ?_⟩
      cases asked : (t.resolver.catalog.query name).2 with
      | nil => simp [run, Resolver.resolve, Resolver.resolveWith, kept, asked, Resolver.noteAsked]
      | cons first rest => simp [run, Resolver.resolve, Resolver.resolveWith, kept, asked]

/-- The other calls too do what the resolver does at once. -/
theorem run_replaceCatalog (t : Traffic) (c : ClassSource) :
    t.run [.begins .reload, .goesOn t.calls.length] =
        ⟨t.resolver.reload, t.calls ++ [.finished]⟩ ∧
      t.run [.begins (.replaceCatalog c), .goesOn t.calls.length, .goesOn t.calls.length] =
        ⟨t.resolver.replaceCatalog c, t.calls ++ [.finished]⟩ := by
  constructor
  · simp [run, next, Request.call, Resolver.act]
  · simp [run, next, Request.call, Resolver.act, Resolver.replaceCatalog]

/-- However calls act in turn, every kept answer is the one of the present catalog, unless a
catalog was put in place whose reload is still to come. So a look-up answers as the catalog does if
it begins when no catalog is being replaced and none is while it lasts.

The catalogs are asked what the calls ask: at most two class names each, and none for a malformed
name. As long as nothing is dropped, a look-up asks nothing that begins when another one of the
name is over. -/
theorem run_faithful (c : ClassSource) (events : List Event) :
    let t := (ofCatalog c).run events
    (.replaced ∉ t.calls → t.resolver.Faithful) ∧
      (∀ later, (∀ call ∈ t.calls, call.isReplacement = false) →
        (∀ catalog, .begins (.replaceCatalog catalog) ∉ later) →
          (t.run later).resolver.catalog = t.resolver.catalog ∧
            ∀ name answer asked,
              .resolved name answer asked ∈ (t.run later).calls.drop t.calls.length →
                answer = ((t.run later).resolver.catalog.query name).1) ∧
      ((t.calls.flatMap Call.asked).Perm t.resolver.asked ∧
        ∀ call ∈ t.calls, call.asked.length ≤ 2 ∧
          (∀ asked ∈ call.asked, isQualifiedName asked = true) ∧
            ∀ name ∈ call.name?, isQualifiedName name = false → call.asked = []) ∧
      ∀ first later name answer asked,
        ((t.run first).run later).resolver.generation = t.resolver.generation →
          .resolved name answer asked ∈ (t.run first).calls.drop t.calls.length →
            ∀ call ∈ ((t.run first).run later).calls.drop (t.run first).calls.length,
              call.name? = some name → call.asked = [] := by
  intro t
  have sound : t.Sound := (sound_ofCatalog c).run events
  refine ⟨sound.faithful, ?_, ?_, ?_⟩
  · intro later quiet plain
    have calm : t.Calm t.resolver.catalog t.calls.length :=
      ⟨sound, Nat.le_refl _, rfl, quiet, by simp⟩
    have calm := calm.run later plain
    refine ⟨calm.catalog, ?_⟩
    intro name answer asked member
    rw [calm.catalog]
    exact calm.answers _ member name rfl answer rfl
  · obtain ⟨accounted, once⟩ := asked_run c events
    refine ⟨accounted, ?_⟩
    intro call member
    rcases once call member with nothing | ⟨source, name, named, asked⟩
    · rw [nothing]
      exact ⟨Nat.zero_le _, by simp, fun _ _ _ => rfl⟩
    · rw [asked]
      refine ⟨source.length_query_le name, ?_, ?_⟩
      · intro asked
        exact source.isQualifiedName_of_mem_query name
      · intro other same malformed
        rw [named] at same
        cases same
        exact source.query_of_malformed name malformed
  · intro first later name answer asked last ended call member named
    have started : t.Caching t.resolver.generation t.calls.length :=
      ⟨sound, Nat.le_refl _, Nat.le_refl _, by simp, by simp⟩
    have caching := started.run first
    have grows := generation_le_run (t.run first) later
    have reached := caching.reached
    have answering : (t.run first).Answering name t.resolver.generation
        (t.run first).calls.length :=
      ⟨Nat.le_refl _, reached, fun now => caching.cached now _ ended name answer asked rfl, by simp⟩
    rcases (answering.run later).unasked last call member named with rfl | ⟨_, rfl⟩
    · rfl
    · rfl

/-- The first look-up is overtaken by another catalog: its answer is not kept, the next look-up asks
the new catalog, and the last one asks nothing. -/
theorem run_faithful_overtaken :
    let t := (ofCatalog (Catalog.ofList [⟨"java.Date", [], []⟩])).run
      [.begins (.resolve "java.Date"), .goesOn 0, .goesOn 0, .goesOn 0,
        .begins (.replaceCatalog .empty), .goesOn 1, .goesOn 1, .goesOn 0]
    let looked place := .begins (.resolve "java.Date") :: List.replicate 4 (.goesOn place)
    t.resolver.Faithful ∧
      (∃ asked, .resolved "java.Date" .notFound asked ∈ (t.run (looked 2)).calls.drop 2 ∧
        .notFound = ((t.run (looked 2)).resolver.catalog.query "java.Date").1) ∧
      ∀ call ∈ ((t.run (looked 2)).run (looked 3)).calls.drop 3,
        call.name? = some "java.Date" → call.asked = [] := by
  intro t looked
  obtain ⟨faithful, answers, -, once⟩ := run_faithful (Catalog.ofList [⟨"java.Date", [], []⟩])
    [.begins (.resolve "java.Date"), .goesOn 0, .goesOn 0, .goesOn 0,
      .begins (.replaceCatalog .empty), .goesOn 1, .goesOn 1, .goesOn 0]
  have calls : t.calls = [.resolved "java.Date" (.found (classSymbol ⟨"java.Date", [], []⟩))
      ["java.Date"], .finished] := rfl
  have first : .resolved "java.Date" .notFound ["java.Date"] ∈ (t.run (looked 2)).calls.drop 2 :=
    List.mem_singleton_self _
  refine ⟨faithful (by simp [t, calls]), ⟨["java.Date"], first, ?_⟩, ?_⟩
  · exact (answers (looked 2) (by simp [t, calls]) (by simp [looked])).2 _ _ _ first
  · exact once (looked 2) (looked 3) "java.Date" .notFound ["java.Date"] rfl first

end Traffic

end BbjAnalysis.Java
