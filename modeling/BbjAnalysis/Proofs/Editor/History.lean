import BbjAnalysis.Editor.Session
import BbjAnalysis.Proofs.Renaming.Location
import Mathlib.Data.List.Induction

/-! # Sessions forget their history

In a session, whatever is out of date waits to be built (`Regular`). So once nothing waits, and if
no text has syntax errors, the session answers as one that was given just the present texts, in
the order of their documents (`run_fresh`).
-/

namespace BbjAnalysis

/-- What can be done with a session. -/
inductive SessionOperation where
  | setFile (path text : String)
  | removeFile (path : String)
  | reloadCatalog
  | analysis

/-- The texts of the files by their paths after an operation. -/
def SessionOperation.textsAfter (texts : String → Option String) :
    SessionOperation → String → Option String
  | .setFile path text => fun other => if other = path then some text else texts other
  | .removeFile path => fun other => if other = path then none else texts other
  | .reloadCatalog => texts
  | .analysis => texts

namespace Session

def perform (s : Session) : SessionOperation → Session
  | .setFile path text => (s.setFile path text).2
  | .removeFile path => (s.removeFile path).2
  | .reloadCatalog => s.reloadCatalog
  | .analysis => s.analysis

def run (s : Session) (ops : List SessionOperation) : Session := ops.foldl perform s

/-- The paths of the files with their texts, in the order of the documents. -/
def files (s : Session) : List (String × String) :=
  s.builder.documents.values.map fun d => (d.uri, d.text)

/-! ## What waits -/

/-- A session over `start` with the given texts, in which no document is out of date but those
that wait. -/
structure Regular (start : Builder) (catalog : Java.ClassSource) (texts : String → Option String)
    (s : Session) : Prop where
  coherent : s.builder.Coherent
  configured : start.Configured catalog s.builder
  upToDate : ∀ x, x ∉ s.pending → s.builder.UpToDate x
  textOf : ∀ path, s.builder.textOf path = texts path

section Regular

variable {start : Builder} {catalog : Java.ClassSource} {texts : String → Option String}
  {s : Session} (regular : Regular start catalog texts s)
include regular

theorem Regular.setFile (path text : String) :
    Regular start catalog ((SessionOperation.setFile path text).textsAfter texts)
      (s.setFile path text).2 where
  coherent := regular.coherent.openDocument path text
  configured := regular.configured.perform regular.coherent (.openDocument path text)
  upToDate x settled := by
    have other : x ≠ (s.builder.openDocument path text).1 := by
      rintro rfl
      exact settled (OrderedSet.mem_insert.mpr (.inl rfl))
    have early : x ∉ s.pending := fun waits => settled (OrderedSet.mem_insert.mpr (.inr waits))
    exact (regular.upToDate x early).of_document?_eq
      (Builder.document?_openDocument_of_ne path text other)
  textOf other := by
    refine (regular.coherent.textOf_openDocument path text other).trans ?_
    rw [regular.textOf]
    rfl

theorem Regular.removeFile (path : String) :
    Regular start catalog ((SessionOperation.removeFile path).textsAfter texts)
      (s.removeFile path).2 := by
  cases known : s.builder.idOf path with
  | none =>
      have same : (s.removeFile path).2 = s := by simp only [Session.removeFile, known]
      rw [same]
      refine { regular with textOf := fun other => ?_ }
      show _ = if other = path then none else texts other
      split
      · next named => rw [named, Builder.textOf, known, Option.bind_none]
      · exact regular.textOf other
  | some id =>
      obtain ⟨d, present, named⟩ := regular.coherent.idOf_eq_some.mp known
      obtain ⟨r, removed, texts, upToDate⟩ := regular.coherent.removeDocument_spec present
      have performed : s.builder.perform (.removeDocument id) = r.1 := by
        simp only [Builder.perform, removed]
      have after : (s.removeFile path).2 = ⟨r.1, s.pending.erase id, r.2⟩ := by
        simp only [Session.removeFile, known, removed]
      rw [after]
      refine ⟨regular.coherent.removeDocument removed, ?_, fun x settled => ?_, fun other => ?_⟩
      · exact performed ▸ regular.configured.perform regular.coherent (.removeDocument id)
      · refine upToDate x (or_iff_not_imp_left.mpr fun other => regular.upToDate x fun waits => ?_)
        exact settled (OrderedSet.mem_erase.mpr ⟨other, waits⟩)
      · refine (texts other).trans ?_
        rw [named, regular.textOf]
        rfl

theorem Regular.reloadCatalog : Regular start catalog texts s.reloadCatalog where
  coherent := regular.coherent.reloadCatalog
  configured := regular.configured.perform regular.coherent .reloadCatalog
  upToDate x settled := regular.coherent.upToDate_reloadCatalog (regular.upToDate x settled)
  textOf path := (regular.coherent.textOf_reloadCatalog path).trans (regular.textOf path)

/-- Nothing waits, and nothing is out of date, in a session that is asked for an analysis. -/
theorem Regular.analysis :
    Regular start catalog texts s.analysis ∧ ∀ x, s.analysis.builder.UpToDate x := by
  unfold Session.analysis
  split
  · have upToDate (x : DocumentId) : (s.builder.rebuild s.pending.toList).1.UpToDate x :=
      regular.coherent.upToDate_rebuild _ (or_iff_not_imp_left.mpr (regular.upToDate x))
    refine ⟨⟨regular.coherent.rebuild _, ?_, fun x _ => upToDate x, fun path => ?_⟩, upToDate⟩
    · exact regular.configured.perform regular.coherent (.rebuild s.pending.toList)
    · exact (regular.coherent.textOf_rebuild _ path).trans (regular.textOf path)
  · next clean =>
      refine ⟨regular, fun x => regular.upToDate x fun waits => clean ?_⟩
      rw [isDirty, OrderedSet.isEmpty, Bool.not_eq_true', List.isEmpty_eq_false_iff_exists_mem]
      exact ⟨x, waits⟩

theorem Regular.perform (op : SessionOperation) :
    Regular start catalog (op.textsAfter texts) (s.perform op) := by
  cases op with
  | setFile path text => exact regular.setFile path text
  | removeFile path => exact regular.removeFile path
  | reloadCatalog => exact regular.reloadCatalog
  | analysis => exact regular.analysis.1

end Regular

theorem Regular.run {start : Builder} {catalog : Java.ClassSource}
    {texts : String → Option String} {s : Session} (regular : Regular start catalog texts s)
    (ops : List SessionOperation) :
    Regular start catalog (ops.foldl SessionOperation.textsAfter texts) (s.run ops) := by
  induction ops generalizing s texts with
  | nil => exact regular
  | cons op rest ih => exact ih (regular.perform op)

/-! ## Files -/

theorem source_analysis {s : Session} (coherent : s.builder.Coherent) (x : DocumentId) :
    (s.analysis.builder.document? x).map (·.source) = (s.builder.document? x).map (·.source) := by
  unfold Session.analysis
  split
  · exact coherent.source_rebuild s.pending.toList x
  · rfl

theorem mem_files {s : Session} (sound : s.builder.Sound) {path text : String} :
    (path, text) ∈ s.files ↔ s.builder.textOf path = some text := by
  simp only [files, OrderedMap.values, List.map_map, List.mem_map, Prod.exists,
    Builder.textOf, Option.bind_eq_some_iff, Option.map_eq_some_iff, sound.idOf_eq_some,
    Function.comp_apply, Prod.mk.injEq]
  constructor
  · rintro ⟨x, d, member, rfl, rfl⟩
    have present : s.builder.document? x = some d := OrderedMap.get?_eq_some_iff.mpr member
    exact ⟨x, ⟨d, present, rfl⟩, d, present, rfl⟩
  · rintro ⟨x, ⟨d, present, rfl⟩, d', again, rfl⟩
    rw [present] at again
    cases again
    exact ⟨x, d, OrderedMap.get?_eq_some_iff.mp present, rfl, rfl⟩

/-- Every path is listed once. -/
theorem nodup_files {s : Session} (sound : s.builder.Sound) : (s.files.map (·.1)).Nodup := by
  simp only [files, OrderedMap.values, List.map_map]
  refine List.pairwise_map.mpr (s.builder.documents.ascending.imp_of_mem ?_)
  intro e e' member member' less same
  have known : s.builder.idOf e.2.uri = some e.1 :=
    sound.idOf_eq_some.mpr ⟨e.2, OrderedMap.get?_eq_some_iff.mpr member, rfl⟩
  have known' : s.builder.idOf e'.2.uri = some e'.1 :=
    sound.idOf_eq_some.mpr ⟨e'.2, OrderedMap.get?_eq_some_iff.mpr member', rfl⟩
  rw [show e.2.uri = e'.2.uri from same, known'] at known
  exact absurd less (Nat.not_lt.mpr (Nat.le_of_eq (Option.some.inj known)))

/-! ## Fresh sessions -/

/-- The session that is given the files one after the other. -/
def given (s : Session) (files : List (String × String)) : Session :=
  s.run (files.map fun f => .setFile f.1 f.2)

theorem given_concat (s : Session) (files : List (String × String)) (f : String × String) :
    s.given (files ++ [f]) = ((s.given files).setFile f.1 f.2).2 := by
  simp only [given, run, List.map_append, List.foldl_append]
  rfl

section Given

variable {start : Builder} (coherent : start.Coherent) (empty : ∀ x, start.document? x = none)
include coherent empty

theorem regular_ofBuilder :
    Regular start start.resolver.catalog (fun _ => none) (ofBuilder start) where
  coherent := coherent
  configured := ⟨rfl, rfl, rfl, rfl⟩
  upToDate x _ d present := by
    cases (empty x).symm.trans present
  textOf path := by
    rw [Builder.textOf, Option.bind_eq_none_iff]
    exact fun x _ => Option.map_eq_none_iff.mpr (empty x)

/-- Files that are given one after the other are numbered in their order. -/
theorem document?_given (first : start.nextId = 0) {files : List (String × String)}
    (nodup : (files.map (·.1)).Nodup) :
    ((ofBuilder start).given files).builder.nextId = files.length ∧
      ∀ x, ((ofBuilder start).given files).builder.document? x =
        files[x]?.map fun f => .fresh f.1 f.2 := by
  -- Identities are given out in order: the last file gets the last one.
  induction files using List.reverseRecOn with
  | nil => exact ⟨first, empty⟩
  | append_singleton l f ih =>
      rw [List.map_append, List.nodup_append] at nodup
      obtain ⟨nextId, documents⟩ := ih nodup.1
      have sound : ((ofBuilder start).given l).builder.Sound :=
        ((regular_ofBuilder coherent empty).run _).coherent.toSound
      have unknown : ((ofBuilder start).given l).builder.byUri.get? f.1 = none := by
        cases known : ((ofBuilder start).given l).builder.byUri.get? f.1 with
        | none => rfl
        | some x =>
            obtain ⟨d, present, named⟩ := sound.idOf_eq_some.mp known
            rw [documents x, Option.map_eq_some_iff] at present
            obtain ⟨g, at_, rfl⟩ := present
            have earlier : g.1 ∈ l.map (·.1) := List.mem_map_of_mem (List.mem_of_getElem? at_)
            exact absurd named (nodup.2.2 g.1 earlier f.1 (.head _))
      have opened : ((ofBuilder start).given (l ++ [f])).builder =
          ((ofBuilder start).given l).builder.openNew f.1 f.2 := by
        rw [given_concat]
        exact congrArg Prod.snd (Builder.openDocument_of_unknown unknown f.2)
      rw [opened, List.length_append]
      refine ⟨congrArg (· + 1) nextId, fun x => ?_⟩
      rw [Builder.document?_openNew, nextId, documents x]
      rcases Nat.lt_trichotomy x l.length with less | same | less
      · rw [if_neg (Nat.ne_of_lt less), List.getElem?_append_left less]
      · rw [if_pos same, same, List.getElem?_concat_length, Option.map_some]
      · rw [if_neg (Nat.ne_of_gt less), List.getElem?_eq_none (Nat.le_of_lt less),
          List.getElem?_eq_none]
        rw [List.length_append]
        exact less

end Given

/-! ## Answers by path -/

section Rename

variable {σ : DocumentId → DocumentId} {s s' : Session}
  (renames : Builder.RenamesTo σ s.builder s'.builder) (path : String)
include renames

theorem diagnostics_rename : s'.diagnostics path = (s.diagnostics path).map (.rename σ) := by
  simp only [diagnostics, renames.idOf, Option.bind_map]
  cases s.builder.idOf path with
  | none => rfl
  | some x =>
      simp only [Option.bind_some, Function.comp_apply, renames.diagnosticsOf]
      cases s.builder.diagnosticsOf x <;> rfl

theorem definitionsAt_rename (place : Position) :
    s'.definitionsAt path place = (s.definitionsAt path place).map (.rename σ) := by
  simp only [definitionsAt, renames.idOf]
  cases s.builder.idOf path with
  | none => rfl
  | some x => exact renames.definitionsAt x place

theorem fileSymbols_rename : s'.fileSymbols path = (s.fileSymbols path).map (.rename σ) := by
  simp only [fileSymbols, renames.idOf]
  cases s.builder.idOf path with
  | none => rfl
  | some x => exact renames.documentSymbols x

end Rename

/-! ## Independence of the history -/

theorem finished_analysis {start : Builder} {catalog : Java.ClassSource}
    {texts : String → Option String} {s : Session} (regular : Regular start catalog texts s)
    (clean : ∀ path text, texts path = some text → (parse text).isClean = true) :
    s.analysis.builder.Finished where
  toCoherent := regular.analysis.1.coherent
  upToDate := regular.analysis.2
  clean {x d} present := by
    refine clean d.uri d.text ?_
    rw [← regular.analysis.1.textOf, Builder.textOf,
      regular.analysis.1.coherent.idOf_eq_some.mpr ⟨d, present, rfl⟩, Option.bind_some, present]
    rfl

/-- A session that nothing waits in corresponds to the one that is given its files. -/
theorem sameTexts_given {start : Builder} (coherent : start.Coherent)
    (empty : ∀ x, start.document? x = none) (first : start.nextId = 0) {s : Session}
    (coherent' : s.builder.Coherent) :
    Builder.SameTexts s.builder.numbering ((ofBuilder start).given s.files).analysis.builder
      s.builder where
  mono := coherent'.strictMono_numbering
  sources i := by
    have numbered := coherent'.document?_numbering i
    have fresh := (document?_given coherent empty first (nodup_files coherent'.toSound)).2 i
    have given : ((ofBuilder start).given s.files).builder.Coherent :=
      ((regular_ofBuilder coherent empty).run _).coherent
    rw [source_analysis given, fresh, files, List.getElem?_map, numbered]
    cases value : s.builder.documents.values[i]? with
    | none => rfl
    | some d =>
        rw [value] at numbered
        have live := coherent'.quiet.live numbered
        simp only [Option.map_some, OpenDocument.source, live]
        rfl
  onto := Builder.numbering_onto

/-- After any edits, reloads and analyses, and a last analysis: if none of the present texts has
syntax errors, the session answers every question as one that was given just the present files, in
the order of their documents, and analysed once, but for the numbering of the documents. -/
theorem run_fresh (config : BuildConfig) (packages : List String) (rules : RuleSet)
    (catalog : Java.ClassSource) (ops : List SessionOperation)
    (clean : ∀ path text, ops.foldl SessionOperation.textsAfter (fun _ => none) path = some text →
      (parse text).isClean = true) :
    let start := ofBuilder ((Builder.new config rules catalog).withPackages packages)
    let s := (start.run ops).analysis
    let fresh := (start.run (s.files.map fun f => .setFile f.1 f.2)).analysis
    (∀ path text, (path, text) ∈ s.files ↔
      ops.foldl SessionOperation.textsAfter (fun _ => none) path = some text) ∧
    (s.files.map (·.1)).Nodup ∧
    ∃ σ : DocumentId → DocumentId, StrictMono σ ∧
      (∀ path, s.builder.idOf path = (fresh.builder.idOf path).map σ ∧
        s.diagnostics path = (fresh.diagnostics path).map (.rename σ) ∧
        (∀ place, s.definitionsAt path place = (fresh.definitionsAt path place).map (.rename σ)) ∧
        s.fileSymbols path = (fresh.fileSymbols path).map (.rename σ)) ∧
      ∀ query, s.builder.workspaceSymbols query =
        (fresh.builder.workspaceSymbols query).map (.rename σ) := by
  intro start s fresh
  have coherent := Builder.coherent_new config packages rules catalog
  have empty (x : DocumentId) :
      ((Builder.new config rules catalog).withPackages packages).document? x = none := rfl
  have regular := (regular_ofBuilder coherent empty).run ops
  have regular' := (regular_ofBuilder coherent empty).run (s.files.map fun f => .setFile f.1 f.2)
  have sound := regular.analysis.1.coherent.toSound
  have same : Builder.SameTexts s.builder.numbering fresh.builder s.builder :=
    sameTexts_given coherent empty rfl regular.analysis.1.coherent
  have listed (path text : String) : (path, text) ∈ s.files ↔
      ops.foldl SessionOperation.textsAfter (fun _ => none) path = some text := by
    rw [mem_files sound, regular.analysis.1.textOf]
  have finished : s.builder.Finished := finished_analysis regular clean
  have finished' : fresh.builder.Finished := by
    refine ⟨regular'.analysis.1.coherent, regular'.analysis.2, fun {x d} present => ?_⟩
    obtain ⟨d', present', -, texts⟩ := same.present present
    rw [← texts]
    exact finished.clean present'
  have renames := same.renamesTo finished' finished
    (regular'.analysis.1.configured.between regular.analysis.1.configured)
  exact ⟨listed, nodup_files sound, s.builder.numbering, renames.mono,
    fun path => ⟨renames.idOf path, diagnostics_rename renames path,
      definitionsAt_rename renames path, fileSymbols_rename renames path⟩,
    renames.workspaceSymbols⟩

/-- A class that is declared twice in the end, after one of its files was broken and removed. -/
def brokenAndBack : List SessionOperation :=
  [.setFile "a.bbj" "class public A\nclassend\n", .setFile "b.bbj" "x! = new A()\n", .analysis,
    .setFile "a.bbj" "class public\n", .analysis, .removeFile "a.bbj", .reloadCatalog,
    .setFile "c.bbj" "class public A\nclassend\n", .setFile "a.bbj" "class public A\nclassend\n"]

theorem run_fresh_brokenAndBack :
    let start := Session.new .standard .empty
    let s := (start.run brokenAndBack).analysis
    let fresh := (start.run (s.files.map fun f => .setFile f.1 f.2)).analysis
    s.files = [("b.bbj", "x! = new A()\n"), ("c.bbj", "class public A\nclassend\n"),
      ("a.bbj", "class public A\nclassend\n")] ∧
    ∃ σ : DocumentId → DocumentId, StrictMono σ ∧
      s.diagnostics "b.bbj" = (fresh.diagnostics "b.bbj").map (.rename σ) ∧
      s.builder.workspaceSymbols none = (fresh.builder.workspaceSymbols none).map (.rename σ) := by
  have clean : ∀ path text,
      brokenAndBack.foldl SessionOperation.textsAfter (fun _ => none) path = some text →
        (parse text).isClean = true := by
    intro path text
    have ofClass : (parse "class public A\nclassend\n").isClean = true := by decide +kernel
    have ofUse : (parse "x! = new A()\n").isClean = true := by decide +kernel
    simp only [brokenAndBack, List.foldl, SessionOperation.textsAfter]
    intro found
    split at found
    · cases found
      exact ofClass
    · split at found
      · cases found
        exact ofClass
      · simp_all
  obtain ⟨-, -, σ, mono, files, symbols⟩ :=
    run_fresh .standard BuildConfig.standard.packages .standard .empty brokenAndBack clean
  exact ⟨by decide +kernel, σ, mono, (files "b.bbj").2.1, symbols none⟩

end Session

end BbjAnalysis
