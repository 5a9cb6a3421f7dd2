import BbjAnalysis.Proofs.Program.Reader

/-! # What a step ensures

Reading functions are put together from steps. What holds of the value that is read, and of the
cursor behind it, follows from what holds behind the steps they are put together from.
-/

namespace BbjAnalysis.Parser.Step

open Cursor

variable {c d : Cursor} {α β : Type}

/-- The property holds of the value that is read and of the cursor behind it. -/
def Ensures (r : Step c α) (Q : α → Cursor → Prop) : Prop := Q r.value r.next

namespace Ensures

variable {r : Step c α} {P : α → Cursor → Prop} {Q : β → Cursor → Prop}

/-- Of a step nothing need be known. -/
theorem any (r : Step c α) : r.Ensures fun _ _ => True := trivial

theorem widen (h : r.Ensures P) (before : c.Behind d) : (r.widen before).Ensures P := h

theorem imp {P' : α → Cursor → Prop} (h : r.Ensures P) (imp : ∀ {a d}, P a d → P' a d) :
    r.Ensures P' := imp h

theorem and {P' : α → Cursor → Prop} (h : r.Ensures P) (h' : r.Ensures P') :
    r.Ensures fun a d => P a d ∧ P' a d := ⟨h, h'⟩

theorem map (h : r.Ensures P) {f : α → β} (imp : ∀ {a d}, P a d → Q (f a) d) :
    (r.map f).Ensures Q := imp h

theorem andThen (h : r.Ensures P) {f : (a : α) → (d : Cursor) → d.size ≤ c.size → Step d β}
    (next : ∀ (a : α) (d : Cursor) (l : d.size ≤ c.size), P a d → (f a d l).Ensures Q) :
    (r.andThen f).Ensures Q := next _ _ r.size_le h

theorem ifSome {r : Step c (Option α)} {P : Option α → Cursor → Prop}
    {Q : Option β → Cursor → Prop} (h : r.Ensures P)
    {f : (a : α) → (d : Cursor) → d.size ≤ c.size → Step d (Option β)}
    (absent : ∀ {d : Cursor}, P none d → Q none d)
    (next : ∀ (a : α) (d : Cursor) (l : d.size ≤ c.size), P (some a) d → (f a d l).Ensures Q) :
    (r.ifSome f).Ensures Q := by
  obtain ⟨value, d, behind⟩ := r
  cases value with
  | none => exact absent h
  | some a => exact next a d behind.size_le h

theorem ifTrue {r : Step c Bool} {P : Bool → Cursor → Prop} {Q : Option β → Cursor → Prop}
    (h : r.Ensures P) {f : (d : Cursor) → d.size ≤ c.size → Step d (Option β)}
    (absent : ∀ {d : Cursor}, P false d → Q none d)
    (next : ∀ (d : Cursor) (l : d.size ≤ c.size), P true d → (f d l).Ensures Q) :
    (r.ifTrue f).Ensures Q := by
  obtain ⟨value, d, behind⟩ := r
  cases value with
  | false => exact absent h
  | true => exact next d behind.size_le h

end Ensures

end BbjAnalysis.Parser.Step
