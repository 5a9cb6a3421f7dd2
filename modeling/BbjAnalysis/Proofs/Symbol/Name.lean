import BbjAnalysis.Proofs.Program.Soundness
import BbjAnalysis.Proofs.Token.Munch
import BbjAnalysis.Symbol.Name

/-! # Canonical names of what is read

An identifier is made of letters, digits, underscores and a type mark, none of them a blank, and
does not begin with a `#`. So nothing of it is cut off in its canonical name.
-/

namespace BbjAnalysis

open Piece

theorem Blank.trim_eq_self {text : String} (plain : ∀ c ∈ text.toList, isBlank c = false) :
    trim text = text := by
  have keep (cs : List Char) (plain : ∀ c ∈ cs, isBlank c = false) :
      cs.dropWhile isBlank = cs := by
    cases cs with
    | nil => rfl
    | cons c cs => exact List.dropWhile_cons_of_neg (by simp [plain c List.mem_cons_self])
  have reversed : ∀ c ∈ text.toList.reverse, isBlank c = false := fun c member =>
    plain c (List.mem_reverse.mp member)
  rw [trim, trimChars, keep _ plain, keep _ reversed, List.reverse_reverse, String.ofList_toList]

/-- What an identifier is made of is visible, and no `#`. -/
theorem Token.visible_of_mem_ident {w : List Char} (ident : w ∈ TokenKind.ident.pattern) :
    ∀ c ∈ w, Blank.isBlank c = false ∧ c ≠ '#' := by
  have visible (c : Char) (inside : c ∈ letters ∪ digits ∪ {'_'} ∪ ({'$', '%', '!'} : Set Char)) :
      Blank.isBlank c = false ∧ c ≠ '#' := by
    have range : 33 ≤ c.toNat ∧ c.toNat ≤ 122 ∧ c.toNat ≠ 35 := by
      rcases inside with (((⟨least, most⟩ | ⟨least, most⟩) | ⟨least, most⟩) | rfl) | rfl | rfl | rfl
      · have : 65 ≤ c.toNat := least
        have : c.toNat ≤ 90 := most
        omega
      · have : 97 ≤ c.toNat := least
        have : c.toNat ≤ 122 := most
        omega
      · have : 48 ≤ c.toNat := least
        have : c.toNat ≤ 57 := most
        omega
      all_goals decide
    constructor
    · simp only [Blank.isBlank, Bool.or_eq_false_iff, Bool.and_eq_false_iff,
        decide_eq_false_iff_not, beq_eq_false_iff_ne]
      omega
    · rintro rfl
      exact range.2.2 rfl
  intro c member
  apply visible
  cases w with
  | nil => cases member
  | cons first rest =>
      obtain ⟨start, further⟩ := mem_ident.mp ident
      obtain ⟨run, all, mark, marked, rfl⟩ := Language.mem_mul.mp further
      rcases List.mem_cons.mp member with rfl | member
      · exact .inl (start.imp_left .inl)
      · rcases List.mem_append.mp member with member | member
        · exact .inl (mem_kstar_oneOf.mp all c member)
        · rcases mem_optional.mp marked with rfl | ⟨m, isMark, rfl⟩
          · cases member
          · rw [List.mem_singleton.mp member]
            exact .inr isMark

/-- Nothing of an identifier is cut off. -/
theorem withoutHash_trim {text : String} {t : Token} (member : t ∈ tokenize text)
    (isName : t.kind = .ident) : withoutHash (Blank.trim t.text) = t.text := by
  have visible : ∀ c ∈ t.text.toList, Blank.isBlank c = false ∧ c ≠ '#' := by
    have allowed := Token.text_mem_pattern member (by simp [isName])
    rw [isName] at allowed
    exact Token.visible_of_mem_ident allowed
  rw [Blank.trim_eq_self fun c inside => (visible c inside).1]
  unfold withoutHash
  split
  · next rest first => exact absurd rfl (visible '#' (by simp [first])).2
  · rfl

theorem canonicalName_label {text : String} {t : Token} (member : t ∈ tokenize text)
    (isName : t.kind = .ident) : canonicalName t.text .label = t.text.toLower := by
  rw [canonicalName, withoutHash_trim member isName]

/-- Labels are one name in every letter case. -/
theorem canonicalName_ident {text : String} {i : Ident}
    (member : .ident i ∈ (parse text).program.parts) :
    canonicalName i.text .label = i.text.toLower := by
  obtain ⟨t, read, isName, same, -⟩ := token_of_mem_parts member
  rw [← same]
  exact canonicalName_label (List.mem_filter.mp read).1 isName

/-- Fields keep their names as written. -/
theorem canonicalName_field {text : String} {i : Ident}
    (member : .ident i ∈ (parse text).program.parts) : canonicalName i.text .field = i.text := by
  obtain ⟨t, read, isName, same, -⟩ := token_of_mem_parts member
  rw [← same]
  exact withoutHash_trim (List.mem_filter.mp read).1 isName

end BbjAnalysis
