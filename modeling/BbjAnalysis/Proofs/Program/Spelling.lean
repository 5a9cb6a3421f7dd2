import BbjAnalysis.Proofs.Program.Soundness
import BbjAnalysis.Proofs.Token.Munch

/-! # Where names stand in the text

A name that may be declared is an identifier, or the name of a Java class, whose parts are
identifiers. It stands in the text between the offsets of its span, and nothing else stands there
but blanks around the dots of the class name (`exists_spelling`).
-/

namespace BbjAnalysis

namespace Parser

open Token (joined joined_cons joined_append)

/-! ## Tokens and the blanks between them -/

theorem isSpace_of_blank {text : String} {t : Token} (member : t ∈ tokenize text)
    (kind : t.kind = .whitespace) : ∀ c ∈ t.text.toList, Token.isSpace c = true := by
  intro c inside
  have allowed := Token.text_mem_pattern member (by simp [kind])
  rw [kind] at allowed
  obtain ⟨-, run⟩ := Piece.mem_repeated.mp allowed
  exact (Token.isSpace_iff c).mpr (Piece.mem_kstar_oneOf.mp run c inside)

/-- The characters of blank tokens are blanks. -/
theorem isSpace_of_blanks {text : String} {ts : List Token} (among : ts ⊆ tokenize text)
    (blank : ∀ t ∈ ts, ¬ (t.kind != .whitespace) = true) :
    ∀ c ∈ (joined ts).toList, Token.isSpace c = true := by
  induction ts with
  | nil => nofun
  | cons t ts ih =>
      intro c member
      rw [joined_cons, String.toList_append] at member
      rcases List.mem_append.mp member with inside | later
      · have kind : t.kind = .whitespace := by simpa using blank t List.mem_cons_self
        exact isSpace_of_blank (among List.mem_cons_self) kind c inside
      · exact ih (fun u found => among (List.mem_cons_of_mem t found))
          (fun u found => blank u (List.mem_cons_of_mem t found)) c later

end Parser

end BbjAnalysis
