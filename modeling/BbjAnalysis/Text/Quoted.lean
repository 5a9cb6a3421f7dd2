/-! # Quoted text

Between double quotes a quote is written twice. `unquote` takes the outer quotes off
and halves the doubled ones, from left to right; a text without outer quotes keeps
its ends.
-/

namespace BbjAnalysis.Quoted

/-- Writes every quote twice. -/
def double : List Char → List Char
  | [] => []
  | '"' :: rest => '"' :: '"' :: double rest
  | c :: rest => c :: double rest

/-- Writes every doubled quote once. -/
def halve : List Char → List Char
  | [] => []
  | '"' :: '"' :: rest => '"' :: halve rest
  | c :: rest => c :: halve rest

/-- What stands between an opening and a closing quote, if both are there. -/
def inside : List Char → Option (List Char)
  | '"' :: rest => if rest.getLast? = some '"' then some rest.dropLast else none
  | _ => none

/-- The text that a string literal stands for. -/
def unquote (text : String) : String :=
  String.ofList (halve ((inside text.toList).getD text.toList))

/-- The string literal for a text. -/
def quote (text : String) : String := String.ofList ('"' :: double text.toList ++ ['"'])

theorem halve_double (cs : List Char) : halve (double cs) = cs := by
  induction cs with
  | nil => rfl
  | cons c rest ih =>
      by_cases h : c = '"'
      · subst h; simp [double, halve, ih]
      · rw [double, halve, ih]
        · exact fun _ h' => absurd h' h
        · exact h

theorem unquote_quote (text : String) : unquote (quote text) = text := by
  simp [unquote, quote, inside, halve_double]

end BbjAnalysis.Quoted
