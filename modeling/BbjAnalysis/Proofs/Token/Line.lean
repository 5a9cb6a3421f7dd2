import BbjAnalysis.Proofs.Text.LineIndex
import BbjAnalysis.Proofs.Token.Munch

/-! # Tokens and line starts

A token that ends a line holds one line feed, at its end, and no other token holds any. So tokens
never go on from one line into the next, and behind the first line the next one begins where the
token that ends a line stops (`tokenize_lines`).
-/

namespace BbjAnalysis

namespace LineIndex

open Token (byteSize byteSize_append)

/-- Behind a line with its end begins one more line. -/
theorem startsBehind_line {offset : Nat} {line : List Char} (single : '\n' ∉ line) :
    startsBehind offset (line ++ ['\n']) = [offset + byteSize (line ++ ['\n'])] := by
  rw [startsBehind_append, startsBehind_eq_nil single, byteSize_append, byteSize_singleton,
    ← Nat.add_assoc]
  rfl

end LineIndex

namespace Token

/-- The token ends a line. -/
def endsLine (t : Token) : Bool := t.kind == .newline

theorem feed_mem_text {offset : Nat} {cs : List Char} {t : Token} (member : t ∈ scan offset cs)
    (ends : t.endsLine = true) : '\n' ∈ t.text.toList := by
  have newline : t.kind = .newline := eq_of_beq ends
  have allowed := text_mem_pattern member (by simp [newline])
  rw [newline] at allowed
  cases text : t.text.toList with
  | nil =>
      rw [text] at allowed
      exact absurd allowed (nil_notMem_pattern _)
  | cons c w =>
      rw [text] at allowed
      rcases mem_newline.mp allowed with ⟨rfl, rfl⟩ | ⟨rfl, rfl⟩ <;> decide

/-- Where there is no line feed, no token ends a line. -/
theorem filter_endsLine_eq_nil {offset : Nat} {cs : List Char} {ts : List Token}
    (scanned : ∀ t ∈ ts, t ∈ scan offset cs) (none : '\n' ∉ (joined ts).toList) :
    ts.filter endsLine = [] := by
  rw [List.filter_eq_nil_iff]
  intro t member ends
  obtain ⟨before, behind, rfl⟩ := List.append_of_mem member
  apply none
  rw [joined_append, joined_cons, String.toList_append, String.toList_append]
  apply List.mem_append_right
  exact List.mem_append_left _ (feed_mem_text (scanned t member) ends)

/-- Of the tokens of a line, the last one ends it, and no other one does. -/
theorem filter_endsLine_line {offset : Nat} {line : List Char} {ts : List Token} {t : Token}
    (single : '\n' ∉ line) (tokens : scan offset (line ++ ['\n']) = ts ++ [t])
    (newline : t.kind = .newline) : (ts ++ [t]).filter endsLine = [t] := by
  have last : t.endsLine = true := beq_iff_eq.mpr newline
  have scanned : ∀ u ∈ ts ++ [t], u ∈ scan offset (line ++ ['\n']) := by
    intro u member
    rwa [tokens]
  have whole := congrArg String.toList (joined_scan offset (line ++ ['\n']))
  rw [tokens, joined_append, joined_cons, String.toList_append, String.toList_append,
    String.toList_ofList] at whole
  have before : '\n' ∉ (joined ts).toList := by
    intro inside
    have filled := feed_mem_text (scanned t (by simp)) last
    -- the last token holds the feed that ends the line, so what is before it lies in the line
    obtain ⟨w, c, text⟩ := (List.eq_nil_or_concat t.text.toList).resolve_left
      (List.ne_nil_of_mem filled)
    rw [text, show (joined []).toList = [] from rfl, List.append_nil, List.concat_eq_append,
      ← List.append_assoc] at whole
    have line : (joined ts).toList ++ w = line := (List.append_inj' whole rfl).1
    exact single (line ▸ List.mem_append_left w inside)
  rw [List.filter_append,
    filter_endsLine_eq_nil (fun u member => scanned u (List.mem_append_left _ member)) before,
    List.filter_cons_of_pos last]
  rfl

/-- Lines begin right behind the tokens that end one. -/
theorem stops_scan (offset : Nat) (cs : List Char) :
    ((scan offset cs).filter endsLine).map stop = LineIndex.startsBehind offset cs := by
  by_cases feed : '\n' ∈ cs
  · obtain ⟨line, rest, rfl, single⟩ := List.eq_append_cons_of_mem feed
    have shorter : rest.length < (line ++ '\n' :: rest).length := by
      rw [List.length_append, List.length_cons]
      omega
    obtain ⟨ts, t, newline, ends, tokens⟩ := scan_line offset line
    have alone : scan offset (line ++ ['\n']) = ts ++ [t] := by rw [tokens, scan]
    calc ((scan offset (line ++ '\n' :: rest)).filter endsLine).map stop
        = ((ts ++ [t]).filter endsLine ++ (scan t.stop rest).filter endsLine).map stop := by
          rw [tokens, List.append_cons, List.filter_append]
      _ = t.stop :: ((scan t.stop rest).filter endsLine).map stop := by
          rw [filter_endsLine_line single alone newline, List.map_append, List.map_singleton,
            List.singleton_append]
      _ = t.stop :: LineIndex.startsBehind t.stop rest := by rw [stops_scan t.stop rest]
      _ = LineIndex.startsBehind offset (line ++ ['\n'] ++ rest) := by
          rw [LineIndex.startsBehind_append, LineIndex.startsBehind_line single, ends,
            List.singleton_append]
      _ = LineIndex.startsBehind offset (line ++ '\n' :: rest) := by rw [← List.append_cons]
  · have none : '\n' ∉ (joined (scan offset cs)).toList := by
      rwa [joined_scan, String.toList_ofList]
    rw [filter_endsLine_eq_nil (fun t member => member) none, LineIndex.startsBehind_eq_nil feed]
    rfl
termination_by cs.length

end Token

/-- The tokens up to the end of a line are the same whatever follows, and those that follow are
the tokens of the rest, moved behind the line. The lines of a text begin at its start, and where
its tokens that end a line stop. -/
theorem tokenize_lines :
    (∀ a b : String, tokenize (a ++ "\n" ++ b) =
      tokenize (a ++ "\n") ++ (tokenize b).map (Token.moved (a.utf8ByteSize + 1))) ∧
    ∀ text : String, (LineIndex.ofText text).starts =
      0 :: ((tokenize text).filter (·.kind == .newline)).map Token.stop := by
  constructor
  · intro a b
    have closed : (a ++ "\n").toList.getLast? = some '\n' := by
      rw [String.toList_append]
      exact List.getLast?_concat
    have size : (a ++ "\n").utf8ByteSize = a.utf8ByteSize + 1 := String.utf8ByteSize_append
    obtain ⟨ts, line, -, -, tokens, further⟩ := tokenize_line closed
    rw [further b, tokens, size, List.append_cons]
  · intro text
    exact congrArg (0 :: ·) (Token.stops_scan 0 text.toList).symm

end BbjAnalysis
