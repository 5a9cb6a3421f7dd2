import BbjAnalysis.Text.Span

/-! # Tokens

A token is a piece of the text with its kind and the offset of its first byte. Words
are not told apart here: almost every keyword is one only where a statement may
begin, so that the reader of statements decides.
-/

namespace BbjAnalysis

inductive TokenKind where
  | whitespace
  | newline
  | ident
  | number
  | string
  | colonColon
  | colon
  | semicolon
  | comma
  | dot
  | hash
  | lparen
  | rparen
  | lbracket
  | rbracket
  | eq
  | notEq
  | ltEq
  | gtEq
  | lt
  | gt
  | plus
  | minus
  | star
  | slash
  | caret
  | error
deriving DecidableEq

/-- Tokens that end a statement wherever they stand. -/
def TokenKind.isStatementEnd : TokenKind → Bool
  | .newline | .semicolon => true
  | _ => false

structure Token where
  kind : TokenKind
  text : String
  start : Nat
deriving DecidableEq

namespace Token

def stop (t : Token) : Nat := t.start + t.text.utf8ByteSize

def span (t : Token) : Span := ⟨t.start, t.stop⟩

/-- Whether the token is the given word, written in small letters, in any case. -/
def isKeyword (t : Token) (word : String) : Bool :=
  t.kind == .ident && t.text.toLower == word

end Token

end BbjAnalysis
