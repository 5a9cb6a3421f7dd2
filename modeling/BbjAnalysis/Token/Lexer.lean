import BbjAnalysis.Token.Basic

/-! # From text to tokens

At each position the longest piece that some kind of token allows is taken, and one
character as an error where no kind allows any. A double quote opens a string
whatever follows: a string that its line does not close is one error token up to the
end of the line.
-/

namespace BbjAnalysis

namespace Token

def isSpace (c : Char) : Bool := c == ' ' || c == '\t' || c == '\x0c'

def isIdentStart (c : Char) : Bool := c.isAlpha || c == '_'

def isIdentChar (c : Char) : Bool := c.isAlphanum || c == '_'

/-- The marks that may end an identifier: string, integer, object. -/
def isTypeMark (c : Char) : Bool := c == '$' || c == '%' || c == '!'

/-- How many characters at the front pass a test. -/
def runLength (p : Char → Bool) (cs : List Char) : Nat := (cs.takeWhile p).length

/-- The length of the digits behind a decimal exponent's mark and sign, if there are any. -/
def exponentDigits (cs : List Char) : Option Nat :=
  match runLength Char.isDigit cs with
  | 0 => none
  | n => some n

/-- The length of a decimal exponent at the front; an incomplete one has none. -/
def exponentLength : List Char → Nat
  | e :: sign :: rest =>
      if e == 'e' || e == 'E' then
        if sign == '+' || sign == '-' then
          ((exponentDigits rest).map (· + 2)).getD 0
        else
          ((exponentDigits (sign :: rest)).map (· + 1)).getD 0
      else 0
  | _ => 0

/-- The length of what follows the first digit of a number. -/
def numberTail (cs : List Char) : Nat :=
  let whole := runLength Char.isDigit cs
  match cs.drop whole with
  | '.' :: rest =>
      let fraction := runLength Char.isDigit rest
      whole + 1 + fraction + exponentLength (rest.drop fraction)
  | rest => whole + exponentLength rest

/-- Whether a string is closed on its line, and how many characters behind the opening
quote belong to it; a doubled quote does not close it. -/
def stringTail : List Char → Bool × Nat
  | [] => (false, 0)
  | '"' :: '"' :: rest => let (closed, n) := stringTail rest; (closed, n + 2)
  | c :: rest =>
      if c == '"' then (true, 1)
      else if c == '\r' || c == '\n' then (false, 0)
      else let (closed, n) := stringTail rest; (closed, n + 1)

/-- The kind of the token that begins with `c`, and how many of the characters behind `c`
belong to it. -/
def munch (c : Char) (cs : List Char) : TokenKind × Nat :=
  if isSpace c then (.whitespace, runLength isSpace cs)
  else if isIdentStart c then
    let n := runLength isIdentChar cs
    match cs.drop n with
    | m :: _ => (.ident, if isTypeMark m then n + 1 else n)
    | [] => (.ident, n)
  else if c.isDigit then (.number, numberTail cs)
  else match c, cs with
    | '\n', _ => (.newline, 0)
    | '\r', '\n' :: _ => (.newline, 1)
    | '"', cs => let (closed, n) := stringTail cs; (if closed then .string else .error, n)
    | '.', d :: rest =>
        if d.isDigit then
          let n := runLength Char.isDigit rest
          (.number, 1 + n + exponentLength (rest.drop n))
        else (.dot, 0)
    | '.', [] => (.dot, 0)
    | ':', ':' :: _ => (.colonColon, 1)
    | ':', _ => (.colon, 0)
    | '<', '>' :: _ => (.notEq, 1)
    | '<', '=' :: _ => (.ltEq, 1)
    | '<', _ => (.lt, 0)
    | '>', '=' :: _ => (.gtEq, 1)
    | '>', _ => (.gt, 0)
    | ';', _ => (.semicolon, 0)
    | ',', _ => (.comma, 0)
    | '#', _ => (.hash, 0)
    | '(', _ => (.lparen, 0)
    | ')', _ => (.rparen, 0)
    | '[', _ => (.lbracket, 0)
    | ']', _ => (.rbracket, 0)
    | '=', _ => (.eq, 0)
    | '+', _ => (.plus, 0)
    | '-', _ => (.minus, 0)
    | '*', _ => (.star, 0)
    | '/', _ => (.slash, 0)
    | '^', _ => (.caret, 0)
    | _, _ => (.error, 0)

/-- The tokens of a text whose first byte is at `offset`. -/
def scan (offset : Nat) : List Char → List Token
  | [] => []
  | c :: cs =>
      let (kind, n) := munch c cs
      let token : Token := ⟨kind, String.ofList (c :: cs.take n), offset⟩
      token :: scan token.stop (cs.drop n)
termination_by cs => cs.length
decreasing_by
  rw [List.length_drop, List.length_cons]
  omega

end Token

/-- All tokens of a text, blanks included. -/
def tokenize (text : String) : List Token := Token.scan 0 text.toList

end BbjAnalysis
