import BbjAnalysis.Text.IdentifierChar

/-! # Java names

Names of Java classes and members: identifiers joined by dots.
-/

namespace BbjAnalysis.Java

/-- The pieces of a text between its dots; without a dot the text is the only piece. -/
def segments : List Char → List (List Char)
  | [] => [[]]
  | c :: cs => if c = '.' then [] :: segments cs else (segments cs).modifyHead (c :: ·)

/-- Whether a piece is a Java identifier. -/
def isIdentifier : List Char → Bool
  | [] => false
  | c :: cs =>
      (c == '_' || c == '$' || IdentifierChar.isStart c) &&
        cs.all fun c => c == '$' || IdentifierChar.isContinue c

/-- Whether every piece between dots is a Java identifier. -/
def isQualifiedName (name : String) : Bool := (segments name.toList).all isIdentifier

/-- What stands behind the last dot. -/
def simpleName (name : String) : String :=
  String.ofList ((segments name.toList).getLast?.getD [])

/-- What stands before and behind the last dot, if there is one. -/
def ownerAndMember (name : String) : Option (String × String) :=
  let member := name.toList.reverse.takeWhile (· ≠ '.')
  match name.toList.reverse.drop member.length with
  | [] => none
  | _ :: owner => some (String.ofList owner.reverse, String.ofList member.reverse)

end BbjAnalysis.Java
