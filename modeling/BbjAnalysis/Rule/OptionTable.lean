import BbjAnalysis.Ordered.Map
import BbjAnalysis.Program.Statement

/-! # Options of verbs

Which option keys a verb takes. Keys are compared in any letter case, and every verb
takes the branch option `err`.
-/

namespace BbjAnalysis

/-- The option keys of verbs, the verbs in capitals and the keys in small letters. -/
structure OptionTable where
  verbs : OrderedMap String (List String)

namespace OptionTable

/-- The table that knows no verb. -/
def empty : OptionTable := ⟨∅⟩

/-- The table in which a verb takes the given keys. -/
def withVerb (t : OptionTable) (verb : String) (keys : List String) : OptionTable :=
  ⟨t.verbs.insert verb.toUpper (keys.map (·.toLower))⟩

/-- The table of the language. -/
def standard : OptionTable := empty.withVerb "OPEN" ["mode", "tim"]

/-- Keys that every verb takes. -/
def universalKeys : List String := ["err"]

/-- The keys of a verb that the table knows; the verb is written in capitals. -/
def legalKeys (t : OptionTable) (verb : String) : Option (List String) := t.verbs.get? verb

/-- Whether a key is among others, in any letter case. -/
def hasKey (keys : List String) (key : String) : Bool := keys.any (·.toLower == key.toLower)

/-- The options that a verb does not take, in source order. A verb that the table does not know
takes all. -/
def illegal (t : OptionTable) (verb : String) (options : List StatementOption) :
    List StatementOption :=
  match t.legalKeys verb with
  | none => []
  | some legal => options.filter fun o => !hasKey (legal ++ universalKeys) o.key.text

end OptionTable

end BbjAnalysis
