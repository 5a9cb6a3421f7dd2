import BbjAnalysis.Link.Links
import BbjAnalysis.Program.Walk
import BbjAnalysis.Rule.OptionTable
import BbjAnalysis.Scope.Tree

/-! # Rules

What a document that was read and linked is checked for: the options of its statements
and its labels. Every rule reports by itself, and the diagnostics of all rules are
then listed in one order.
-/

namespace BbjAnalysis

/-- What a rule may look at. -/
structure RuleContext where
  document : DocumentId
  program : Program
  tree : ScopeTree
  references : List ReferenceSite
  links : Links

inductive Rule where
  /-- `open` takes the options of a table alone. -/
  | statementOptions (table : OptionTable)
  /-- `MODE` belongs to `mkeyed` alone. -/
  | keyedMode
  /-- Every branch target is a label of the document. -/
  | undefinedLabel
  /-- A label is declared once in its scope. -/
  | duplicateLabel

namespace Rule

/-- The name of a rule, by which it is left out. -/
def id : Rule → String
  | .statementOptions _ => "statement-options"
  | .keyedMode => "keyed-mode"
  | .undefinedLabel => "undefined-label"
  | .duplicateLabel => "duplicate-label"

/-- A number as a word up to ten, in digits beyond. -/
def numberWord (n : Nat) : String :=
  (["zero", "one", "two", "three", "four", "five", "six", "seven", "eight", "nine", "ten"][n]?).getD
    (toString n)

/-- The verb whose options are checked. -/
def openVerb : String := "OPEN"

/-- The text on options that a verb does not take. -/
def illegalOptionsMessage (verb : String) (legal : List String) (illegal : List StatementOption) :
    String :=
  let count := numberWord legal.length
  let keys := ",".intercalate legal
  let found := ",".intercalate (illegal.map (·.key.text))
  s!"{verb} verb can have following {count} optional options: {keys}. Found: {found}."

/-- One diagnostic for all illegal options of a statement, at its list of options. -/
def checkOptions (document : DocumentId) (table : OptionTable) : Statement → List Diagnostic
  | .openFile node file =>
      match table.illegal openVerb file.options with
      | [] => []
      | illegal =>
          let message :=
            illegalOptionsMessage openVerb ((table.legalKeys openVerb).getD []) illegal
          [{ Diagnostic.error document node.id file.optionsSpan Code.illegalOptions message with
            part := some "options" }]
  | _ => []

/-- One diagnostic for each `MODE` of a verb that does not take it. -/
def checkMode (document : DocumentId) : Statement → List Diagnostic
  | .keyedFile node file =>
      if file.verb = .mkeyed then []
      else file.modeOptions.map fun o =>
        { Diagnostic.error document node.id o.span Code.optionOfOtherVerb
            "MODE option only supported in MKEYED Verb." with
          part := some "mode" }
  | _ => []

/-- Whether a branch target is bound to a label of its document. -/
def isDefinedLabel (ctx : RuleContext) (site : ReferenceSite) : Bool :=
  (ctx.links.bindings.get? site.node).any fun s =>
    s.kind == .label && s.document == some ctx.document

/-- One diagnostic for a branch target that is no label of the document. -/
def checkTarget (ctx : RuleContext) (site : ReferenceSite) : List Diagnostic :=
  if site.kind = .label ∧ !isDefinedLabel ctx site then
    [.error ctx.document site.node site.span Code.undefinedLabel
      s!"Could not resolve reference to label named '{site.text}'."]
  else []

/-- One diagnostic for each label of a name but the first. -/
def checkLabels (document : DocumentId) (name : String) : List Symbol → List Diagnostic
  | [] => []
  | first :: later =>
      later.filterMap fun duplicate => duplicate.node.map fun node =>
        { Diagnostic.error document node duplicate.span Code.duplicateLabel
            s!"Duplicate label '{name}'." with
          related := [⟨document, first.span, "first declared here"⟩] }

/-- The labels declared more than once in a scope. -/
def checkScope (ctx : RuleContext) (scope : Scope) : List Diagnostic :=
  scope.names.flatMap fun (name, ids) =>
    checkLabels ctx.document name
      ((ids.filterMap (ctx.tree.symbols[·]?)).filter (·.kind == .label))

/-- What a rule reports. -/
def check (ctx : RuleContext) : Rule → List Diagnostic
  | .statementOptions table =>
      ctx.program.allStatements.flatMap (checkOptions ctx.document table)
  | .keyedMode => ctx.program.allStatements.flatMap (checkMode ctx.document)
  | .undefinedLabel => ctx.references.flatMap (checkTarget ctx)
  | .duplicateLabel => ctx.tree.scopes.toList.flatMap (checkScope ctx)

end Rule

/-- Rules in the order in which they check. -/
structure RuleSet where
  rules : List Rule

namespace RuleSet

/-- All rules, with the given table of options. -/
def withOptions (table : OptionTable) : RuleSet :=
  ⟨[.statementOptions table, .keyedMode, .undefinedLabel, .duplicateLabel]⟩

/-- All rules, with the table of the language. -/
def standard : RuleSet := withOptions .standard

/-- The rules without those of the given name. -/
def without (s : RuleSet) (id : String) : RuleSet := ⟨s.rules.filter (·.id != id)⟩

def ids (s : RuleSet) : List String := s.rules.map (·.id)

/-- The names of the rules as a list in brackets. -/
def display (s : RuleSet) : String :=
  "[" ++ ", ".intercalate (s.ids.map fun id => "\"" ++ id ++ "\"") ++ "]"

/-- What all rules report, in the order of listing. -/
def validate (s : RuleSet) (ctx : RuleContext) : List Diagnostic :=
  Diagnostic.finish (s.rules.flatMap (·.check ctx))

end RuleSet

end BbjAnalysis
