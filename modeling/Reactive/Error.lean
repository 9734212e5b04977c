/-
  Why a component cannot be compiled.
-/
import Reactive.Json.Value

namespace Reactive

/-- Where braces stand. -/
inductive BraceSite where
  | text
  | attributeValue
deriving DecidableEq, Repr, Inhabited

/-- The name of a site in JSON. -/
def BraceSite.key : BraceSite → String
  | .text => "text"
  | .attributeValue => "attribute-value"

/-- The name of a site in a message. -/
def BraceSite.words : BraceSite → String
  | .text => "text"
  | .attributeValue => "attribute value"

/-- The site with a name. -/
def BraceSite.ofKey? : String → Option BraceSite
  | "text" => some .text
  | "attribute-value" => some .attributeValue
  | _ => none

/-- A reason not to compile a component. -/
inductive CompileError where
  | multipleScriptBlocks (count : Nat)
  | unmatchedOpenBrace (site : BraceSite) (text : String)
  | unmatchedCloseBrace (site : BraceSite) (text : String)
  | emptyExpression (site : BraceSite) (text : String)
  | invalidExpression (code message : String)
  | scriptSyntax (message : String)
  | markupParse (message : String)
deriving DecidableEq, Repr, Inhabited

namespace CompileError

/-- The stable code of an error. -/
def code : CompileError → String
  | .multipleScriptBlocks _ => "MS-ERR-SCRIPT-001"
  | .scriptSyntax _ => "MS-ERR-SCRIPT-002"
  | .unmatchedOpenBrace .. => "MS-ERR-BRACE-001"
  | .unmatchedCloseBrace .. => "MS-ERR-BRACE-002"
  | .emptyExpression .. => "MS-ERR-EXPR-001"
  | .invalidExpression .. => "MS-ERR-EXPR-002"
  | .markupParse _ => "MS-ERR-MARKUP-001"

/-- The name of the kind of an error. -/
def kind : CompileError → String
  | .multipleScriptBlocks _ => "multiple-script-blocks"
  | .scriptSyntax _ => "script-syntax"
  | .unmatchedOpenBrace .. => "unmatched-open-brace"
  | .unmatchedCloseBrace .. => "unmatched-close-brace"
  | .emptyExpression .. => "empty-expression"
  | .invalidExpression .. => "invalid-expression"
  | .markupParse _ => "markup-parse"

/-- A sentence about an error. -/
def message : CompileError → String
  | .multipleScriptBlocks count =>
    "expected at most one <script> block, found " ++ toString count
  | .unmatchedOpenBrace site text => "unmatched '\x7b' in " ++ site.words ++ ": `" ++ text ++ "`"
  | .unmatchedCloseBrace site text => "unmatched '\x7d' in " ++ site.words ++ ": `" ++ text ++ "`"
  | .emptyExpression site text => "empty expression in " ++ site.words ++ ": `" ++ text ++ "`"
  | .invalidExpression code message => "invalid expression `" ++ code ++ "`: " ++ message
  | .scriptSyntax message => "script failed to parse: " ++ message
  | .markupParse message => "markup failed to parse: " ++ message

/-- The fields of an error, its kind aside. -/
def fields : CompileError → List (String × Json)
  | .multipleScriptBlocks count => [("count", .nat count)]
  | .unmatchedOpenBrace site text | .unmatchedCloseBrace site text | .emptyExpression site text =>
    [("site", .string site.key), ("text", .string text)]
  | .invalidExpression code message => [("code", .string code), ("message", .string message)]
  | .scriptSyntax message | .markupParse message => [("message", .string message)]

/-- An error as JSON. -/
def toJson (e : CompileError) : Json := .object (("kind", .string e.kind) :: e.fields)

end CompileError

end Reactive
