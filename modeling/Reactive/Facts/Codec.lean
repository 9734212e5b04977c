/-
  Facts as JSON.

  Sets of names are written sorted; so are the declarations of a scope.
-/
import Reactive.Facts.Basic
import Reactive.Json.Value

namespace Reactive

open Script

/-- Names in order of their code points. -/
def sortedNames (names : List String) : List String := names.mergeSort fun a b => a ≤ b

def DeclarationStyle.key : DeclarationStyle → String
  | .assignment => "assignment"
  | .statement => "statement"

def Declaration.toJson (d : Declaration) : Json :=
  .object [("style", .string d.style.key), ("assignees", .strings d.assignees),
    ("dependencies", .strings d.dependencies), ("code", .string d.code),
    ("start", .nat d.span.start), ("end", .nat d.span.stop)]

namespace Script

def ScopeKind.key : ScopeKind → String
  | .root => "root"
  | .function => "function"
  | .block => "block"
  | .loop => "for"
  | .handler => "catch"

def DeclarationKind.key : DeclarationKind → String
  | .var => "var"
  | .lexical => "let"
  | .constant => "const"
  | .function => "function"
  | .classDeclaration => "class"
  | .parameter => "param"
  | .caught => "catch-param"
  | .imported => "import"

def Site.toJson (s : Site) : Json :=
  .object [("kind", .string s.kind.key), ("start", .nat s.span.start), ("end", .nat s.span.stop)]

/-- The scope of a number. -/
def Scope.toJson (id : Nat) (s : Scope) : Json :=
  let sorted := s.declarations.mergeSort fun a b => a.1 ≤ b.1
  .object [("id", .nat id), ("kind", .string s.kind.key),
    ("parent", .optional (s.parent.map .nat)),
    ("declarations", .object (sorted.map fun d => (d.1, d.2.toJson)))]

def ScopeTree.toJson (t : ScopeTree) : Json :=
  .object [("scopes", .array (t.scopes.mapIdx Scope.toJson))]

end Script

def Facts.toJson (f : Facts) : Json :=
  .object [("globals", .strings (sortedNames f.globals)),
    ("reactive", .strings (sortedNames f.reactive)),
    ("referred", .strings (sortedNames f.referred)),
    ("assignees", .strings (sortedNames f.assignees)),
    ("hoisted", .strings f.hoisted),
    ("responsive", .array (f.responsive.map Declaration.toJson)),
    ("scopes", f.scopes.toJson)]

end Reactive
