/-
  Printing imports and exports.
-/
import Reactive.Script.Printer.Statement

namespace Reactive.Script.Printer

/-- A name in an import or export list, compared by its value. -/
def moduleName (t : Tree) : List Nat :=
  match t.label with
  | .word n | .identifier n | .binding n => n.toList.map Char.toNat
  | .string v => v
  | _ => []

/-- `a as b`, or `a` where both are the same name. -/
def renamed (ps : List Part) : Writer Unit := do
  (nth ps 0).print {}
  unless moduleName (nth ps 0).tree == moduleName (nth ps 1).tree do
    put " as "
    (nth ps 1).print {}

/-- A name in an export list, with the comments before its two names. -/
def exportNameForm (ps : List Part) : Writer Unit := do
  commentsBefore (nth ps 0).start
  (nth ps 0).print {}
  unless moduleName (nth ps 0).tree == moduleName (nth ps 1).tree do
    put " as "
    commentsBefore (nth ps 1).start
    (nth ps 1).print {}

/-- Items in braces on one line. -/
def braceList (ps : List Part) : Writer Unit :=
  if ps.isEmpty then put "\x7b\x7d"
  else do
    put "\x7b "
    commas (ps.map fun p => p.print {})
    put " \x7d"

/-- The part is the source of an import or export. -/
def isSource (p : Part) : Bool :=
  match p.label with
  | .string _ => true
  | _ => false

/-- The part is the attributes of an import or export. -/
def isAttributes (p : Part) : Bool :=
  match p.label with
  | .importAttributes _ => true
  | _ => false

/-- The source among the children. -/
def sourceOf (ps : List Part) : Writer Unit :=
  (ps.filter isSource).forM fun p => p.print {}

/-- The source and the attributes among the children. -/
def sourceTail (ps : List Part) : Writer Unit := do
  sourceOf ps
  (ps.filter isAttributes).forM fun p => do
    put " "
    p.print {}

/-- `with { … }`. -/
def attributesForm (legacy : Bool) (ps : List Part) : Writer Unit := do
  put (if legacy then "assert " else "with ")
  braceList ps

/-- A code point of a source as it stands; a lone surrogate is written as four digits behind a
replacement character. -/
def bareChar (n : Nat) : List Char :=
  if isHighSurrogate n || isLowSurrogate n then '\uFFFD' :: hexUnit n else [Char.ofNat n]

/-- The source among the children in quotes, with nothing in it escaped. -/
def bareSource (ps : List Part) : Writer Unit := do
  put "\""
  ps.forM fun p => match p.label with
    | .string v => chars (v.flatMap bareChar)
    | _ => nothing
  put "\""

/-- The part is a name in the braces of an import. -/
def isImportName (p : Part) : Bool :=
  match p.label with
  | .importName => true
  | _ => false

/-- The part is an item of an import outside braces. -/
def isImportHead (p : Part) : Bool :=
  match p.label with
  | .importDefault | .importNamespace => true
  | _ => false

/-- What an import takes. -/
def importItems (ps : List Part) : Writer Unit :=
  let heads := (ps.filter isImportHead).map fun p => p.print {}
  let names := ps.filter isImportName
  if heads.isEmpty || !names.isEmpty then commas (heads ++ [braceList names])
  else commas heads

/-- The import takes nothing from its source. -/
def takesNothing (bare : Bool) (ps : List Part) : Bool :=
  !bare && !(ps.any fun p => isImportHead p || isImportName p)

/-- An import. One that takes nothing keeps its source as it stands, and no attributes. -/
def importForm (phase : Option Phase) (bare : Bool) (span : Span) (ps : List Part) (m : Mode) :
    Writer Unit :=
  line span m (do
    put "import "
    match phase with
    | some p => put (phaseText p ++ " ")
    | none => nothing
    if takesNothing bare ps then
      put "\x7b\x7d from "
      bareSource ps
    else
      unless bare do
        importItems ps
        put " from "
      sourceTail ps) ";\n"

/-- `* as name`. -/
def namespaceForm (ps : List Part) : Writer Unit := do
  put "* as "
  (nth ps 0).print {}

/-- `key: "value"`. -/
def attributeForm (ps : List Part) : Writer Unit := do
  (nth ps 0).print {}
  put ": "
  (nth ps 1).print {}

/-- The part declares variables. -/
def isVariables (p : Part) : Bool :=
  match p.label with
  | .variables _ => true
  | _ => false

/-- The part is a function whose calls have no effect. -/
def isQuiet (p : Part) : Bool :=
  match p.label with
  | .function _ _ _ _ quiet => quiet
  | _ => false

/-- `export declaration`. -/
def exportDeclarationForm (span : Span) (ps : List Part) (m : Mode) : Writer Unit :=
  line span m (do
    quietAbove (isQuiet (nth ps 0))
    put "export "
    (nth ps 0).print { m with core := true })
    (if isVariables (nth ps 0) then ";\n" else "\n")

/-- `export { … }`. The attributes of its source are not printed. -/
def exportNamesForm (hasSource : Bool) (span : Span) (ps : List Part) (m : Mode) : Writer Unit :=
  line span m (do
    put "export "
    let names := ps.filter fun p => p.label = .exportName
    braceList names
    if hasSource then
      put " from "
      sourceOf ps) ";\n"

/-- `export * …`. -/
def exportAllForm (span : Span) (ps : List Part) (m : Mode) : Writer Unit :=
  line span m (do
    put "export *"
    unless (nth ps 0).isAbsent do
      put " as "
      (nth ps 0).print {}
    put " from "
    sourceTail (ps.drop 1)) ";\n"

/-- The part is a function or class that ends without a semicolon. -/
def isExportedDeclaration (p : Part) : Bool :=
  match p.label with
  | .function .exported .. | .classNode .exported => true
  | _ => false

/-- `export default …`. -/
def exportDefaultForm (span : Span) (ps : List Part) (m : Mode) : Writer Unit :=
  let p := nth ps 0
  line span m (do
    if isExportedDeclaration p then quietAbove (isQuiet p)
    put "export default "
    if isExportedDeclaration p then p.print {}
    else
      markDefault
      p.level Level.comma) (if isExportedDeclaration p then "\n" else ";\n")

end Reactive.Script.Printer
