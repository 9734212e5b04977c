/-
  Printing scripts.

  `layout` says how a node is printed from its label and its parts; printing is the fold
  of `layout` over the tree.
-/
import Reactive.Script.Parse
import Reactive.Script.Printer.Module

namespace Reactive.Script

namespace Printer

/-- The program: the line that names its interpreter, its statements, and the comments at its
end. -/
def programForm (span : Span) (ps : List Part) (m : Mode) : Writer Unit := do
  match ps with
  | first :: rest =>
    match first.label with
    | .hashbang _ =>
      first.print m
      statementList rest m
    | _ => statementList ps m
  | [] => nothing
  commentsAt span.stop

/-- How a node is printed. -/
def layout (label : Label) (span : Span) (ps : List Part) (m : Mode) : Writer Unit :=
  match label with
  | .absent => nothing
  | .identifier n | .binding n => word n
  | .word n => put n
  | .privateWord n => put ("#" ++ n)
  | .null => word "null"
  | .boolean b => word (if b then "true" else "false")
  | .number v => number v
  | .bigint v => bigint v
  | .string v => string v
  | .regex p f => regex p f
  | .template => templateForm ps
  | .templateText raw => chars (guardClosingTag raw.toList)
  | .this => word "this"
  | .super => word "super"
  | .array => arrayForm ps
  | .object => objectForm span ps m
  | .property kind method shorthand computed => propertyForm kind method shorthand computed ps m
  | .spread => spreadForm ps
  | .paren => (nth ps 0).print m
  | .function form async generator wrapped quiet =>
    functionForm form async generator wrapped quiet span ps m
  | .arrow async concise wrapped quiet => arrowForm async concise wrapped quiet ps m
  | .parameters => parametersForm ps m
  | .parameter => parameterForm ps m
  | .restParameter => restParameterForm ps m
  | .body => if m.core then conciseBody ps m else bodyForm span ps m
  | .directive raw => line span m (directive raw) ";\n"
  | .classNode form => classForm form span ps m
  | .classBody => classBodyForm ps m
  | .decorator => decoratorForm ps
  | .interfaces => commas (ps.map fun p => p.print {})
  | .method kind computed marks => methodForm kind computed marks ps m
  | .field computed accessor marks => fieldForm computed accessor marks ps
  | .staticBlock => staticBlockForm ps m
  | .unary op => unaryForm op ps m
  | .update op before => updateForm op before ps m
  | .binary op => binaryForm op ps m
  | .logical op => logicalForm op ps m
  | .privateIn => privateInForm ps m
  | .assign op => assignForm op ps m
  | .conditional => conditionalForm ps m
  | .call optional pure => callForm optional pure span ps m
  | .new pure => newForm pure span ps m
  | .member optional => memberForm optional ps m
  | .index optional => indexForm optional ps m
  | .privateMember optional => privateMemberForm optional ps m
  | .chain => chainForm ps m
  | .sequence => sequenceForm ps m
  | .tagged => taggedForm ps
  | .await => awaitForm ps m
  | .yield delegate => yieldForm delegate ps m
  | .importCall phase => importCallForm phase span ps m
  | .metaProperty => metaForm ps
  | .arrayTarget | .arrayPattern => arrayPatternForm ps m
  | .objectTarget => objectTargetForm ps m
  | .targetDefault | .targetName | .patternDefault => defaultForm ps m
  | .targetRest | .bindingRest => restForm ps m
  | .targetProperty computed => targetPropertyForm computed ps m
  | .objectPattern => objectPatternForm ps m
  | .patternProperty _ computed => patternPropertyForm computed ps m
  | .program => programForm span ps m
  | .hashbang text => put ("#!" ++ text ++ "\n")
  | .block => line span m (blockForm ps { m with core := false }) "\n"
  | .empty => line span m nothing ";\n"
  | .expressionStatement => expressionStatementForm span ps m
  | .ifStatement => ifForm span ps m
  | .doWhile => doWhileForm span ps m
  | .whileStatement => whileForm span ps m
  | .forStatement => forForm span ps m
  | .forIn => forInForm span ps m
  | .forOf await => forOfForm await span ps m
  | .continueStatement => keywordForm "continue" span ps m
  | .breakStatement => keywordForm "break" span ps m
  | .withStatement => withForm span ps m
  | .switchStatement => switchForm span ps m
  | .switchCase => caseForm ps m
  | .labeled => labeledForm span ps m
  | .throwStatement => keywordForm "throw" span ps m
  | .returnStatement => keywordForm "return" span ps m
  | .tryStatement => tryForm span ps m
  | .catchClause => catchForm span ps m
  | .debugger => keywordForm "debugger" span ps m
  | .variables kind => variablesForm kind span ps m
  | .declarator => declaratorForm ps m
  | .importStatement phase bare => importForm phase bare span ps m
  | .importName => renamed ps
  | .exportName => exportNameForm ps
  | .importDefault => (nth ps 0).print {}
  | .importNamespace => namespaceForm ps
  | .importAttributes legacy => attributesForm legacy ps
  | .importAttribute => attributeForm ps
  | .exportDeclaration => exportDeclarationForm span ps m
  | .exportNames hasSource => exportNamesForm hasSource span ps m
  | .exportDefault => exportDefaultForm span ps m
  | .exportAll => exportAllForm span ps m

/-- How a tree is printed. -/
def ofTree (t : Tree) : Mode → Writer Unit := Tree.fold layout t

end Printer

/-- The text of a script. -/
def Program.text (p : Program) : List Char :=
  ((Printer.ofTree p.tree {}).run (Printer.Page.blank p.comments)).2.text

end Reactive.Script
