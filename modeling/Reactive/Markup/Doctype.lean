/-
  Document types.

  All that matters of a document type is whether it asks for the old rules of layout.
-/
import Reactive.Markup.Token

namespace Reactive.Markup

/-- A document type as written; names are in lower case. -/
structure Doctype where
  name : Option (List Char)
  publicId : Option (List Char)
  systemId : Option (List Char)
  /-- The text does not follow the grammar of document types. -/
  broken : Bool
deriving Repr, Inhabited

/-! ## Old rules -/

/-- Descriptions in public identifiers that ask for the old rules. -/
def oldDescriptions : List String := [
  "dtd html", "dtd html 2.0", "dtd html 2.0 extended", "dtd html 2.0 level 1",
  "dtd html 2.0 level 2", "dtd html 2.0 strict", "dtd html 2.0 strict level 1",
  "dtd html 2.0 strict level 2", "dtd html 2.1e", "dtd html 3", "dtd html 3 1995-03-24",
  "dtd html 3.0", "dtd html 3.2", "dtd html 3.2 draft", "dtd html 3.2 final", "dtd html 3.2s draft",
  "dtd html 4.0 frameset", "dtd html 4.0 transitional", "dtd html experimental 19960712",
  "dtd html experimental 970421", "dtd html extended 1.0", "dtd html extended relaxed 1.0",
  "dtd html level 0", "dtd html level 1", "dtd html level 2", "dtd html level 3",
  "dtd html strict", "dtd html strict level 0", "dtd html strict level 1",
  "dtd html strict level 2", "dtd html strict level 3", "dtd strict html", "dtd w3 html",
  "dtd w3 html 3.0", "dtd w3 html strict 3.0"]

/-- Descriptions that ask for the old rules unless a system identifier follows. -/
def looseDescriptions : List String := ["dtd html 4.01 frameset", "dtd html 4.01 transitional"]

/-- The description in a public identifier, in lower case. The parts of an identifier stand between
double slashes: a dash, the owner, the description and the language. -/
def description? (publicId : Option (List Char)) : Option String :=
  match (String.ofList ((publicId.getD []).map Char.toLower)).splitOn "//" with
  | "-" :: _ :: text :: _ :: _ => some text
  | _ => none

/-- A document type asks for the old rules of layout. -/
def Doctype.asksOldRules (d : Doctype) : Bool :=
  let text := (description? d.publicId).getD ""
  d.broken || d.name != some "html".toList || oldDescriptions.contains text
    || d.publicId.map (·.map Char.toLower) == some "html".toList
    || (looseDescriptions.contains text && d.systemId.isNone)

/-! ## Reading -/

/-- A text up to and with the next `>`, skipped. -/
def skipToTagEnd : List Char → List Char
  | [] => []
  | '>' :: cs => cs
  | _ :: cs => skipToTagEnd cs

/-- A text without its leading blanks. -/
def skipBlanks (cs : List Char) : List Char := cs.dropWhile isMarkupBlank

/-- A quoted identifier: its text, whether its quote was closed, and the rest. A `>` ends the
document type. -/
def quotedId (quote : Char) : List Char → List Char × Bool × List Char
  | [] => ([], false, [])
  | c :: cs =>
    if c == quote then ([], true, cs)
    else if c == '>' then ([], false, cs)
    else
      let (text, closed, rest) := quotedId quote cs
      (c :: text, closed, rest)

/-- The system identifier and the end of a document type. -/
def systemPart (d : Doctype) (required : Bool) (cs : List Char) : Doctype × List Char :=
  match skipBlanks cs with
  | '>' :: rest => ({ d with broken := d.broken || required }, rest)
  | '"' :: rest => finish '"' rest
  | '\'' :: rest => finish '\'' rest
  | rest => ({ d with broken := true }, skipToTagEnd rest)
where
  /-- The identifier behind its quote. -/
  finish (quote : Char) (cs : List Char) : Doctype × List Char :=
    let (text, closed, rest) := quotedId quote cs
    let d := { d with systemId := some text }
    if closed then
      match skipBlanks rest with
      | [] => ({ d with broken := true }, [])
      | '>' :: rest => (d, rest)
      | rest => (d, skipToTagEnd rest)
    else ({ d with broken := true }, rest)

/-- The public identifier and the rest of a document type. -/
def publicPart (d : Doctype) (cs : List Char) : Doctype × List Char :=
  match skipBlanks cs with
  | '"' :: rest => finish '"' rest
  | '\'' :: rest => finish '\'' rest
  | rest => ({ d with broken := true }, skipToTagEnd rest)
where
  /-- The identifier behind its quote. -/
  finish (quote : Char) (cs : List Char) : Doctype × List Char :=
    let (text, closed, rest) := quotedId quote cs
    let d := { d with publicId := some text }
    if closed then systemPart d false rest else ({ d with broken := true }, rest)

/-- A text behind a word in any case. -/
def afterKeyword? (word : String) (cs : List Char) : Option (List Char) :=
  let n := word.length
  if (cs.take n).map Char.toLower == word.toList then some (cs.drop n) else none

/-- A document type behind its keyword. -/
def readDoctype (cs : List Char) : Doctype × List Char :=
  let none : Doctype := ⟨Option.none, Option.none, Option.none, false⟩
  match skipBlanks cs with
  | [] => ({ none with broken := true }, [])
  | '>' :: rest => ({ none with broken := true }, rest)
  | named =>
    let isPart (c : Char) : Bool := !isMarkupBlank c && c != '>'
    let d := { none with name := some ((named.takeWhile isPart).map Char.toLower) }
    match skipBlanks (named.dropWhile isPart) with
    | [] => ({ d with broken := true }, [])
    | '>' :: rest => (d, rest)
    | rest =>
      match afterKeyword? "public" rest, afterKeyword? "system" rest with
      | some rest, _ => publicPart d rest
      | _, some rest => systemPart d true rest
      | _, _ => ({ d with broken := true }, skipToTagEnd rest)

end Reactive.Markup
