/-
  Reading markup into tokens.

  The tokenizer reads the front of a text as the content model asks and returns the tokens
  found there and the rest. Line ends have been made uniform before.
-/
import Reactive.Markup.Doctype
import Reactive.Markup.Reference

namespace Reactive.Markup

/-! ## Line ends -/

/-- A text with every line end as a line feed. -/
def uniformLines : List Char → List Char
  | [] => []
  | '\r' :: '\n' :: cs => '\n' :: uniformLines cs
  | '\r' :: cs => '\n' :: uniformLines cs
  | c :: cs => c :: uniformLines cs

/-- A text without a byte order mark at its front. -/
def dropOrderMark : List Char → List Char
  | '\ufeff' :: cs => cs
  | cs => cs

/-- A text without null characters. -/
def withoutNull (cs : List Char) : List Char :=
  cs.map fun c => if c == '\x00' then replacement else c

/-! ## References in text -/

/-- A text with its references resolved. -/
def resolveWithin (inAttribute : Bool) : Nat → List Char → List Char
  | 0, cs => cs
  | _, [] => []
  | fuel + 1, '&' :: cs =>
    match reference? inAttribute cs with
    | some (value, rest) => value ++ resolveWithin inAttribute fuel rest
    | none => '&' :: resolveWithin inAttribute fuel cs
  | fuel + 1, c :: cs => c :: resolveWithin inAttribute fuel cs

/-- A text with its references resolved. -/
def resolve (inAttribute : Bool) (cs : List Char) : List Char :=
  resolveWithin inAttribute cs.length cs

/-! ## Tags -/

/-- The character ends a tag name. -/
def endsTagName (c : Char) : Bool := isMarkupBlank c || c == '/' || c == '>'

/-- A name in lower case. -/
def lowerName (cs : List Char) : String := String.ofList ((withoutNull cs).map Char.toLower)

/-- The value of an attribute. -/
def valueText (cs : List Char) : String := String.ofList (resolve true (withoutNull cs))

/-- A value behind the equals sign, and the rest; nothing if the text ends inside quotes. -/
def tagValue? (cs : List Char) : Option (String × List Char) :=
  let quoted (quote : Char) (cs : List Char) : Option (String × List Char) :=
    match cs.dropWhile (· != quote) with
    | [] => none
    | _ :: rest => some (valueText (cs.takeWhile (· != quote)), rest)
  match skipBlanks cs with
  | '"' :: rest => quoted '"' rest
  | '\'' :: rest => quoted '\'' rest
  | '>' :: rest => some ("", '>' :: rest)
  | rest =>
    let isPart (c : Char) : Bool := !isMarkupBlank c && c != '>'
    some (valueText (rest.takeWhile isPart), rest.dropWhile isPart)

/-- The name of an attribute, which an equals sign may open, and the rest. -/
def attrName : List Char → List Char × List Char
  | [] => ([], [])
  | c :: cs =>
    let isPart (c : Char) : Bool := !endsTagName c && c != '='
    (c :: cs.takeWhile isPart, cs.dropWhile isPart)

/-- The attributes of a tag up to its end, whether it closes itself, and the rest; nothing if the
text ends inside the tag. -/
def tagAttributes : Nat → List Char → Option (List Attr × Bool × List Char)
  | 0, _ => none
  | fuel + 1, cs =>
    match skipBlanks cs with
    | [] => none
    | '>' :: rest => some ([], false, rest)
    | '/' :: '>' :: rest => some ([], true, rest)
    | '/' :: rest => tagAttributes fuel rest
    | rest =>
      let (name, rest) := attrName rest
      match skipBlanks rest with
      | '=' :: rest => do
        let (value, rest) ← tagValue? rest
        let (attrs, closes, rest) ← tagAttributes fuel rest
        return (⟨lowerName name, value⟩ :: attrs, closes, rest)
      | rest => do
        let (attrs, closes, rest) ← tagAttributes fuel rest
        return (⟨lowerName name, ""⟩ :: attrs, closes, rest)

/-- Attributes without those whose name came before. -/
def distinctAttrs (attrs : List Attr) : List Attr :=
  attrs.foldl (fun kept a => if kept.any (·.name == a.name) then kept else kept ++ [a]) []

/-- A tag from its name on; nothing if the text ends inside it. -/
def readTag (isStart : Bool) (cs : List Char) : List Token × List Char :=
  let name := cs.takeWhile fun c => !endsTagName c
  let rest := cs.dropWhile fun c => !endsTagName c
  match tagAttributes (rest.length + 1) rest with
  | none => ([], [])
  | some (attrs, closes, rest) =>
    ([.tag ⟨isStart, lowerName name, distinctAttrs attrs, closes⟩], rest)

/-! ## Comments and other declarations -/

/-- The rest of a text behind the end of a comment. -/
def afterComment : List Char → List Char
  | [] => []
  | '-' :: '-' :: '>' :: cs => cs
  | '-' :: '-' :: '!' :: '>' :: cs => cs
  | _ :: cs => afterComment cs

/-- A comment behind its opening. -/
def skipComment : List Char → List Char
  | '>' :: cs => cs
  | '-' :: '>' :: cs => cs
  | cs => afterComment cs

/-- A text up to `]]>`, and the rest behind it. -/
def untilSectionEnd : List Char → List Char × List Char
  | [] => ([], [])
  | ']' :: ']' :: '>' :: cs => ([], cs)
  | c :: cs =>
    let (text, rest) := untilSectionEnd cs
    (c :: text, rest)

/-- What follows `<!`. -/
def readDeclaration (sections : Bool) (cs : List Char) : List Token × List Char :=
  match cs with
  | '-' :: '-' :: rest => ([.comment], skipComment rest)
  | _ =>
    match afterKeyword? "doctype" cs with
    | some rest =>
      let (d, rest) := readDoctype rest
      ([.doctype d.asksOldRules], rest)
    | none =>
      if sections && "[CDATA[".toList.isPrefixOf cs then
        let (text, rest) := untilSectionEnd (cs.drop 7)
        (charTokens text, rest)
      else ([.comment], skipToTagEnd cs)

/-! ## Content models -/

/-- What follows `<` in ordinary text. -/
def readMarkup (sections : Bool) (cs : List Char) : List Token × List Char :=
  match cs with
  | '!' :: rest => readDeclaration sections rest
  | '?' :: rest => ([.comment], skipToTagEnd rest)
  | '/' :: [] => (charTokens ['<', '/'], [])
  | '/' :: '>' :: rest => ([], rest)
  | '/' :: c :: rest =>
    if c.isAlpha then readTag false (c :: rest) else ([.comment], skipToTagEnd (c :: rest))
  | c :: rest => if c.isAlpha then readTag true (c :: rest) else (charTokens ['<'], c :: rest)
  | [] => (charTokens ['<'], [])

/-- Ordinary text. -/
def readData (sections : Bool) (cs : List Char) : List Token × List Char :=
  match cs with
  | '<' :: rest => readMarkup sections rest
  | _ => (charTokens (resolve false (cs.takeWhile (· != '<'))), cs.dropWhile (· != '<'))

/-- The rest of a text behind `</` and a name in any case, if a name ends there. -/
def atEndTag? (name : String) (cs : List Char) : Option (List Char) :=
  match cs with
  | '<' :: '/' :: rest =>
    match afterKeyword? name rest with
    | some (c :: more) => if endsTagName c then some (c :: more) else none
    | _ => none
  | _ => none

/-- The end tag at the front of a text, read from its name on. -/
def readEndTag (cs : List Char) : List Token × List Char := readTag false (cs.drop 2)

/-- A text up to the end tag of a name. -/
def untilEndTag (name : String) : List Char → List Char × List Char
  | [] => ([], [])
  | c :: cs =>
    if (atEndTag? name (c :: cs)).isSome then ([], c :: cs)
    else
      let (text, rest) := untilEndTag name cs
      (c :: text, rest)

/-- How deep in comments a script is. -/
inductive Escape where
  | none | comment | nested
deriving DecidableEq, Repr, Inhabited

/-- A script up to its end tag, given the comment that it is in and the dashes before it. -/
def untilScriptEnd : Escape → Nat → List Char → List Char × List Char
  | _, _, [] => ([], [])
  | escape, dashes, c :: cs =>
    let isTag (opening : String) : Bool := match afterKeyword? opening (c :: cs) with
      | some (d :: _) => endsTagName d
      | _ => false
    if escape != .nested && isTag "</script" then ([], c :: cs)
    else
      let dashes' := if c == '-' then dashes + 1 else 0
      let next : Escape × Nat := match escape with
        | .none => if "<!--".toList.isPrefixOf (c :: cs) then (.comment, 0) else (.none, 0)
        | .comment =>
          if c == '>' && dashes ≥ 2 then (.none, 0)
          else if isTag "<script" then (.nested, 0)
          else (.comment, dashes')
        | .nested =>
          if c == '>' && dashes ≥ 2 then (.none, 0)
          else if isTag "</script" then (.comment, 0)
          else (.nested, dashes')
      let (text, rest) := untilScriptEnd next.1 next.2 cs
      (c :: text, rest)

/-- Text up to an end tag, or the end tag itself if it comes first. -/
def textOrEndTag (text : List Char → List Token) (split : List Char × List Char) :
    List Token × List Char :=
  match split with
  | ([], []) => ([], [])
  | ([], rest) => readEndTag rest
  | (cs, rest) => (text cs, rest)

/-- The tokens at the front of a text that is not empty, and the rest. `sections` tells whether
sections of plain characters are allowed. -/
def readTokens (model : ContentModel) (sections : Bool) (cs : List Char) :
    List Token × List Char :=
  match model with
  | .data => readData sections cs
  | .rcdata name =>
    textOrEndTag (fun t => charTokens (resolve false (withoutNull t))) (untilEndTag name cs)
  | .rawtext name => textOrEndTag (fun t => charTokens (withoutNull t)) (untilEndTag name cs)
  | .script => textOrEndTag (fun t => charTokens (withoutNull t)) (untilScriptEnd .none 0 cs)
  | .plaintext => (charTokens (withoutNull cs), [])

end Reactive.Markup
