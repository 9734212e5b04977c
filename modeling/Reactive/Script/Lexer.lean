/-
  Reading tokens.

  `scanToken` reads one token at the start of a text; `nextToken` first skips blanks and
  comments. Texts are lists of characters with the byte offset of their head. A text
  that starts no token ends the script there; a token with a flaw, such as a string
  with a meaningless escape, is still a token, and the flaw is reported beside it.

  Two tokens depend on the grammar and are read on demand: `scanRegex` where an operand
  may start with a slash, and `scanTemplatePiece` after the brace that ends a hole.
-/
import Reactive.Script.Token
import Reactive.Script.Number
import Reactive.Text.Letters

namespace Reactive.Script

open Reactive.Text

/-- A text and the byte offset of its head. -/
structure Cursor where
  rest : List Char
  offset : Nat
deriving Repr, Inhabited

namespace Cursor

/-- The cursor after `n` more characters. -/
def skip : Nat → Cursor → Cursor
  | 0, k => k
  | n + 1, ⟨[], o⟩ => skip n ⟨[], o⟩
  | n + 1, ⟨c :: cs, o⟩ => skip n ⟨cs, o + c.utf8Size⟩

/-- The head. -/
def peek (k : Cursor) : Option Char := k.rest.head?

/-- The longest run of characters in a class, and the cursor behind it. -/
def span (p : Char → Bool) (k : Cursor) : List Char × Cursor :=
  go k.rest k.offset
where
  go : List Char → Nat → List Char × Cursor
    | [], o => ([], ⟨[], o⟩)
    | c :: cs, o =>
      if p c then
        let (taken, k) := go cs (o + c.utf8Size)
        (c :: taken, k)
      else ([], ⟨c :: cs, o⟩)

end Cursor

/-! ## Character classes of the language -/

/-- Line terminators. -/
def isLineEnd (c : Char) : Bool := c == '\n' || c == '\r' || c == '\u2028' || c == '\u2029'

/-- Blanks inside a line. -/
def isSpace (c : Char) : Bool :=
  let n := c.toNat
  n == 0x20 || n == 9 || n == 11 || n == 12 || n == 0xA0 || n == 0xFEFF || n == 0x85 ||
  n == 0x1680 || n == 0x180E || (0x2000 ≤ n && n ≤ 0x200B) || n == 0x202F || n == 0x205F ||
  n == 0x3000

/-- Characters that start a name. -/
def isNameStart (c : Char) : Bool := c == '$' || c == '_' || isIdStart c

/-- Characters that continue a name; the joiners count. -/
def isNamePart (c : Char) : Bool :=
  c == '$' || isIdContinue c || c == '\u200C' || c == '\u200D'

/-- The value of a hexadecimal digit. -/
def hexValue? (c : Char) : Option Nat :=
  if '0' ≤ c && c ≤ '9' then some (c.toNat - '0'.toNat)
  else if 'a' ≤ c && c ≤ 'f' then some (c.toNat - 'a'.toNat + 10)
  else if 'A' ≤ c && c ≤ 'F' then some (c.toNat - 'A'.toNat + 10)
  else none

/-- The value of hexadecimal digits, if all are. -/
def hexNumber? (cs : List Char) : Option Nat :=
  cs.foldl (fun acc c => match acc, hexValue? c with
    | some n, some d => some (n * 16 + d)
    | _, _ => none) (some 0)

/-! ## Escapes -/

/-- A `\u` escape, read behind the `u`: its value and what follows. -/
def unicodeEscape (cs : List Char) : Option (Nat × List Char) :=
  match cs with
  | '{' :: r =>
    let digits := r.takeWhile (fun c => (hexValue? c).isSome)
    match r.dropWhile (fun c => (hexValue? c).isSome) with
    | '}' :: tail =>
      if digits.isEmpty then none
      else match hexNumber? digits with
        | some n => if n ≤ 0x10FFFF then some (n, tail) else none
        | none => none
    | _ => none
  | a :: b :: c :: d :: tail =>
    match hexNumber? [a, b, c, d] with
    | some n => some (n, tail)
    | none => none
  | _ => none

def isHighSurrogate (n : Nat) : Bool := 0xD800 ≤ n && n ≤ 0xDBFF

def isLowSurrogate (n : Nat) : Bool := 0xDC00 ≤ n && n ≤ 0xDFFF

/-- A `\u` escape with four digits for each half of a pair is one code point. -/
def pairedEscape (n : Nat) (before after : List Char) : Nat × List Char :=
  match before with
  | '{' :: _ => (n, after)
  | _ =>
    if isHighSurrogate n then
      match after with
      | '\\' :: 'u' :: a :: b :: c :: d :: tail =>
        match hexNumber? [a, b, c, d] with
        | some m =>
          if isLowSurrogate m then (0x10000 + (n - 0xD800) * 0x400 + (m - 0xDC00), tail)
          else (n, after)
        | none => (n, after)
      | _ => (n, after)
    else (n, after)

def isOctal (c : Char) : Bool := '0' ≤ c && c ≤ '7'

/-- An octal escape, read from its first digit: at most three digits and at most 255. -/
def octalEscape (c : Char) (cs : List Char) : Nat × List Char :=
  let d := c.toNat - '0'.toNat
  match cs with
  | a :: r =>
    if isOctal a then
      let n := d * 8 + (a.toNat - '0'.toNat)
      match r with
      | b :: tail =>
        if isOctal b && d ≤ 3 then (n * 8 + (b.toNat - '0'.toNat), tail) else (n, r)
      | [] => (n, r)
    else (d, cs)
  | [] => (d, cs)

/-- The code points of a quoted body, and whether all its escapes have a meaning. Octal escapes
have one in strings only. -/
def unescape (template : Bool) : Nat → List Char → List Nat × Bool
  | 0, _ => ([], true)
  | _, [] => ([], true)
  | fuel + 1, c :: cs =>
    let continueWith (point : Nat) (rest : List Char) : List Nat × Bool :=
      let (ps, ok) := unescape template fuel rest
      (point :: ps, ok)
    let skipTo (ok : Bool) (rest : List Char) : List Nat × Bool :=
      let (ps, ok') := unescape template fuel rest
      (ps, ok && ok')
    if c != '\\' then continueWith c.toNat cs
    else match cs with
      | [] => ([], true)
      | '\r' :: '\n' :: r => skipTo true r
      | e :: r =>
        if isLineEnd e then skipTo true r
        else match e with
          | 'n' => continueWith 10 r
          | 't' => continueWith 9 r
          | 'r' => continueWith 13 r
          | 'b' => continueWith 8 r
          | 'v' => continueWith 11 r
          | 'f' => continueWith 12 r
          | 'x' =>
            match r with
            | a :: b :: tail =>
              match hexNumber? [a, b] with
              | some n => continueWith n tail
              | none => skipTo false r
            | _ => skipTo false r
          | 'u' =>
            match unicodeEscape r with
            | some (n, tail) =>
              let (point, tail) := pairedEscape n r tail
              continueWith point tail
            | none => skipTo false r
          | _ =>
            if e == '0' && !(r.head?.any (·.isDigit)) then continueWith 0 r
            else if e.isDigit && template then skipTo false r
            else if isOctal e then
              let (n, tail) := octalEscape e r
              continueWith n tail
            else continueWith e.toNat r

/-! ## One token -/

/-- What reading a token gives: the kind, the cursor behind it, whether a word was written with
escapes, and whether the text has a flaw. -/
structure Scan where
  kind : TokenKind
  next : Cursor
  escaped : Bool
  flawed : Bool
deriving Repr, Inhabited

/-- A sound token. -/
def Scan.ok (kind : TokenKind) (next : Cursor) : Scan := ⟨kind, next, false, false⟩

/-- Text that is no token: the script counts as ended here, and as flawed. -/
def Scan.bad (next : Cursor) : Scan := ⟨.endOfInput, next, false, true⟩

/-- The body of a string up to the closing quote, and the cursor behind that quote; `none` when
the line ends first. -/
def stringBody (quote : Char) : List Char → Nat → Option (List Char × Cursor)
  | [], _ => none
  | '\\' :: '\r' :: '\n' :: cs, o =>
    (stringBody quote cs (o + 3)).map fun (b, k) => ('\\' :: '\r' :: '\n' :: b, k)
  | '\\' :: c :: cs, o =>
    (stringBody quote cs (o + 1 + c.utf8Size)).map fun (b, k) => ('\\' :: c :: b, k)
  | c :: cs, o =>
    if c == quote then some ([], ⟨cs, o + 1⟩)
    else if c == '\n' || c == '\r' then none
    else (stringBody quote cs (o + c.utf8Size)).map fun (b, k) => (c :: b, k)

/-- A string literal, read behind its opening quote. -/
def scanString (quote : Char) (k : Cursor) : Scan :=
  match stringBody quote k.rest k.offset with
  | none => .bad ⟨[], k.offset⟩
  | some (body, next) =>
    let (points, ok) := unescape false (body.length + 1) body
    ⟨.string points, next, false, !ok⟩

/-- A template piece up to a hole or the closing backtick; the flag tells whether it is the last. -/
def templateBody : List Char → Nat → Option (List Char × Bool × Cursor)
  | [], _ => none
  | '\\' :: c :: cs, o =>
    (templateBody cs (o + 1 + c.utf8Size)).map fun (b, l, k) => ('\\' :: c :: b, l, k)
  | '$' :: '{' :: cs, o => some ([], false, ⟨cs, o + 2⟩)
  | c :: cs, o =>
    if c == '`' then some ([], true, ⟨cs, o + 1⟩)
    else (templateBody cs (o + c.utf8Size)).map fun (b, l, k) => (c :: b, l, k)

/-- Line ends as templates hold them: a carriage return is a line feed. -/
def normalizeReturns : List Char → List Char
  | [] => []
  | '\r' :: '\n' :: cs => '\n' :: normalizeReturns cs
  | '\r' :: cs => '\n' :: normalizeReturns cs
  | c :: cs => c :: normalizeReturns cs

/-- A template piece, read behind the backtick or brace before it. -/
def scanTemplatePiece (k : Cursor) : Scan :=
  match templateBody k.rest k.offset with
  | none => .bad ⟨[], k.offset⟩
  | some (body, last, next) =>
    let (_, ok) := unescape true (body.length + 1) body
    .ok (.template (String.ofList (normalizeReturns body)) ok last) next

/-! ### Names -/

/-- The name at the cursor: its characters, the cursor behind it, whether it has escapes; `none`
if an escape is malformed or stands for a character that cannot be there. -/
def nameBody : Nat → Bool → Cursor → Option (List Char × Cursor × Bool)
  | 0, _, k => some ([], k, false)
  | fuel + 1, first, k =>
    let allowed (c : Char) : Bool := if first then isNameStart c else isNamePart c
    match k.rest with
    | '\\' :: 'u' :: r =>
      match unicodeEscape r with
      | none => none
      | some (n, tail) =>
        let c := Char.ofNat n
        if n.isValidChar && allowed c then
          let used := r.length - tail.length + 2
          match nameBody fuel false (k.skip used) with
          | none => none
          | some (cs, next, _) => some (c :: cs, next, true)
        else none
    | '\\' :: _ => none
    | c :: _ =>
      if allowed c then
        let (run, next) := k.span isNamePart
        match next.rest with
        | '\\' :: _ =>
          match nameBody fuel false next with
          | none => none
          | some (cs, next, _) => some (run ++ cs, next, true)
        | _ => some (run, next, false)
      else some ([], k, false)
    | [] => some ([], k, false)

/-- A name, read from its first character. -/
def scanName (k : Cursor) : Scan :=
  match nameBody (k.rest.length + 1) true k with
  | some (c :: cs, next, escaped) => ⟨.word (String.ofList (c :: cs)), next, escaped, false⟩
  | _ => .bad (k.skip 1)

/-- A private name, read behind the `#`. -/
def scanPrivateName (k : Cursor) : Scan :=
  match nameBody (k.rest.length + 1) true k with
  | some (c :: cs, next, escaped) => ⟨.privateName (String.ofList (c :: cs)), next, escaped, false⟩
  | _ => .bad (k.skip 1)

/-! ### Numbers -/

/-- Digits with single separators between them; `none` when there is no digit or a separator is
out of place. -/
def digitRun (isDigit : Char → Bool) (k : Cursor) : Option (List Char × Cursor) :=
  let (run, next) := k.span (fun c => isDigit c || c == '_')
  let separated : List Char → Bool := fun cs =>
    cs.head? != some '_' && cs.getLast? != some '_' &&
      (cs.zip (cs.drop 1)).all (fun p => !(p.1 == '_' && p.2 == '_'))
  if run.isEmpty || !separated run then none
  else some (run.filter (· != '_'), next)

/-- Nothing that could belong to a name or number may follow a number. -/
def endNumber (kind : TokenKind) (k : Cursor) : Scan :=
  match k.peek with
  | some c => if c.isDigit || isNameStart c then .bad (k.span isNamePart).2 else .ok kind k
  | none => .ok kind k

/-- The value of decimal digits. -/
def decimalValue (ds : List Char) : Nat :=
  ds.foldl (fun acc c => acc * 10 + (c.toNat - '0'.toNat)) 0

/-- A number in base `2 ^ bits`, read behind its marker. -/
def scanRadix (bits exact : Nat) (isDigit : Char → Bool) (k : Cursor) : Scan :=
  match digitRun isDigit k with
  | none => .bad (k.span isNamePart).2
  | some (ds, next) =>
    let values := ds.map fun c => (hexValue? c).getD 0
    match next.rest with
    | 'n' :: _ =>
      endNumber (.bigint (values.foldl (fun acc d => acc * Nat.pow 2 bits + d) 0)) (next.skip 1)
    | _ => endNumber (.number (Number.ofBits bits exact values)) next

/-- The exponent part behind its mark, as sign and digits. -/
def exponentPart (k : Cursor) : Option (Int × Cursor) :=
  let (negative, k) := match k.rest with
    | '+' :: _ => (false, k.skip 1)
    | '-' :: _ => (true, k.skip 1)
    | _ => (false, k)
  match digitRun Char.isDigit k with
  | none => none
  | some (ds, next) =>
    let n : Int := decimalValue ds
    some (if negative then -n else n, next)

/-- An optional exponent, then the end of the number. -/
def finishDecimal (digits : Nat) (exponent : Int) (k : Cursor) : Scan :=
  match k.rest with
  | 'e' :: _ | 'E' :: _ =>
    match exponentPart (k.skip 1) with
    | none => .bad ((k.skip 1).span isNamePart).2
    | some (e, next) => endNumber (.number (Number.ofDecimal digits (exponent + e))) next
  | _ => endNumber (.number (Number.ofDecimal digits exponent)) k

/-- The fraction part behind the point, after the digits `whole`. -/
def scanFraction (whole : List Char) (k : Cursor) : Scan :=
  match k.peek with
  | some c =>
    if c.isDigit then
      match digitRun Char.isDigit k with
      | none => .bad (k.span isNamePart).2
      | some (ds, next) =>
        finishDecimal (decimalValue (whole ++ ds)) (-(ds.length : Int)) next
    else finishDecimal (decimalValue whole) 0 k
  | none => finishDecimal (decimalValue whole) 0 k

/-- A number that starts with a zero and another digit: octal if all its digits are, else
decimal. -/
def scanLeadingZero (k : Cursor) : Scan :=
  let (run, next) := k.span Char.isDigit
  if run.all isOctal then
    endNumber (.number (Number.ofBits 3 21 (run.map fun c => (hexValue? c).getD 0))) next
  else match next.rest with
    | '.' :: _ => scanFraction run (next.skip 1)
    | _ => finishDecimal (decimalValue run) 0 next

/-- A number, read from its first digit. -/
def scanNumber (k : Cursor) : Scan :=
  match k.rest with
  | '0' :: 'x' :: _ | '0' :: 'X' :: _ =>
    scanRadix 4 16 (fun c => (hexValue? c).isSome) (k.skip 2)
  | '0' :: 'o' :: _ | '0' :: 'O' :: _ => scanRadix 3 21 isOctal (k.skip 2)
  | '0' :: 'b' :: _ | '0' :: 'B' :: _ => scanRadix 1 64 (fun c => c == '0' || c == '1') (k.skip 2)
  | '0' :: c :: _ =>
    if c.isDigit then scanLeadingZero k
    else match c with
      | '.' => scanFraction ['0'] (k.skip 2)
      | 'n' => endNumber (.bigint 0) (k.skip 2)
      | _ => finishDecimal 0 0 (k.skip 1)
  | _ =>
    match digitRun Char.isDigit k with
    | none => .bad (k.span isNamePart).2
    | some (ds, next) =>
      match next.rest with
      | '.' :: _ => scanFraction ds (next.skip 1)
      | 'n' :: _ => endNumber (.bigint (decimalValue ds)) (next.skip 1)
      | _ => finishDecimal (decimalValue ds) 0 next

/-! ### Punctuators -/

/-- Punctuators, each before its own beginnings. -/
def punctuators : List String := [
  ">>>=", "...", "===", "!==", "**=", "<<=", ">>=", ">>>", "&&=", "||=", "??=",
  "=>", "==", "!=", "<=", ">=", "&&", "||", "??", "?.", "++", "--", "+=", "-=", "*=", "/=",
  "%=", "&=", "|=", "^=", "<<", ">>", "**",
  "\x7b", "\x7d", "(", ")", "[", "]", ";", ",", "<", ">", "+", "-", "*", "/", "%", "&", "|", "^",
  "!", "~", "?", ":", "=", ".", "@"]

/-- The longest punctuator at the start of a text. `?.` before a digit is a question mark. -/
def punctuatorAt (cs : List Char) : Option String :=
  punctuators.find? fun p =>
    p.toList.isPrefixOf cs && !(p == "?." && (cs.drop 2).head?.any (·.isDigit))

/-- One token at the head of a text; blanks and comments are not skipped here. -/
def scanToken (k : Cursor) : Scan :=
  match k.rest with
  | [] => .ok .endOfInput k
  | c :: r =>
    if isNameStart c || c == '\\' then scanName k
    else if c.isDigit then scanNumber k
    else if c == '.' && r.head?.any (·.isDigit) then scanFraction [] (k.skip 1)
    else if c == '"' || c == '\'' then scanString c (k.skip 1)
    else if c == '`' then scanTemplatePiece (k.skip 1)
    else if c == '#' then scanPrivateName (k.skip 1)
    else match punctuatorAt k.rest with
      | some p => .ok (.punct p) (k.skip p.length)
      | none => .bad (k.skip 1)

/-! ## Between tokens -/

/-- The text of a block comment behind its opening, up to and with its closing. -/
def blockCommentBody : List Char → Nat → Option (List Char × Cursor)
  | [], _ => none
  | '*' :: '/' :: cs, o => some (['*', '/'], ⟨cs, o + 2⟩)
  | c :: cs, o => (blockCommentBody cs (o + c.utf8Size)).map fun (b, k) => (c :: b, k)

/-- What skipping blanks and comments gives. -/
structure Gap where
  next : Cursor
  trivia : Trivia
  newline : Bool
  flawed : Bool
deriving Inhabited

/-- Blanks and comments before the next token, one at a time. -/
def skipGap : Nat → Cursor → Trivia → Bool → Gap
  | 0, k, t, nl => ⟨k, t, nl, false⟩
  | fuel + 1, k, t, nl =>
    match k.rest with
    | [] => ⟨k, t, nl, false⟩
    | '/' :: '/' :: _ =>
      let (text, next) := k.span (fun c => !isLineEnd c)
      skipGap fuel next (t.addLine text) true
    | '/' :: '*' :: _ =>
      match blockCommentBody (k.skip 2).rest (k.skip 2).offset with
      | none => ⟨k.skip k.rest.length, t, nl, true⟩
      | some (body, next) =>
        let multi := body.any fun c => c == '\n' || c == '\r'
        let broken := body.any isLineEnd
        let kind := if multi then CommentKind.lines else CommentKind.block
        skipGap fuel next (t.addBlock kind ('/' :: '*' :: body)) (nl || broken)
    | c :: _ =>
      if c == '\n' || c == '\r' then skipGap fuel (k.skip 1) t.addNewline true
      else if isLineEnd c then skipGap fuel (k.skip 1) t true
      else if isSpace c then skipGap fuel (k.span isSpace).2 t nl
      else ⟨k, t, nl, false⟩

/-- What reading the next token gives. `here` is the text from the start of the token. -/
structure Read where
  token : Token
  here : Cursor
  next : Cursor
  trivia : Trivia
  flawed : Bool
deriving Inhabited

/-- The next token after blanks and comments. -/
def nextToken (k : Cursor) (trivia : Trivia) : Read :=
  let gap := skipGap (k.rest.length + 1) k trivia false
  let s := scanToken gap.next
  let opener := match s.kind with
    | .punct p => p == "=" || p == "("
    | _ => false
  { token := ⟨s.kind, gap.next.offset, s.next.offset, gap.newline, s.escaped, gap.trivia.hints⟩
    here := gap.next
    next := s.next
    trivia := gap.trivia.addToken gap.next.offset opener
    flawed := gap.flawed || s.flawed }

/-- A first line that starts with `#!`, as its text behind that mark. -/
def hashbangAt (k : Cursor) : Option (List Char × Cursor) :=
  match k.rest with
  | '#' :: '!' :: _ => some ((k.skip 2).span fun c => !isLineEnd c)
  | _ => none

/-! ## Regular expressions -/

/-- The body of a regular expression up to the closing slash. -/
def regexBody (inClass : Bool) : List Char → Nat → Option (List Char × Cursor)
  | [], _ => none
  | '\\' :: c :: cs, o =>
    if isLineEnd c then none
    else (regexBody inClass cs (o + 1 + c.utf8Size)).map fun (b, k) => ('\\' :: c :: b, k)
  | c :: cs, o =>
    if isLineEnd c then none
    else if c == '/' && !inClass then some ([], ⟨cs, o + 1⟩)
    else
      let inClass := if c == '[' then true else if c == ']' then false else inClass
      (regexBody inClass cs (o + c.utf8Size)).map fun (b, k) => (c :: b, k)

/-- The flags a regular expression can have, in the order they are printed. -/
def regexFlags : List Char := ['d', 'g', 'i', 'm', 's', 'u', 'v', 'y']

/-- A regular expression read from its opening slash. -/
structure RegexScan where
  pattern : String
  flags : String
  next : Cursor
  flawed : Bool

/-- A regular expression, read from its opening slash. Unknown and repeated flags are flaws, and so
is a missing end. -/
def scanRegex (k : Cursor) : RegexScan :=
  match regexBody false (k.skip 1).rest (k.skip 1).offset with
  | none =>
    let (body, next) := (k.skip 1).span (fun c => !isLineEnd c)
    ⟨String.ofList body, "", next, true⟩
  | some (body, next) =>
    let (given, next) := next.span (fun c => c == '$' || c == '_' || c.isAlphanum)
    let known := regexFlags.filter (given.contains ·)
    ⟨String.ofList body, String.ofList known, next, known.length != given.length⟩

end Reactive.Script
