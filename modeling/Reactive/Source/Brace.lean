/-
  Balanced braces.

  A region starts at an opening brace and ends at the brace that balances it. Braces in
  quoted strings do not count, nor do those in the texts of templates; the holes of a
  template are regions again. A backslash takes the next character with it inside a string
  and anywhere inside a template.
-/
import Reactive.Text.Blank

namespace Reactive.Source

/-- What is open at a place inside a region. -/
structure BraceState where
  /-- Open braces. -/
  depth : Nat
  /-- The quote of the open string. -/
  quote : Option Char
  /-- The depths at which templates were opened, latest first. -/
  templates : List Nat
deriving DecidableEq, Repr, Inhabited

namespace BraceState

/-- Nothing is open. -/
def start : BraceState := ⟨0, none, []⟩

/-- A backslash takes the next character with it. -/
def escapes (s : BraceState) : Bool := s.quote.isSome || !s.templates.isEmpty

/-- In the text of a template, outside its holes. -/
def inTemplate (s : BraceState) : Bool := s.templates.head? == some s.depth

/-- How reading goes on behind a character. -/
inductive Move where
  /-- The region ends with the character. -/
  | close
  /-- The character is passed. -/
  | pass (next : BraceState)
  /-- The character is passed together with the one behind it. -/
  | passTwo (next : BraceState)
deriving DecidableEq, Repr, Inhabited

/-- A character in a string. -/
def moveInString (s : BraceState) (quote c : Char) : Move :=
  .pass (if c == quote then { s with quote := none } else s)

/-- A character in the text of a template, with the character behind it. -/
def moveInTemplate (s : BraceState) (c : Char) (following : Option Char) : Move :=
  if c == '`' then .pass { s with templates := s.templates.tail }
  else if c == '$' && following == some '\x7b' then .passTwo { s with depth := s.depth + 1 }
  else .pass s

/-- A character of code. -/
def moveInCode (s : BraceState) (c : Char) : Move :=
  if c == '"' || c == '\'' then .pass { s with quote := some c }
  else if c == '`' then .pass { s with templates := s.depth :: s.templates }
  else if c == '\x7b' then .pass { s with depth := s.depth + 1 }
  else if c == '\x7d' then
    if s.depth ≤ 1 then .close else .pass { s with depth := s.depth - 1 }
  else .pass s

/-- How reading goes on behind a character, with the character behind that. -/
def move (s : BraceState) (c : Char) (following : Option Char) : Move :=
  if c == '\\' && s.escapes then .passTwo s
  else match s.quote with
    | some quote => s.moveInString quote c
    | none => if s.inTemplate then s.moveInTemplate c following else s.moveInCode c

end BraceState

/-- The rest of a region, up to and with its last brace, and what follows it. -/
def regionFrom (s : BraceState) : List Char → Option (List Char × List Char)
  | [] => none
  | c :: cs =>
    match s.move c cs.head? with
    | .close => some ([c], cs)
    | .pass s => (regionFrom s cs).map fun (r, rest) => (c :: r, rest)
    | .passTwo s =>
      match cs with
      | [] => none
      | d :: ds => (regionFrom s ds).map fun (r, rest) => (c :: d :: r, rest)

/-- The region at the front of a text that starts with an opening brace, and what follows it. -/
def region? (cs : List Char) : Option (List Char × List Char) := regionFrom .start cs

/-- What follows a region is shorter than the text it was taken from. -/
theorem length_of_regionFrom {s : BraceState} {cs r rest : List Char}
    (h : regionFrom s cs = some (r, rest)) : rest.length < cs.length := by
  fun_induction regionFrom s cs generalizing r with
  | case1 => simp at h
  | case2 => simp_all
  | case3 s c cs s' _ ih =>
    obtain ⟨⟨q, u⟩, hp, he⟩ := Option.map_eq_some_iff.1 h
    obtain ⟨_, rfl⟩ := Prod.mk.inj he
    have := ih hp
    simp only [List.length_cons]
    omega
  | case4 => simp at h
  | case5 s c s' d ds _ ih =>
    obtain ⟨⟨q, u⟩, hp, he⟩ := Option.map_eq_some_iff.1 h
    obtain ⟨_, rfl⟩ := Prod.mk.inj he
    have := ih hp
    simp only [List.length_cons]
    omega

/-- The text inside the braces of a region. -/
def inside (region : List Char) : List Char := region.tail.dropLast

end Reactive.Source
