/-
  The grammar of regions.

  The scanner counts braces, remembers one open quote and keeps the depths at which templates were
  opened. What it takes for a region is what a context-free grammar describes: items in braces,
  where an item is a string, a template, a region or a plain character. A backslash is a plain
  character of code, but in a hole of a template, however deep inside, it takes the next character
  with it.

  The two sides meet in what was opened last at a place: its content is one of the phrases of the
  grammar, one character closes it, and then the scanner is back in the state in which it was
  opened.
-/
import Reactive.Proofs.Source.Padding

namespace Reactive.Source

/-! ## Phrases -/

/-- The phrases of the grammar. Regions and items are told apart by whether they stand in a hole
of a template. -/
inductive Phrase where
  | region (inHole : Bool)
  | items (inHole : Bool)
  | item (inHole : Bool)
  | string
  /-- What stands between two quotes. -/
  | quoted (quote : Char)
  | template
  /-- What stands between two backticks. -/
  | templateText
deriving DecidableEq, Repr

/-- The characters that are no items by themselves. -/
def delimiters : List Char := ['"', '\'', '`', '\x7b', '\x7d']

/-- The text is a phrase of the grammar. -/
inductive Derives : Phrase → List Char → Prop where
  | braces {inHole : Bool} {x : List Char} (hx : Derives (.items inHole) x) :
      Derives (.region inHole) ('\x7b' :: (x ++ ['\x7d']))
  | noItems {inHole : Bool} : Derives (.items inHole) []
  | moreItems {inHole : Bool} {x y : List Char} (hx : Derives (.item inHole) x)
      (hy : Derives (.items inHole) y) : Derives (.items inHole) (x ++ y)
  | ofString {inHole : Bool} {x : List Char} (hx : Derives .string x) : Derives (.item inHole) x
  | ofTemplate {inHole : Bool} {x : List Char} (hx : Derives .template x) :
      Derives (.item inHole) x
  | ofRegion {inHole : Bool} {x : List Char} (hx : Derives (.region inHole) x) :
      Derives (.item inHole) x
  | plain {inHole : Bool} {c : Char} (hc : c ∉ delimiters) (hescape : inHole = true → c ≠ '\\') :
      Derives (.item inHole) [c]
  | escape (c : Char) : Derives (.item true) ['\\', c]
  | quotes {quote : Char} {x : List Char} (hquote : quote = '"' ∨ quote = '\'')
      (hx : Derives (.quoted quote) x) : Derives .string (quote :: (x ++ [quote]))
  | quotedEnd {quote : Char} : Derives (.quoted quote) []
  | quotedEscape {quote : Char} (c : Char) {x : List Char} (hx : Derives (.quoted quote) x) :
      Derives (.quoted quote) ('\\' :: c :: x)
  | quotedPlain {quote c : Char} {x : List Char} (hquote : c ≠ quote) (hescape : c ≠ '\\')
      (hx : Derives (.quoted quote) x) : Derives (.quoted quote) (c :: x)
  | backticks {x : List Char} (hx : Derives .templateText x) :
      Derives .template ('`' :: (x ++ ['`']))
  | textEnd : Derives .templateText []
  | textEscape (c : Char) {x : List Char} (hx : Derives .templateText x) :
      Derives .templateText ('\\' :: c :: x)
  | hole {x y : List Char} (hx : Derives (.items true) x) (hy : Derives .templateText y) :
      Derives .templateText ('$' :: '\x7b' :: (x ++ '\x7d' :: y))
  | textPlain {c : Char} {x : List Char} (htick : c ≠ '`') (hescape : c ≠ '\\')
      (hhole : c = '$' → x.head? ≠ some '\x7b') (hx : Derives .templateText x) :
      Derives .templateText (c :: x)

/-! ## What was opened last -/

namespace BraceState

/-- The character that closes what was opened last. -/
def closer (s : BraceState) : Char :=
  match s.quote with
  | some quote => quote
  | none => if s.inTemplate then '`' else '\x7d'

/-- The phrase that may stand between here and there. -/
def content (s : BraceState) : Phrase :=
  match s.quote with
  | some quote => .quoted quote
  | none => if s.inTemplate then .templateText else .items !s.templates.isEmpty

/-- What is open behind that character. -/
def closed (s : BraceState) : BraceState :=
  match s.quote with
  | some _ => { s with quote := none }
  | none => if s.inTemplate then { s with templates := s.templates.tail }
      else { s with depth := s.depth - 1 }

/-- Only the braces of the region itself are open. -/
def isLast (s : BraceState) : Bool := s == .opened

section

variable {s : BraceState}

theorem content_eq_quoted {quote : Char} : s.content = .quoted quote ↔ s.quote = some quote := by
  unfold content
  cases s.quote with
  | some q => simp
  | none => cases s.inTemplate <;> simp

theorem content_eq_templateText :
    s.content = .templateText ↔ s.quote = none ∧ s.inTemplate = true := by
  unfold content
  cases s.quote with
  | some q => simp
  | none => cases s.inTemplate <;> simp

theorem content_eq_items {inHole : Bool} : s.content = .items inHole ↔
    s.quote = none ∧ s.inTemplate = false ∧ (!s.templates.isEmpty) = inHole := by
  unfold content
  cases s.quote with
  | some q => simp
  | none => cases s.inTemplate <;> simp

theorem closer_of_quoted {quote : Char} (h : s.content = .quoted quote) : s.closer = quote := by
  simp [closer, content_eq_quoted.mp h]

theorem closer_of_templateText (h : s.content = .templateText) : s.closer = '`' := by
  obtain ⟨hquote, hin⟩ := content_eq_templateText.mp h
  simp [closer, hquote, hin]

theorem closer_of_items {inHole : Bool} (h : s.content = .items inHole) : s.closer = '\x7d' := by
  obtain ⟨hquote, hin, -⟩ := content_eq_items.mp h
  simp [closer, hquote, hin]

/-- Every place inside a region is in a string, in the text of a template or in code. -/
theorem content_cases (s : BraceState) : (∃ quote, s.content = .quoted quote)
    ∨ s.content = .templateText ∨ ∃ inHole, s.content = .items inHole := by
  unfold content
  cases s.quote with
  | some q => exact .inl ⟨q, rfl⟩
  | none =>
    cases s.inTemplate with
    | true => exact .inr (.inl rfl)
    | false => exact .inr (.inr ⟨_, rfl⟩)

/-- In code a backslash takes a character with it just in a hole of a template. -/
theorem escapes_of_items {inHole : Bool} (h : s.content = .items inHole) : s.escapes = inHole := by
  obtain ⟨hquote, -, hhole⟩ := content_eq_items.mp h
  rw [escapes, hquote, hhole]
  rfl

theorem escapes_of_templateText (h : s.content = .templateText) : s.escapes = true := by
  obtain ⟨-, hin⟩ := content_eq_templateText.mp h
  cases htemplates : s.templates with
  | nil => simp [inTemplate, htemplates] at hin
  | cons latest earlier => simp [escapes, htemplates]

/-- Code at the depth of the region itself has nothing else open. -/
theorem Nested.isLast_eq (h : s.Nested) {inHole : Bool} (hcode : s.content = .items inHole) :
    s.isLast = decide (s.depth ≤ 1) := by
  obtain ⟨hquote, hin, -⟩ := content_eq_items.mp hcode
  by_cases hdepth : s.depth ≤ 1
  · have hone : s.depth = 1 := Nat.le_antisymm hdepth h.depth
    have htemplates : s.templates = [] := by
      cases hlist : s.templates with
      | nil => rfl
      | cons latest earlier =>
        exfalso
        have hle := (List.pairwise_cons.mp h.within).1 latest (by simp [hlist])
        have hge := h.opened latest (by simp [hlist])
        have hlatest : latest = s.depth := by omega
        simp [inTemplate, hlist, hlatest] at hin
    obtain rfl : s = .opened := by
      cases s
      simp_all [BraceState.opened]
    rfl
  · have hne : s ≠ .opened := by
      rintro rfl
      exact hdepth (Nat.le_refl 1)
    simp [isLast, hne, hdepth]

end

/-! ## Moves by place -/

section

variable {s : BraceState} {inHole : Bool}

theorem move_code (h : s.content = .items inHole) (c : Char) (following : Option Char) :
    s.move c following = if c == '\\' && inHole then .passTwo s else s.moveInCode c := by
  obtain ⟨hquote, hin, -⟩ := content_eq_items.mp h
  simp [BraceState.move, hquote, hin, escapes_of_items h]

theorem move_text (h : s.content = .templateText) (c : Char) (following : Option Char) :
    s.move c following
      = if c == '\\' then .passTwo s else s.moveInTemplate c following := by
  obtain ⟨hquote, hin⟩ := content_eq_templateText.mp h
  simp [BraceState.move, hquote, hin, escapes_of_templateText h]

theorem move_quoted {quote : Char} (h : s.content = .quoted quote) (c : Char)
    (following : Option Char) :
    s.move c following = if c == '\\' then .passTwo s else s.moveInString quote c := by
  have hquote := content_eq_quoted.mp h
  simp [BraceState.move, hquote, escapes]

/-- What was opened last is closed by its character: the region ends, or the scanner goes on with
what was opened before. -/
theorem Nested.move_closer (h : s.Nested) (following : Option Char) :
    s.move s.closer following = if s.isLast then .close else .pass s.closed := by
  rcases s.content_cases with ⟨quote, hplace⟩ | hplace | ⟨inHole, hplace⟩
  · have hquote := content_eq_quoted.mp hplace
    have hback : (quote == '\\') = false := by
      rcases h.quote quote hquote with rfl | rfl <;> rfl
    have hlast : s.isLast = false := by
      rw [isLast, beq_eq_false_iff_ne]
      rintro rfl
      cases hquote
    simp [move_quoted hplace, closer, closed, hquote, hback, hlast, BraceState.moveInString]
  · obtain ⟨hquote, hin⟩ := content_eq_templateText.mp hplace
    have hlast : s.isLast = false := by
      rw [isLast, beq_eq_false_iff_ne]
      rintro rfl
      cases hin
    simp [move_text hplace, closer, closed, hquote, hin, hlast, BraceState.moveInTemplate]
  · obtain ⟨hquote, hin, -⟩ := content_eq_items.mp hplace
    simp [move_code hplace, closer, closed, hquote, hin, h.isLast_eq hplace,
      BraceState.moveInCode]

end

end BraceState

open BraceState

/-! ## What opens something -/

/-- The scanner reads the characters and goes from one state to the other. -/
def Leads (s : BraceState) (u : List Char) (s' : BraceState) : Prop :=
  ∀ tail, regionFrom s (u ++ tail) = (regionFrom s' tail).map fun p => (u ++ p.1, p.2)

/-- The characters open something, and what was opened can stand in the text from here on. -/
structure Opens (s : BraceState) (u : List Char) (s' : BraceState) : Prop where
  leads : Leads s u s'
  nested : s'.Nested
  closed : s'.closed = s
  inner : s'.isLast = false
  derives : ∀ {x y : List Char}, Derives s'.content x → Derives s.content y →
    Derives s.content (u ++ (x ++ s'.closer :: y))

section

variable {s s' : BraceState}

theorem leads_pass {c : Char} (h : ∀ following, s.move c following = .pass s') :
    Leads s [c] s' := by
  intro tail
  rw [List.singleton_append, regionFrom, h]
  rfl

theorem leads_passTwo {c d : Char} (h : s.move c (some d) = .passTwo s') :
    Leads s [c, d] s' := by
  intro tail
  rw [List.cons_append, List.singleton_append, regionFrom, List.head?_cons, h]
  rfl

variable {inHole : Bool} (hs : s.Nested)

include hs

theorem opens_quote (hcode : s.content = .items inHole) {quote : Char}
    (hquote : quote = '"' ∨ quote = '\'') : Opens s [quote] { s with quote := some quote } := by
  have hmove : ∀ following, s.move quote following = .pass { s with quote := some quote } := by
    intro following
    rcases hquote with rfl | rfl <;> simp [move_code hcode, BraceState.moveInCode]
  have hnone := (content_eq_items.mp hcode).1
  refine ⟨leads_pass hmove, hs.move (.inl (hmove none)), ?_, ?_, ?_⟩
  · cases s
    simp_all [BraceState.closed]
  · simp [BraceState.isLast, BraceState.opened]
  · intro x y hx hy
    have hquoted : BraceState.content { s with quote := some quote } = .quoted quote :=
      content_eq_quoted.mpr rfl
    rw [hcode] at hy ⊢
    have hstring := Derives.quotes hquote (hquoted ▸ hx)
    rw [closer_of_quoted hquoted]
    simpa using Derives.moreItems (.ofString hstring) hy

omit hs in
theorem content_backtick (hquote : s.quote = none) :
    BraceState.content { s with templates := s.depth :: s.templates } = .templateText :=
  content_eq_templateText.mpr ⟨hquote, by simp [BraceState.inTemplate]⟩

theorem opens_backtick (hcode : s.content = .items inHole) :
    Opens s ['`'] { s with templates := s.depth :: s.templates } := by
  have hmove : ∀ following,
      s.move '`' following = .pass { s with templates := s.depth :: s.templates } := by
    intro following
    simp [move_code hcode, BraceState.moveInCode]
  have hnone := (content_eq_items.mp hcode).1
  have htext := content_backtick hnone
  refine ⟨leads_pass hmove, hs.move (.inl (hmove none)), ?_, ?_, ?_⟩
  · cases s
    simp_all [BraceState.closed, BraceState.inTemplate]
  · simp [BraceState.isLast, BraceState.opened]
  · intro x y hx hy
    rw [hcode] at hy ⊢
    have htemplate := Derives.backticks (htext ▸ hx)
    rw [closer_of_templateText htext]
    simpa using Derives.moreItems (.ofTemplate htemplate) hy

/-- Behind a brace the scanner is deeper than every open template. -/
theorem content_deeper (hquote : s.quote = none) :
    BraceState.content { s with depth := s.depth + 1 } = .items !s.templates.isEmpty := by
  refine content_eq_items.mpr ⟨hquote, ?_, rfl⟩
  cases hlist : s.templates with
  | nil => simp [BraceState.inTemplate]
  | cons latest earlier =>
    have hle := (List.pairwise_cons.mp hs.within).1 latest (by simp [hlist])
    simp only [BraceState.inTemplate, List.head?_cons, beq_eq_false_iff_ne, ne_eq,
      Option.some.injEq]
    omega

theorem closed_deeper (hquote : s.quote = none) :
    BraceState.closed { s with depth := s.depth + 1 } = s
    ∧ BraceState.closer { s with depth := s.depth + 1 } = '\x7d'
    ∧ BraceState.isLast { s with depth := s.depth + 1 } = false := by
  have hin := (content_eq_items.mp (content_deeper hs hquote)).2.1
  have hdepth := hs.depth
  refine ⟨?_, ?_, ?_⟩
  · rw [BraceState.closed, hin, hquote]
    cases s
    simp_all
  · rw [BraceState.closer, hin, hquote]
    rfl
  · rw [BraceState.isLast, beq_eq_false_iff_ne]
    intro heq
    have := congrArg BraceState.depth heq
    simp only [BraceState.opened] at this
    omega

theorem opens_brace (hcode : s.content = .items inHole) :
    Opens s ['\x7b'] { s with depth := s.depth + 1 } := by
  have hmove : ∀ following,
      s.move '\x7b' following = .pass { s with depth := s.depth + 1 } := by
    intro following
    simp [move_code hcode, BraceState.moveInCode]
  obtain ⟨hquote, -, hhole⟩ := content_eq_items.mp hcode
  obtain ⟨hclosed, hcloser, hinner⟩ := closed_deeper hs hquote
  refine ⟨leads_pass hmove, hs.move (.inl (hmove none)), hclosed, hinner, ?_⟩
  intro x y hx hy
  rw [content_deeper hs hquote, hhole] at hx
  rw [hcode] at hy ⊢
  rw [hcloser]
  simpa using Derives.moreItems (.ofRegion (.braces hx)) hy

theorem opens_hole (htext : s.content = .templateText) :
    Opens s ['$', '\x7b'] { s with depth := s.depth + 1 } := by
  have hmove : s.move '$' (some '\x7b') = .passTwo { s with depth := s.depth + 1 } := by
    simp [move_text htext, BraceState.moveInTemplate]
  obtain ⟨hquote, hin⟩ := content_eq_templateText.mp htext
  obtain ⟨hclosed, hcloser, hinner⟩ := closed_deeper hs hquote
  have hhole : (!s.templates.isEmpty) = true := by
    simpa [BraceState.escapes, hquote] using escapes_of_templateText htext
  refine ⟨leads_passTwo hmove, hs.move (.inr hmove), hclosed, hinner, ?_⟩
  intro x y hx hy
  rw [content_deeper hs hquote, hhole] at hx
  rw [htext] at hy ⊢
  rw [hcloser]
  exact .hole hx hy

end

/-! ## From phrases to regions -/

/-- What the scanner does behind the character that closes what was opened last. -/
def afterCloser (s : BraceState) (tail : List Char) : Option (List Char × List Char) :=
  if s.isLast then some ([], tail) else regionFrom s.closed tail

/-- The scanner reads the text and the character that closes what was opened last. -/
def Fills (s : BraceState) (x : List Char) : Prop :=
  ∀ tail, regionFrom s (x ++ s.closer :: tail)
    = (afterCloser s tail).map fun p => (x ++ s.closer :: p.1, p.2)

section

variable {s s' : BraceState} {u x y : List Char}

theorem regionFrom_closer (hs : s.Nested) (tail : List Char) :
    regionFrom s (s.closer :: tail)
      = (afterCloser s tail).map fun p => (s.closer :: p.1, p.2) := by
  rw [regionFrom, hs.move_closer, afterCloser]
  cases s.isLast <;> rfl

/-- What leads back to a place makes no difference there. -/
theorem Leads.fills (h : Leads s u s) (hx : Fills s x) : Fills s (u ++ x) := by
  intro tail
  rw [List.append_assoc, h, hx, Option.map_map]
  simp [Function.comp_def]

/-- What was opened, with its content and the character that closes it, leads back. -/
theorem Opens.leads_back (h : Opens s u s') (hx : Fills s' x) :
    Leads s (u ++ (x ++ [s'.closer])) s := by
  intro tail
  rw [List.append_assoc, h.leads, List.append_assoc, List.singleton_append, hx, afterCloser,
    h.inner, h.closed, if_neg Bool.false_ne_true, Option.map_map]
  simp [Function.comp_def]

/-- What the scanner does with the texts of a phrase: the content of what was opened last is read up
to the character that closes it, and a phrase of code leads back to where it starts. -/
def Scanned : Phrase → List Char → Prop
  | .items inHole, x => ∀ s : BraceState, s.Nested → s.content = .items inHole → Fills s x
  | .quoted quote, x => ∀ s : BraceState, s.Nested → s.content = .quoted quote → Fills s x
  | .templateText, x => ∀ s : BraceState, s.Nested → s.content = .templateText → Fills s x
  | .region inHole, x => ∀ s : BraceState, s.Nested → s.content = .items inHole → Leads s x s
  | .item inHole, x => ∀ s : BraceState, s.Nested → s.content = .items inHole → Leads s x s
  | .string, x => ∀ s : BraceState, s.Nested → ∀ inHole, s.content = .items inHole → Leads s x s
  | .template, x => ∀ s : BraceState, s.Nested → ∀ inHole, s.content = .items inHole → Leads s x s

theorem fills_nil (hs : s.Nested) : Fills s [] := fun tail => regionFrom_closer hs tail

end

/-- The scanner reads every phrase of the grammar. -/
theorem Derives.scanned {phrase : Phrase} {x : List Char} (h : Derives phrase x) :
    Scanned phrase x := by
  induction h with
  | braces _ ih =>
    intro s hs hcode
    obtain ⟨hquote, -, hhole⟩ := content_eq_items.mp hcode
    obtain ⟨-, hcloser, -⟩ := closed_deeper hs hquote
    have hopens := opens_brace hs hcode
    have hx := ih _ hopens.nested (hhole ▸ content_deeper hs hquote)
    simpa [hcloser] using hopens.leads_back hx
  | noItems => exact fun s hs _ => fills_nil hs
  | moreItems _ _ ihx ihy => exact fun s hs hcode => (ihx s hs hcode).fills (ihy s hs hcode)
  | ofString _ ih => exact fun s hs hcode => ih s hs _ hcode
  | ofTemplate _ ih => exact fun s hs hcode => ih s hs _ hcode
  | ofRegion _ ih => exact ih
  | @plain inHole c hc hescape =>
    intro s hs hcode
    refine leads_pass fun following => ?_
    have hback : (c == '\\' && inHole) = false := by
      cases inHole with
      | true => simpa using hescape rfl
      | false => exact Bool.and_false _
    simp only [delimiters, List.mem_cons, List.not_mem_nil, or_false, not_or] at hc
    simp [move_code hcode, hback, BraceState.moveInCode, hc]
  | escape c =>
    intro s hs hcode
    exact leads_passTwo (by simp [move_code hcode])
  | quotes hquote _ ih =>
    intro s hs inHole hcode
    have hopens := opens_quote hs hcode hquote
    exact hopens.leads_back (ih _ hopens.nested (content_eq_quoted.mpr rfl))
  | quotedEnd => exact fun s hs _ => fills_nil hs
  | quotedEscape c _ ih =>
    intro s hs hstring
    have hleads : Leads s ['\\', c] s := leads_passTwo (by simp [move_quoted hstring])
    exact hleads.fills (ih s hs hstring)
  | quotedPlain hquote hescape _ ih =>
    intro s hs hstring
    refine Leads.fills (leads_pass fun following => ?_) (ih s hs hstring)
    simp [move_quoted hstring, BraceState.moveInString, hquote, hescape]
  | backticks _ ih =>
    intro s hs inHole hcode
    have hopens := opens_backtick hs hcode
    have htext := content_backtick (content_eq_items.mp hcode).1
    have hback := hopens.leads_back (ih _ hopens.nested htext)
    rwa [closer_of_templateText htext] at hback
  | textEnd => exact fun s hs _ => fills_nil hs
  | textEscape c _ ih =>
    intro s hs htext
    have hleads : Leads s ['\\', c] s := leads_passTwo (by simp [move_text htext])
    exact hleads.fills (ih s hs htext)
  | hole _ _ ihx ihy =>
    intro s hs htext
    obtain ⟨hquote, -⟩ := content_eq_templateText.mp htext
    obtain ⟨-, hcloser, -⟩ := closed_deeper hs hquote
    have hopens := opens_hole hs htext
    have hhole : (!s.templates.isEmpty) = true := by
      simpa [BraceState.escapes, hquote] using escapes_of_templateText htext
    have hx := ihx _ hopens.nested (hhole ▸ content_deeper hs hquote)
    simpa [hcloser] using (hopens.leads_back hx).fills (ihy s hs htext)
  | @textPlain c x htick hescape hhole _ ih =>
    intro s hs htext tail
    -- The character that closes the template is no brace, so it opens no hole either.
    have hcloser := closer_of_templateText htext
    have hhead : c = '$' → (x ++ s.closer :: tail).head? ≠ some '\x7b' := by
      intro hc
      cases x with
      | nil => simp [hcloser]
      | cons d x => exact hhole hc
    have hmove : s.move c (x ++ s.closer :: tail).head? = .pass s := by
      rw [move_text htext, if_neg (by simpa using hescape)]
      simp only [BraceState.moveInTemplate, beq_iff_eq, htick, if_false, Bool.and_eq_true]
      exact if_neg fun h => hhead h.1 h.2
    rw [List.cons_append, regionFrom, hmove]
    dsimp only
    rw [ih s hs htext, Option.map_map]
    rfl

/-! ## From regions to phrases -/

/-- How the scanner comes to the end of a region: it closes what was opened last, opens something,
or reads a bit of the content of what was opened last. -/
inductive Reached (s : BraceState) (cs r rest : List Char) : Prop where
  | closes {tail r' : List Char} (hcs : cs = s.closer :: tail)
      (hafter : afterCloser s tail = some (r', rest)) (hr : r = s.closer :: r')
  | opens {u : List Char} {s' : BraceState} {tail r' : List Char} (hopens : Opens s u s')
      (hne : u ≠ []) (hcs : cs = u ++ tail) (hafter : regionFrom s' tail = some (r', rest))
      (hr : r = u ++ r')
  | keeps {u tail r' : List Char} (hne : u ≠ []) (hcs : cs = u ++ tail)
      (hafter : regionFrom s tail = some (r', rest)) (hr : r = u ++ r')
      (hderives : ∀ y tail', tail = y ++ s.closer :: tail' → Derives s.content y →
        Derives s.content (u ++ y))

section

variable {s : BraceState} {cs r rest : List Char}

theorem reached_closer (hs : s.Nested) (h : regionFrom s (s.closer :: cs) = some (r, rest)) :
    Reached s (s.closer :: cs) r rest := by
  rw [regionFrom_closer hs] at h
  obtain ⟨⟨r', rest'⟩, hafter, heq⟩ := Option.map_eq_some_iff.mp h
  obtain ⟨rfl, rfl⟩ := Prod.mk.inj heq
  exact .closes rfl hafter rfl

theorem reached_opens {u : List Char} {s' : BraceState} (hopens : Opens s u s') (hne : u ≠ [])
    (h : regionFrom s (u ++ cs) = some (r, rest)) : Reached s (u ++ cs) r rest := by
  rw [hopens.leads] at h
  obtain ⟨⟨r', rest'⟩, hafter, heq⟩ := Option.map_eq_some_iff.mp h
  obtain ⟨rfl, rfl⟩ := Prod.mk.inj heq
  exact .opens hopens hne rfl hafter rfl

/-- A character that is passed with no change. -/
theorem reached_pass {c : Char} (hmove : s.move c cs.head? = .pass s)
    (h : regionFrom s (c :: cs) = some (r, rest))
    (hderives : ∀ y tail', cs = y ++ s.closer :: tail' → Derives s.content y →
      Derives s.content (c :: y)) : Reached s (c :: cs) r rest := by
  rw [regionFrom, hmove] at h
  obtain ⟨⟨r', rest'⟩, hafter, heq⟩ := Option.map_eq_some_iff.mp h
  obtain ⟨rfl, rfl⟩ := Prod.mk.inj heq
  exact .keeps (List.cons_ne_nil c []) rfl hafter rfl hderives

/-- An escape. -/
theorem reached_escape (hmove : s.move '\\' cs.head? = .passTwo s)
    (h : regionFrom s ('\\' :: cs) = some (r, rest))
    (hderives : ∀ d y, Derives s.content y → Derives s.content ('\\' :: d :: y)) :
    Reached s ('\\' :: cs) r rest := by
  rw [regionFrom, hmove] at h
  cases cs with
  | nil => cases h
  | cons d ds =>
    obtain ⟨⟨r', rest'⟩, hafter, heq⟩ := Option.map_eq_some_iff.mp h
    obtain ⟨rfl, rfl⟩ := Prod.mk.inj heq
    exact .keeps (List.cons_ne_nil '\\' [d]) rfl hafter rfl fun y _ _ => hderives d y

theorem reached_quoted (hs : s.Nested) {quote : Char} (hplace : s.content = .quoted quote)
    {c : Char} (h : regionFrom s (c :: cs) = some (r, rest)) : Reached s (c :: cs) r rest := by
  have hcloser := closer_of_quoted hplace
  by_cases hback : c = '\\'
  · subst hback
    refine reached_escape (by simp [move_quoted hplace]) h fun d y hy => ?_
    rw [hplace] at hy ⊢
    exact .quotedEscape d hy
  · by_cases hquote : c = quote
    · obtain rfl : c = s.closer := hquote.trans hcloser.symm
      exact reached_closer hs h
    · refine reached_pass ?_ h fun y _ _ hy => ?_
      · simp [move_quoted hplace, hback, BraceState.moveInString, hquote]
      · rw [hplace] at hy ⊢
        exact .quotedPlain hquote hback hy

theorem reached_text (hs : s.Nested) (hplace : s.content = .templateText) {c : Char}
    (h : regionFrom s (c :: cs) = some (r, rest)) : Reached s (c :: cs) r rest := by
  have hcloser := closer_of_templateText hplace
  by_cases hback : c = '\\'
  · subst hback
    refine reached_escape (by simp [move_text hplace]) h fun d y hy => ?_
    rw [hplace] at hy ⊢
    exact .textEscape d hy
  · by_cases htick : c = '`'
    · obtain rfl : c = s.closer := htick.trans hcloser.symm
      exact reached_closer hs h
    · by_cases hhole : c = '$' ∧ cs.head? = some '\x7b'
      · obtain ⟨rfl, hhead⟩ := hhole
        obtain ⟨ds, rfl⟩ := List.head?_eq_some_iff.mp hhead
        exact reached_opens (opens_hole hs hplace) (List.cons_ne_nil _ _) h
      · refine reached_pass ?_ h fun y tail' hcs hy => ?_
        · rw [move_text hplace, if_neg (by simpa using hback)]
          simp only [BraceState.moveInTemplate, beq_iff_eq, htick, if_false, Bool.and_eq_true]
          exact if_neg hhole
        · rw [hplace] at hy ⊢
          refine .textPlain htick hback (fun hc hhead => hhole ⟨hc, ?_⟩) hy
          rw [hcs, List.head?_append, hhead]
          rfl

theorem reached_code (hs : s.Nested) {inHole : Bool} (hplace : s.content = .items inHole)
    {c : Char} (h : regionFrom s (c :: cs) = some (r, rest)) : Reached s (c :: cs) r rest := by
  have hcloser := closer_of_items hplace
  by_cases hescape : c = '\\' ∧ inHole = true
  · obtain ⟨rfl, rfl⟩ := hescape
    refine reached_escape (by simp [move_code hplace]) h fun d y hy => ?_
    rw [hplace] at hy ⊢
    exact Derives.moreItems (.escape d) hy
  · by_cases hdelimiter : c ∈ delimiters
    · simp only [delimiters, List.mem_cons, List.not_mem_nil, or_false] at hdelimiter
      rcases hdelimiter with rfl | rfl | rfl | rfl | rfl
      · exact reached_opens (opens_quote hs hplace (.inl rfl)) (List.cons_ne_nil _ _) h
      · exact reached_opens (opens_quote hs hplace (.inr rfl)) (List.cons_ne_nil _ _) h
      · exact reached_opens (opens_backtick hs hplace) (List.cons_ne_nil _ _) h
      · exact reached_opens (opens_brace hs hplace) (List.cons_ne_nil _ _) h
      · rw [← hcloser] at h ⊢
        exact reached_closer hs h
    · refine reached_pass ?_ h fun y _ _ hy => ?_
      · have hplain := hdelimiter
        simp only [delimiters, List.mem_cons, List.not_mem_nil, or_false, not_or] at hplain
        rw [move_code hplace, if_neg (by simpa using hescape)]
        simp [BraceState.moveInCode, hplain]
      · rw [hplace] at hy ⊢
        exact Derives.moreItems (.plain hdelimiter fun hin hc => hescape ⟨hc, hin⟩) hy

theorem reached (hs : s.Nested) (h : regionFrom s cs = some (r, rest)) : Reached s cs r rest := by
  cases cs with
  | nil => cases h
  | cons c cs =>
    rcases s.content_cases with ⟨quote, hplace⟩ | hplace | ⟨inHole, hplace⟩
    · exact reached_quoted hs hplace h
    · exact reached_text hs hplace h
    · exact reached_code hs hplace h

/-- Whatever the scanner reads to the end of a region starts with the content of what was opened
last. -/
theorem exists_content (hs : s.Nested) (h : regionFrom s cs = some (r, rest)) :
    ∃ x tail r', cs = x ++ s.closer :: tail ∧ Derives s.content x
      ∧ afterCloser s tail = some (r', rest) := by
  -- What was opened is read first, and then what comes behind it, which is shorter as well.
  induction hlength : cs.length using Nat.strongRecOn generalizing s cs r with
  | _ n ih =>
    subst hlength
    cases reached hs h with
    | closes hcs hafter hr =>
      refine ⟨[], _, _, hcs, ?_, hafter⟩
      rcases s.content_cases with ⟨quote, hplace⟩ | hplace | ⟨inHole, hplace⟩ <;> rw [hplace]
      · exact .quotedEnd
      · exact .textEnd
      · exact .noItems
    | @opens u s' tail r' hopens hne hcs hafter hr =>
      have hu := List.length_pos_of_ne_nil hne
      subst hcs
      obtain ⟨x, tail, _, rfl, hx, hback⟩ :=
        ih _ (by simp only [List.length_append]; omega) hopens.nested hafter rfl
      rw [afterCloser, hopens.inner, hopens.closed, if_neg Bool.false_ne_true] at hback
      obtain ⟨y, tail', r', rfl, hy, hend⟩ :=
        ih _ (by simp only [List.length_append, List.length_cons]; omega) hs hback rfl
      exact ⟨u ++ (x ++ s'.closer :: y), tail', r', by simp, hopens.derives hx hy, hend⟩
    | @keeps u tail r' hne hcs hafter hr hderives =>
      have hu := List.length_pos_of_ne_nil hne
      subst hcs
      obtain ⟨y, tail', r', rfl, hy, hend⟩ :=
        ih _ (by simp only [List.length_append]; omega) hs hafter rfl
      exact ⟨u ++ y, tail', r', by simp, hderives y tail' rfl hy, hend⟩

end

/-! ## Regions -/

/-- A region at the front of a text is a phrase of the grammar, and every phrase that is a region is
found in front of any text. -/
theorem regionAt_iff_derives {cs r rest : List Char} :
    RegionAt cs r rest ↔ Derives (.region false) r ∧ cs = r ++ rest := by
  have hstart (cs : List Char) :
      region? ('\x7b' :: cs) = (regionFrom .opened cs).map fun p => ('\x7b' :: p.1, p.2) := rfl
  have hcontent : BraceState.opened.content = .items false := rfl
  constructor
  · intro h
    refine ⟨?_, h.append_eq⟩
    obtain ⟨cs, rfl⟩ := List.head?_eq_some_iff.mp h.1
    have hregion := h.2
    rw [hstart] at hregion
    obtain ⟨⟨r', rest'⟩, hfrom, heq⟩ := Option.map_eq_some_iff.mp hregion
    obtain ⟨rfl, rfl⟩ := Prod.mk.inj heq
    obtain ⟨x, tail, r'', rfl, hx, hafter⟩ := exists_content nested_opened hfrom
    obtain ⟨-, rfl⟩ := Prod.mk.inj (Option.some.inj hafter)
    have happend : x ++ '\x7d' :: tail = r' ++ tail := (List.cons.inj h.append_eq).2
    obtain rfl : x ++ ['\x7d'] = r' := List.append_cancel_right (by simpa using happend)
    exact .braces (hcontent ▸ hx)
  · rintro ⟨hr, rfl⟩
    cases hr with
    | @braces _ x hx =>
      have hfills : Fills .opened x := hx.scanned _ nested_opened hcontent
      refine ⟨rfl, ?_⟩
      have hread : regionFrom .opened (x ++ '\x7d' :: rest) = some (x ++ ['\x7d'], rest) :=
        hfills rest
      rw [List.cons_append, List.append_assoc, List.singleton_append, hstart, hread]
      rfl

/-- Where the region that starts at a position ends: behind its last brace. -/
def regionEnd? (chars : List Char) (start : Nat) : Option Nat :=
  (region? (chars.drop start)).map fun p => start + p.1.length

section

variable {chars : List Char} {start : Nat}

/-- The scanner ends where the text so far is a region. -/
theorem regionEnd?_eq_some_iff (hopen : chars[start]? = some '\x7b') {stop : Nat} :
    regionEnd? chars start = some stop ↔
      stop ≤ chars.length ∧ Derives (.region false) (chars.extract start stop) := by
  have hhead : (chars.drop start).head? = some '\x7b' := by rw [List.head?_drop, hopen]
  have hstart : start ≤ chars.length := (List.getElem?_eq_some_iff.mp hopen).1.le
  rw [List.extract_eq_take_drop]
  constructor
  · intro h
    obtain ⟨⟨r, rest⟩, hregion, rfl⟩ := Option.map_eq_some_iff.mp h
    obtain ⟨hr, happend⟩ := regionAt_iff_derives.mp ⟨hhead, hregion⟩
    have hlength := congrArg List.length happend
    rw [List.length_drop, List.length_append] at hlength
    dsimp only
    rw [Nat.add_sub_cancel_left, happend, List.take_left]
    exact ⟨by omega, hr⟩
  · rintro ⟨hstop, hr⟩
    -- A region has its braces, so it ends behind the position where it starts.
    have hlength : ((chars.drop start).take (stop - start)).length = stop - start := by
      rw [List.length_take, List.length_drop]
      omega
    have hne : stop - start ≠ 0 := by
      intro hzero
      rw [hzero, List.take_zero] at hr
      cases hr
    obtain ⟨-, hregion⟩ := regionAt_iff_derives.mpr
      ⟨hr, (List.take_append_drop (stop - start) (chars.drop start)).symm⟩
    rw [regionEnd?, hregion, Option.map_some, hlength]
    congr 1
    omega

/-- A region has two braces at least. -/
theorem Derives.two_le_length {inHole : Bool} {r : List Char} (h : Derives (.region inHole) r) :
    2 ≤ r.length := by
  cases h with
  | braces hx => simp

end

/-- From an opening brace on, the scanner ends at a position if and only if the text up to there
is a region of the grammar. There is at most one such position, at least two characters further
on and in the text, and the scanner fails exactly if no text from the brace on is a region. -/
theorem regionEnd?_exact (chars : List Char) (start : Nat)
    (hopen : chars[start]? = some '\x7b') :
    (∀ stop, regionEnd? chars start = some stop ↔
      stop ≤ chars.length ∧ Derives (.region false) (chars.extract start stop))
    ∧ (∀ stop stop', stop ≤ chars.length → stop' ≤ chars.length →
      Derives (.region false) (chars.extract start stop) →
      Derives (.region false) (chars.extract start stop') → stop = stop')
    ∧ (∀ stop, regionEnd? chars start = some stop → start + 2 ≤ stop ∧ stop ≤ chars.length)
    ∧ (regionEnd? chars start = none ↔
      ∀ stop, stop ≤ chars.length → ¬ Derives (.region false) (chars.extract start stop)) := by
  have hsome {stop : Nat} := @regionEnd?_eq_some_iff chars start hopen stop
  refine ⟨fun stop => hsome, ?_, ?_, ?_⟩
  · intro stop stop' hstop hstop' hr hr'
    exact Option.some_inj.mp ((hsome.mpr ⟨hstop, hr⟩).symm.trans (hsome.mpr ⟨hstop', hr'⟩))
  · intro stop h
    obtain ⟨hstop, hr⟩ := hsome.mp h
    have htwo := hr.two_le_length
    rw [List.extract_eq_take_drop, List.length_take] at htwo
    exact ⟨by omega, hstop⟩
  · rw [Option.eq_none_iff_forall_ne_some]
    exact forall_congr' fun stop => (not_congr hsome).trans not_and

/-- Braces in a string, in the text of a template and behind a backslash in a hole do not count; a
backslash in code does not protect the brace behind it. -/
theorem regionEnd?_exact_template :
    let chars := "x \x7b a `\x7d $\x7b \x7b '\x7d' \x7d \\\x7d \x7d` \\\x7d y \x7d".toList
    chars[2]? = some '\x7b' ∧ regionEnd? chars 2 = some 28
    ∧ Derives (.region false) (chars.extract 2 28)
    ∧ ∀ stop, stop ≤ chars.length → Derives (.region false) (chars.extract 2 stop) → stop = 28 := by
  intro chars
  have hopen : chars[2]? = some '\x7b' := by decide
  have hend : regionEnd? chars 2 = some 28 := by decide
  obtain ⟨hexact, hunique, hbounds, -⟩ := regionEnd?_exact chars 2 hopen
  obtain ⟨hlength, hregion⟩ := (hexact 28).mp hend
  exact ⟨hopen, hend, hregion, fun stop hstop hr => hunique stop 28 hstop hlength hr hregion⟩

end Reactive.Source
