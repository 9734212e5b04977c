/-
  The first token of a text.

  What a text starts with does not depend on what stands before it, except for its offsets and the
  comments that wait for a token. A text `Opens` with a kind of token if that token is read without
  a flaw, and `Starts` with it if also the text behind the token is known. Names, string literals
  and punctuators are read up to where they end, behind any blanks.
-/
import Reactive.Proofs.Json.Escaping
import Reactive.Script.Lexer

namespace Reactive.Script

open Reactive.Text

/-! ## Cursors -/

namespace Cursor

theorem span_go (p : Char → Bool) (cs : List Char) (o : Nat) :
    (span.go p cs o).1 = cs.takeWhile p ∧ (span.go p cs o).2.rest = cs.dropWhile p := by
  induction cs generalizing o with
  | nil => exact ⟨rfl, rfl⟩
  | cons c cs ih =>
    rw [span.go, List.takeWhile_cons, List.dropWhile_cons]
    split
    · exact ⟨congrArg _ (ih _).1, (ih _).2⟩
    · exact ⟨rfl, rfl⟩

@[simp] theorem fst_span (p : Char → Bool) (k : Cursor) : (k.span p).1 = k.rest.takeWhile p :=
  (span_go p k.rest k.offset).1

@[simp] theorem rest_span (p : Char → Bool) (k : Cursor) : (k.span p).2.rest = k.rest.dropWhile p :=
  (span_go p k.rest k.offset).2

end Cursor

/-! ## Tokens without what stands around them -/

/-- No blank and no comment stands here. -/
def isSolid (c : Char) : Bool := !isSpace c && !isLineEnd c && c != '/'

/-- The slash, the line ends and the blanks inside a line. -/
def hollowPoints : List Nat :=
  [0x2F, 0xA, 0xD, 0x2028, 0x2029, 0x20, 9, 11, 12, 0xA0, 0xFEFF, 0x85, 0x1680, 0x180E, 0x202F,
    0x205F, 0x3000] ++ List.range' 0x2000 12

/-- A name starts neither with a blank nor with a comment. -/
theorem isSolid_of_isNameStart {c : Char} (h : isNameStart c = true) : isSolid c = true := by
  cases hsolid : isSolid c with
  | true => rfl
  | false =>
    exfalso
    have hmem : c.toNat ∈ hollowPoints := by
      simp only [isSolid, isLineEnd, isSpace, Bool.and_eq_false_iff, Bool.not_eq_false',
        Bool.or_eq_true, Bool.and_eq_true, decide_eq_true_eq, beq_iff_eq, bne_eq_false_iff_eq,
        ← Char.toNat_inj] at hsolid
      simp only [hollowPoints, List.mem_append, List.mem_range'_1, List.mem_cons, List.not_mem_nil,
        or_false]
      have hchars : '\n'.toNat = 10 ∧ '\r'.toNat = 13 ∧ '\u2028'.toNat = 0x2028
          ∧ '\u2029'.toNat = 0x2029 ∧ '/'.toNat = 0x2F := by decide
      omega
    -- Finitely many characters are left, and none of them starts a name.
    have hnone : ∀ n ∈ hollowPoints, isNameStart (Char.ofNat n) = false := by decide +kernel
    have hc := hnone c.toNat hmem
    rw [Char.ofNat_toNat] at hc
    rw [hc] at h
    cases h

/-- One token, read at the very start of a text. -/
structure Scans (body : List Char) (kind : TokenKind) (rest : List Char) : Prop where
  solid : body.head?.all isSolid = true
  scan : ∀ offset, ∃ next : Cursor, next.rest = rest
    ∧ scanToken ⟨body, offset⟩ = ⟨kind, next, false, false⟩

/-- The text is no name part at its start: a name before it ends there. -/
def EndsName (rest : List Char) : Prop := ∀ c ∈ rest.head?, isNamePart c = false ∧ c ≠ '\\'

/-- The characters are a name without escapes. -/
def IsName (w : String) : Prop :=
  (∀ c ∈ w.toList.head?, isNameStart c = true) ∧ (∀ c ∈ w.toList, isNamePart c = true) ∧ w ≠ ""

instance (w : String) : Decidable (IsName w) :=
  have := Option.decidableForallMem (p := (isNameStart · = true)) w.toList.head?
  have := List.decidableBAll (isNamePart · = true) w.toList
  instDecidableAnd

theorem IsName.exists_cons {w : String} (h : IsName w) :
    ∃ c cs, w.toList = c :: cs ∧ isNameStart c = true ∧ ∀ x ∈ c :: cs, isNamePart x = true := by
  obtain ⟨hfirst, hparts, hne⟩ := h
  cases hw : w.toList with
  | nil => exact absurd (String.toList_eq_nil_iff.mp hw) hne
  | cons c cs =>
    rw [hw] at hfirst hparts
    exact ⟨c, cs, rfl, hfirst c rfl, hparts⟩

/-- The run of name parts at the start of a text is a name up to where it ends. -/
theorem nameBody_eq {c : Char} {cs rest : List Char} (hfirst : isNameStart c = true)
    (hparts : ∀ x ∈ c :: cs, isNamePart x = true) (hrest : EndsName rest) (offset fuel : Nat) :
    ∃ next : Cursor, next.rest = rest
      ∧ nameBody (fuel + 1) true ⟨c :: cs ++ rest, offset⟩ = some (c :: cs, next, false) := by
  have hstop : rest.takeWhile isNamePart = [] ∧ rest.dropWhile isNamePart = rest := by
    cases rest with
    | nil => exact ⟨rfl, rfl⟩
    | cons x rest => simp [(hrest x rfl).1]
  obtain ⟨next, hnext, hspan⟩ : ∃ next : Cursor, next.rest = rest
      ∧ (⟨c :: cs ++ rest, offset⟩ : Cursor).span isNamePart = (c :: cs, next) := by
    refine ⟨_, ?_, Prod.ext ?_ rfl⟩
    · rw [Cursor.rest_span, List.dropWhile_append_of_pos hparts, hstop.2]
    · rw [Cursor.fst_span, List.takeWhile_append_of_pos hparts, hstop.1, List.append_nil]
  have hc : c ≠ '\\' := by
    rintro rfl
    exact absurd hfirst (by decide)
  refine ⟨next, hnext, ?_⟩
  rw [nameBody]
  split
  · rename_i heq
    exact absurd (List.cons.inj heq).1 hc
  · rename_i heq
    exact absurd (List.cons.inj heq).1 hc
  · rename_i heq
    obtain ⟨rfl, -⟩ := List.cons.inj heq
    have hallowed : (if true = true then isNameStart c else isNamePart c) = true := hfirst
    refine (if_pos hallowed).trans ?_
    rw [hspan]
    dsimp only
    split
    · rename_i heq
      exact absurd rfl (hrest '\\' (by rw [← hnext, heq]; rfl)).2
    · rfl
  · rename_i heq
    cases heq

/-- A name is one token. -/
theorem scans_name {w : String} (hw : IsName w) (rest : List Char) (hrest : EndsName rest) :
    Scans (w.toList ++ rest) (.word w) rest := by
  obtain ⟨c, cs, hcs, hfirst, hparts⟩ := hw.exists_cons
  refine ⟨?_, fun offset => ?_⟩
  · rw [hcs]
    exact isSolid_of_isNameStart hfirst
  · obtain ⟨next, hnext, hbody⟩ := nameBody_eq hfirst hparts hrest offset (c :: cs ++ rest).length
    refine ⟨next, hnext, ?_⟩
    rw [hcs, scanToken, List.cons_append]
    simp only [hfirst, Bool.true_or, if_true]
    rw [scanName, ← List.cons_append, hbody]
    show Scan.mk (.word (String.ofList (c :: cs))) next false false = _
    rw [← hcs, String.ofList_toList]

/-! ### String literals -/

/-- A character that stands for itself in a string with double quotes. -/
def isVerbatim (c : Char) : Bool := c != '"' && c != '\\' && c != '\n' && c != '\r'

theorem stringBody_verbatim {cs : List Char} (hcs : ∀ c ∈ cs, isVerbatim c = true)
    (tail : List Char) (offset : Nat) : ∃ offset', stringBody '"' (cs ++ tail) offset
      = (stringBody '"' tail offset').map fun (b, k) => (cs ++ b, k) := by
  induction cs generalizing offset with
  | nil => exact ⟨offset, by simp⟩
  | cons c cs ih =>
    have hc := hcs c List.mem_cons_self
    simp only [isVerbatim, Bool.and_eq_true, bne_iff_ne] at hc
    obtain ⟨offset', hrest⟩ := ih (fun x hx => hcs x (List.mem_cons_of_mem _ hx))
      (offset + c.utf8Size)
    refine ⟨offset', ?_⟩
    -- All other branches are for characters that do not stand for themselves.
    have hstep : stringBody '"' (c :: (cs ++ tail)) offset
        = (stringBody '"' (cs ++ tail) (offset + c.utf8Size)).map fun (b, k) => (c :: b, k) := by
      rw [stringBody.eq_def]
      split <;> simp_all
    rw [List.cons_append, hstep, hrest, Option.map_map]
    rfl

/-- A backslash takes the next character along. -/
theorem stringBody_backslash {c : Char} (hc : c ≠ '\r') (tail : List Char) (offset : Nat) :
    stringBody '"' ('\\' :: c :: tail) offset
      = (stringBody '"' tail (offset + 1 + c.utf8Size)).map fun (b, k) => ('\\' :: c :: b, k) := by
  rw [stringBody]
  exact fun _ hreturn _ => hc hreturn

theorem isVerbatim_hexDigit {n : Nat} (h : n < 16) : isVerbatim (Json.hexDigit n) = true := by
  revert n
  decide

/-- An escaped character is passed over inside a string. -/
theorem stringBody_escapeChar (c : Char) (tail : List Char) (offset : Nat) :
    ∃ offset', stringBody '"' (Json.escapeChar c ++ tail) offset
      = (stringBody '"' tail offset').map fun (b, k) => (Json.escapeChar c ++ b, k) := by
  rcases Json.escapeChar_cases c with ⟨e, he⟩ | ⟨hlow, hc⟩ | ⟨hquote, hslash, hhigh, hc⟩
  · have hreturn : ∀ p ∈ Json.shortEscapes, p.2 ≠ '\r' := by decide
    rw [Json.escapeChar_short he]
    exact ⟨_, stringBody_backslash (hreturn _ he) tail offset⟩
  -- A control character is written as four digits.
  · rw [hc]
    have hdigits : ∀ x ∈ ['0', '0', Json.hexDigit (c.toNat / 16), Json.hexDigit (c.toNat % 16)],
        isVerbatim x = true := by
      simp [isVerbatim_hexDigit (n := c.toNat / 16) (by omega),
        isVerbatim_hexDigit (n := c.toNat % 16) (by omega), show isVerbatim '0' = true by decide]
    obtain ⟨offset', hrest⟩ := stringBody_verbatim hdigits tail (offset + 1 + 'u'.utf8Size)
    refine ⟨offset', (stringBody_backslash (by decide) _ offset).trans ?_⟩
    refine (congrArg _ hrest).trans ?_
    rw [Option.map_map]
    rfl
  · rw [hc]
    refine stringBody_verbatim (List.forall_mem_singleton.mpr ?_) tail offset
    obtain ⟨hfeed, hreturn⟩ := Json.ne_lineEnd_of_le hhigh
    simp [isVerbatim, hquote, hslash, hfeed, hreturn]

theorem stringBody_escape (cs rest : List Char) (offset : Nat) :
    ∃ offset', stringBody '"' (Json.escape cs ++ '"' :: rest) offset
      = some (Json.escape cs, ⟨rest, offset'⟩) := by
  induction cs generalizing offset with
  | nil => exact ⟨_, rfl⟩
  | cons c cs ih =>
    obtain ⟨middle, hc⟩ := stringBody_escapeChar c (Json.escape cs ++ '"' :: rest) offset
    obtain ⟨offset', hcs⟩ := ih middle
    refine ⟨offset', ?_⟩
    rw [Json.escape, List.flatMap_cons, List.append_assoc]
    exact hc.trans (by rw [hcs]; rfl)

theorem hexValue?_hexDigit {n : Nat} (h : n < 16) : hexValue? (Json.hexDigit n) = some n := by
  revert n
  decide

/-- The escape of a character is read as one character. -/
theorem unescape_escapeChar (fuel : Nat) (c : Char) (tail : List Char) :
    (unescape false (fuel + 1) (Json.escapeChar c ++ tail)).2 = (unescape false fuel tail).2 := by
  rcases Json.escapeChar_cases c with ⟨e, he⟩ | ⟨hlow, hc⟩ | ⟨-, hslash, -, hc⟩
  · have hshort : ∀ p ∈ Json.shortEscapes,
        (unescape false (fuel + 1) ('\\' :: p.2 :: tail)).2 = (unescape false fuel tail).2 := by
      simp only [Json.shortEscapes, List.forall_mem_cons]
      exact ⟨rfl, rfl, rfl, rfl, rfl, rfl, rfl, List.forall_mem_nil _⟩
    rw [Json.escapeChar_short he]
    exact hshort _ he
  · rw [hc]
    have hvalue : unicodeEscape ('0' :: '0' :: Json.hexDigit (c.toNat / 16)
        :: Json.hexDigit (c.toNat % 16) :: tail) = some (c.toNat, tail) := by
      have hnumber : hexNumber? ['0', '0', Json.hexDigit (c.toNat / 16),
          Json.hexDigit (c.toNat % 16)] = some c.toNat := by
        have hzero : hexValue? '0' = some 0 := by decide
        simp only [hexNumber?, List.foldl_cons, List.foldl_nil, hzero,
          hexValue?_hexDigit (n := c.toNat / 16) (by omega),
          hexValue?_hexDigit (n := c.toNat % 16) (by omega), Option.some.injEq]
        omega
      simp [unicodeEscape, hnumber]
    -- A control character is not the first half of a pair, so no second escape is looked for.
    have hlone : isHighSurrogate c.toNat = false := by
      simp [isHighSurrogate]
      omega
    have hpair : pairedEscape c.toNat ('0' :: '0' :: Json.hexDigit (c.toNat / 16)
        :: Json.hexDigit (c.toNat % 16) :: tail) tail = (c.toNat, tail) := by
      simp [pairedEscape, hlone]
    simp [unescape, isLineEnd, hvalue, hpair]
  · rw [hc]
    show (if c != '\\' then _ else _ : List Nat × Bool).2 = _
    rw [if_pos (by simpa using hslash)]
    rfl

/-- All escapes of a literal have a meaning. -/
theorem unescape_escape (fuel : Nat) (cs : List Char) :
    (unescape false fuel (Json.escape cs)).2 = true := by
  induction cs generalizing fuel with
  | nil => cases fuel <;> rfl
  | cons c cs ih =>
    cases fuel with
    | zero => rfl
    | succ fuel =>
      rw [Json.escape, List.flatMap_cons, unescape_escapeChar]
      exact ih fuel

/-- A string literal is one token. -/
theorem scans_quote (s : String) (rest : List Char) :
    ∃ points, Scans ((Json.quote s).toList ++ rest) (.string points) rest := by
  have htext : (Json.quote s).toList ++ rest = '"' :: (Json.escape s.toList ++ '"' :: rest) := by
    simp [Json.quote, Json.quoteChars]
  rw [htext]
  refine ⟨(unescape false ((Json.escape s.toList).length + 1) (Json.escape s.toList)).1,
    rfl, fun offset => ?_⟩
  obtain ⟨offset', hbody⟩ := stringBody_escape s.toList rest (offset + 1)
  refine ⟨⟨rest, offset'⟩, rfl, ?_⟩
  show scanString '"' ⟨Json.escape s.toList ++ '"' :: rest, offset + 1⟩ = _
  rw [scanString, hbody]
  show Scan.mk _ _ _ (!(unescape false _ (Json.escape s.toList)).2) = _
  rw [unescape_escape]
  rfl

/-! ### Punctuators -/

/-- Punctuators that no other one starts with. -/
def separators : List String := ["(", ")", "[", "]", "\x7b", "\x7d", ";", ","]

theorem scans_separator {p : String} (hp : p ∈ separators) (rest : List Char) :
    Scans (p.toList ++ rest) (.punct p) rest := by
  simp only [separators, List.mem_cons, List.not_mem_nil, or_false] at hp
  rcases hp with rfl | rfl | rfl | rfl | rfl | rfl | rfl | rfl <;>
    exact ⟨rfl, fun offset => ⟨⟨rest, offset + 1⟩, rfl, rfl⟩⟩

/-- A name does not start with a digit. -/
theorem isNameStart_of_isDigit {c : Char} (h : c.isDigit = true) : isNameStart c = false := by
  have hbounds : 48 ≤ c.toNat ∧ c.toNat ≤ 57 := by
    simpa [Char.isDigit, UInt32.le_iff_toNat_le] using h
  have hnone : ∀ n ∈ List.range' 48 10, isNameStart (Char.ofNat n) = false := by decide
  have hc := hnone c.toNat (List.mem_range'_1.mpr (by omega))
  rwa [Char.ofNat_toNat] at hc

/-- The dot before a name. -/
theorem scans_dot {w : String} (hw : IsName w) (rest : List Char) :
    Scans ('.' :: (w.toList ++ rest)) (.punct ".") (w.toList ++ rest) := by
  obtain ⟨c, cs, hcs, hfirst, -⟩ := hw.exists_cons
  rw [hcs, List.cons_append]
  have hdigit : c.isDigit = false := by
    cases hc : c.isDigit with
    | false => rfl
    | true => rw [isNameStart_of_isDigit hc] at hfirst; cases hfirst
  have hdot : ('.' == c) = false := by
    rw [beq_eq_false_iff_ne]
    rintro rfl
    exact absurd hfirst (by decide)
  have hpunct : punctuatorAt ('.' :: c :: (cs ++ rest)) = some "." := by
    simp [punctuatorAt, punctuators, List.isPrefixOf, hdot]
  refine ⟨rfl, fun offset => ⟨⟨c :: (cs ++ rest), offset + 1⟩, rfl, ?_⟩⟩
  have hname : (isNameStart '.' || '.' == '\\') = false := by decide
  rw [scanToken]
  simp only [hname, List.head?_cons, Option.any_some, hdigit, Bool.and_false, hpunct]
  rfl

/-! ## Texts -/

/-- The characters between the tokens of a compiled text. -/
def isGap (c : Char) : Bool := c == ' ' || c == '\n'

theorem isGap_space : ∀ c ∈ [' '], isGap c = true := by simp [isGap]

/-- A line break forgets no hint. -/
theorem hints_addNewline (t : Trivia) : t.addNewline.hints = t.hints := by
  unfold Trivia.addNewline
  split
  · rfl
  · dsimp only
    split <;> rfl

/-- Nothing is skipped before a token. -/
theorem skipGap_solid {body : List Char} (hbody : body.head?.all isSolid = true)
    (fuel offset : Nat) (t : Trivia) (newline : Bool) :
    skipGap fuel ⟨body, offset⟩ t newline = ⟨⟨body, offset⟩, t, newline, false⟩ := by
  cases fuel with
  | zero => rfl
  | succ fuel =>
    cases body with
    | nil => rfl
    | cons c body =>
      have hc : isSolid c = true := hbody
      simp only [isSolid, isLineEnd, Bool.and_eq_true, Bool.not_eq_true', Bool.or_eq_false_iff,
        bne_iff_ne] at hc
      rw [skipGap]
      split <;> simp_all [isLineEnd]

theorem dropWhile_isSpace_solid {body : List Char} (hbody : body.head?.all isSolid = true) :
    body.dropWhile isSpace = body := by
  cases body with
  | nil => rfl
  | cons c body =>
    have hc : isSolid c = true := hbody
    simp only [isSolid, Bool.and_eq_true, Bool.not_eq_true'] at hc
    rw [List.dropWhile_cons, hc.1.1]
    rfl

/-- Spaces are skipped together. -/
theorem skipGap_space (tail : List Char) (fuel offset : Nat) (t : Trivia) (newline : Bool) :
    ∃ offset', skipGap (fuel + 1) ⟨' ' :: tail, offset⟩ t newline
      = skipGap fuel ⟨tail.dropWhile isSpace, offset'⟩ t newline := by
  have hrest : ((⟨' ' :: tail, offset⟩ : Cursor).span isSpace).2.rest = tail.dropWhile isSpace :=
    Cursor.rest_span isSpace _
  refine ⟨((⟨' ' :: tail, offset⟩ : Cursor).span isSpace).2.offset, ?_⟩
  rw [← hrest]
  rfl

/-- The blanks before a token are skipped. -/
theorem skipGap_eq {gap body : List Char} (hgap : ∀ c ∈ gap, isGap c = true)
    (hbody : body.head?.all isSolid = true) (fuel : Nat) (hfuel : gap.length < fuel)
    (offset : Nat) (t : Trivia) (newline : Bool) :
    ∃ offset' t', t'.hints = t.hints ∧ skipGap fuel ⟨gap ++ body, offset⟩ t newline
      = ⟨⟨body, offset'⟩, t', newline || gap.contains '\n', false⟩ := by
  induction fuel generalizing gap offset t newline with
  | zero => omega
  | succ fuel ih =>
    cases gap with
    | nil => exact ⟨offset, t, rfl, by simpa using skipGap_solid hbody _ _ _ _⟩
    | cons c gap =>
      have hc := hgap c List.mem_cons_self
      simp only [isGap, Bool.or_eq_true, beq_iff_eq] at hc
      rw [List.length_cons] at hfuel
      rcases hc with rfl | rfl
      · -- The run of spaces ends inside the blanks, or with them.
        have hspaces : (gap ++ body).dropWhile isSpace = gap.dropWhile isSpace ++ body := by
          rw [List.dropWhile_append, dropWhile_isSpace_solid hbody]
          split
          · rename_i hempty
            rw [List.isEmpty_iff.mp hempty, List.nil_append]
          · rfl
        have hnewline : (gap.dropWhile isSpace).contains '\n' = gap.contains '\n' := by
          have hrun : (gap.takeWhile isSpace).contains '\n' = false := by
            rw [List.contains_eq_mem, decide_eq_false_iff_not]
            intro hmem
            exact absurd (List.all_eq_true.mp List.all_takeWhile _ hmem) (by decide)
          rw [← List.takeWhile_append_dropWhile (p := isSpace) (l := gap), List.contains_append,
            hrun, Bool.false_or, List.takeWhile_append_dropWhile]
        obtain ⟨middle, hstep⟩ := skipGap_space (gap ++ body) fuel offset t newline
        have hlength := (List.dropWhile_suffix (l := gap) isSpace).length_le
        have hleft : ∀ x ∈ gap.dropWhile isSpace, isGap x = true := fun x hx =>
          hgap x (List.mem_cons_of_mem _ ((List.dropWhile_suffix _).mem hx))
        obtain ⟨offset', t', hhints, hrest⟩ := ih hleft (by omega) middle t newline
        refine ⟨offset', t', hhints, hstep.trans ?_⟩
        rw [hspaces, hrest, hnewline]
        simp
      · -- A line feed is skipped alone.
        obtain ⟨offset', t', hhints, hrest⟩ := ih
          (fun x hx => hgap x (List.mem_cons_of_mem _ hx)) (by omega) (offset + 1) t.addNewline true
        refine ⟨offset', t', hhints.trans (hints_addNewline t), ?_⟩
        show skipGap fuel ⟨gap ++ body, offset + 1⟩ t.addNewline true = _
        rw [hrest]
        simp

/-- The next token of a text is of this kind, and sound. -/
def Opens (text : List Char) (kind : TokenKind) : Prop :=
  ∀ offset (t : Trivia), t.hints = [] → (nextToken ⟨text, offset⟩ t).token.kind = kind
    ∧ (nextToken ⟨text, offset⟩ t).flawed = false

/-- The next token of a text is of this kind, sound and plain, and the text behind it is known. -/
structure Starts (text : List Char) (kind : TokenKind) (rest : List Char) : Prop where
  opens : Opens text kind
  plain : ∀ offset (t : Trivia), t.hints = [] →
    (nextToken ⟨text, offset⟩ t).token.escaped = false
      ∧ (nextToken ⟨text, offset⟩ t).token.hints = []
  rest_eq : ∀ offset (t : Trivia), (nextToken ⟨text, offset⟩ t).next.rest = rest

/-- A token behind blanks. -/
theorem Scans.starts {body rest : List Char} {kind : TokenKind} (h : Scans body kind rest)
    (gap : List Char) (hgap : ∀ c ∈ gap, isGap c = true) : Starts (gap ++ body) kind rest := by
  -- All three facts come from one run: the blanks are skipped, then the token is scanned.
  have hnext (offset : Nat) (t : Trivia) : ∃ offset' t' next, t'.hints = t.hints
      ∧ next.rest = rest ∧ skipGap ((gap ++ body).length + 1) ⟨gap ++ body, offset⟩ t false
        = ⟨⟨body, offset'⟩, t', gap.contains '\n', false⟩
      ∧ scanToken ⟨body, offset'⟩ = ⟨kind, next, false, false⟩ := by
    obtain ⟨offset', t', hhints, hskip⟩ := skipGap_eq hgap h.solid
      ((gap ++ body).length + 1) (by rw [List.length_append]; omega) offset t false
    obtain ⟨next, hrest, hscan⟩ := h.scan offset'
    exact ⟨offset', t', next, hhints, hrest, hskip, hscan⟩
  refine ⟨fun o t ht => ?_, fun o t ht => ?_, fun o t => ?_⟩ <;>
    obtain ⟨offset', t', next, hhints, hrest, hskip, hscan⟩ := hnext o t <;>
    rw [nextToken, hskip] <;> simp only [hscan]
  · exact ⟨trivial, rfl⟩
  · exact ⟨trivial, hhints.trans ht⟩
  · exact hrest

/-- A token behind spaces stands on the line of the token before it. -/
theorem Scans.sameLine {body rest : List Char} {kind : TokenKind} (h : Scans body kind rest)
    (gap : List Char) (hgap : ∀ c ∈ gap, c = ' ') (offset : Nat) (t : Trivia) :
    (nextToken ⟨gap ++ body, offset⟩ t).token.newlineBefore = false := by
  have hblank : ∀ c ∈ gap, isGap c = true := fun c hc => by rw [hgap c hc]; rfl
  obtain ⟨offset', t', -, hskip⟩ := skipGap_eq hblank h.solid ((gap ++ body).length + 1)
    (by rw [List.length_append]; omega) offset t false
  rw [nextToken, hskip]
  show (false || gap.contains '\n') = false
  rw [Bool.false_or, List.contains_eq_mem, decide_eq_false_iff_not]
  intro hmem
  exact absurd (hgap _ hmem) (by decide)

end Reactive.Script
