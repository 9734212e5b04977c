/-
  Printed literals are read back.

  A number below a thousand is written with its digits, and a string between double quotes with
  escapes and with guards inside closing tags. Wherever such a text stands, the reader takes all of
  it for one token, and gives the value that was written.
-/
import Reactive.Proofs.Script.Opening
import Reactive.Script.Printer.Literal
import Mathlib.Data.Bool.AllAny
import Mathlib.Data.List.Basic

namespace Reactive.Script

open Reactive.Script.Printer

/-! ## Small numbers -/

namespace Number

theorem roundEven_one (n : Nat) : roundEven n 1 = n := by
  simp [roundEven, Nat.mod_one]

/-- A natural number with at most 52 bits is the mantissa that its bits are shifted to. -/
theorem ofNat_eq {n : Nat} (hpos : n ≠ 0) (hn : n < Nat.pow 2 52) :
    ofNat n = .finite (n * Nat.pow 2 (52 - n.log2)) ((n.log2 : Int) - 52) := by
  have hlog : n.log2 < 52 := (Nat.log2_lt hpos).mpr hn
  have hlow : Nat.pow 2 53 ≤ n * Nat.pow 2 (53 - n.log2) := by
    calc Nat.pow 2 53 = Nat.pow 2 (n.log2 + (53 - n.log2)) := by
          rw [Nat.add_sub_cancel' (by omega)]
      _ = Nat.pow 2 n.log2 * Nat.pow 2 (53 - n.log2) := Nat.pow_add 2 _ _
      _ ≤ n * Nat.pow 2 (53 - n.log2) := Nat.mul_le_mul_right _ (Nat.log2_self_le hpos)
  have hhigh : n * Nat.pow 2 (52 - n.log2) < Nat.pow 2 53 := by
    calc n * Nat.pow 2 (52 - n.log2) < Nat.pow 2 (n.log2 + 1) * Nat.pow 2 (52 - n.log2) :=
          Nat.mul_lt_mul_of_pos_right Nat.lt_log2_self (Nat.pow_pos (by decide))
      _ = Nat.pow 2 (n.log2 + 1 + (52 - n.log2)) := (Nat.pow_add 2 _ _).symm
      _ = Nat.pow 2 53 := by
          rw [show n.log2 + 1 + (52 - n.log2) = 53 by omega]
  have hguess : scaled n 1 ((n.log2 : Int) - 0 - 53) = (n * Nat.pow 2 (53 - n.log2), 1) := by
    rw [scaled, if_pos (by omega), show (-((n.log2 : Int) - 0 - 53)).toNat = 53 - n.log2 by omega]
  have hexact : scaled n 1 ((n.log2 : Int) - 52) = (n * Nat.pow 2 (52 - n.log2), 1) := by
    rw [scaled, if_pos (by omega), show (-((n.log2 : Int) - 52)).toNat = 52 - n.log2 by omega]
  have hexponent : max ((n.log2 : Int) - 0 - 53 + 1) minExponent = (n.log2 : Int) - 52 := by
    rw [minExponent]
    omega
  have hone : ((1 : Nat).log2 : Int) = 0 := by decide
  rw [ofNat, ofRatio, if_neg hpos]
  dsimp only
  rw [hone, hguess]
  dsimp only
  rw [Nat.div_one, if_neg (Nat.not_lt.mpr hlow), hexponent, hexact]
  dsimp only
  rw [roundEven_one, if_neg (Nat.ne_of_lt hhigh)]
  dsimp only
  rw [if_neg (by rw [maxExponent]; omega)]

theorem ofNat_ne_infinite {n : Nat} (hn : n < Nat.pow 2 52) : ofNat n ≠ .infinite := by
  by_cases hpos : n = 0
  · subst hpos
    decide
  · rw [ofNat_eq hpos hn]
    nofun

/-- Without point and exponent, the value is that of the digits. -/
theorem ofDecimal_zero {n : Nat} (hn : n < Nat.pow 2 52) : ofDecimal n 0 = ofNat n := by
  by_cases hpos : n = 0
  · subst hpos
    decide
  · have hlog : n.log2 < 52 := (Nat.log2_lt hpos).mpr hn
    rw [ofDecimal, if_neg hpos]
    dsimp only
    rw [if_neg (by omega), if_neg (by omega), if_pos (by decide), ofNat]
    exact congrArg (ofRatio · 1) (Nat.mul_one n)

/-- Numbers below a thousand are written with their digits. -/
theorem text_ofNat {n : Nat} (hn : n < 1000) : (ofNat n).text = Nat.toDigits 10 n := by
  by_cases hpos : n = 0
  · subst hpos
    decide
  · have hsmall : n < Nat.pow 2 52 := Nat.lt_trans hn (by decide)
    have hlog : n.log2 < 52 := (Nat.log2_lt hpos).mpr hsmall
    have hwhole : whole? (n * Nat.pow 2 (52 - n.log2)) ((n.log2 : Int) - 52) = some n := by
      have hpos : 0 < Nat.pow 2 (52 - n.log2) := Nat.pow_pos (by decide)
      rw [whole?, if_neg (by omega), show (-((n.log2 : Int) - 52)).toNat = 52 - n.log2 by omega,
        if_pos (Nat.mul_mod_left _ _), Nat.mul_div_cancel _ hpos]
    rw [ofNat_eq hpos hsmall]
    show finiteText _ _ = _
    rw [finiteText, hwhole]
    exact if_pos hn

end Number

/-! ### Their digits -/

/-- What a number ends before. -/
def EndsNumber (rest : List Char) : Prop := ∀ c ∈ rest.head?, c ∈ [' ', ')', ']', ',', '[', '(']

theorem EndsNumber.cases {rest : List Char} (h : EndsNumber rest) :
    rest = [] ∨ ∃ c tail, rest = c :: tail ∧ c ∈ [' ', ')', ']', ',', '[', '('] := by
  cases rest with
  | nil => exact .inl rfl
  | cons c tail => exact .inr ⟨c, tail, rfl, h c rfl⟩

/-- A run of digits up to where a number ends. -/
theorem digitRun_eq {ds rest : List Char} (hds : ∀ c ∈ ds, c.isDigit = true) (hne : ds ≠ [])
    (hrest : EndsNumber rest) (offset : Nat) :
    ∃ next : Cursor, next.rest = rest
      ∧ digitRun Char.isDigit ⟨ds ++ rest, offset⟩ = some (ds, next) := by
  have hrun : ∀ c ∈ ds, (c.isDigit || c == '_') = true := fun c hc => by rw [hds c hc, Bool.true_or]
  have hstop : rest.takeWhile (fun c => c.isDigit || c == '_') = []
      ∧ rest.dropWhile (fun c => c.isDigit || c == '_') = rest := by
    rcases hrest.cases with rfl | ⟨c, tail, rfl, hc⟩
    · exact ⟨rfl, rfl⟩
    · have hnone : ∀ c ∈ [' ', ')', ']', ',', '[', '('], (c.isDigit || c == '_') = false :=
        List.all_iff_forall_prop.mp (by decide)
      rw [List.takeWhile_cons, List.dropWhile_cons, hnone c hc]
      exact ⟨rfl, rfl⟩
  have hplain : ∀ c ∈ ds, c ≠ '_' := by
    rintro c hc rfl
    exact absurd (hds _ hc) (by decide)
  have hseparated : (ds.head? != some '_' && ds.getLast? != some '_'
      && (ds.zip (ds.drop 1)).all fun p => !(p.1 == '_' && p.2 == '_')) = true := by
    rw [Bool.and_eq_true, Bool.and_eq_true, bne_iff_ne, bne_iff_ne, List.all_eq_true]
    refine ⟨⟨fun h => hplain _ (List.mem_of_head? h) rfl,
      fun h => hplain _ (List.mem_of_getLast? h) rfl⟩, fun p hp => ?_⟩
    rw [beq_eq_false_iff_ne.mpr (hplain _ (List.of_mem_zip hp).1)]
    rfl
  have hfilter : ds.filter (· != '_') = ds :=
    List.filter_eq_self.mpr fun c hc => bne_iff_ne.mpr (hplain c hc)
  have htake := (Cursor.fst_span (fun c => c.isDigit || c == '_') ⟨ds ++ rest, offset⟩).trans
    (List.takeWhile_append_of_pos hrun)
  have hdrop := (Cursor.rest_span (fun c => c.isDigit || c == '_') ⟨ds ++ rest, offset⟩).trans
    (List.dropWhile_append_of_pos hrun)
  rw [hstop.1, List.append_nil] at htake
  rw [hstop.2] at hdrop
  refine ⟨_, hdrop, ?_⟩
  unfold digitRun
  dsimp only
  rw [htake, hfilter]
  refine if_neg ?_
  rw [hseparated, List.isEmpty_eq_false_iff.mpr hne]
  decide

/-- No blank and no comment starts with a digit. -/
theorem isSolid_of_isDigit {c : Char} (h : c.isDigit = true) : isSolid c = true := by
  have hbounds : 48 ≤ c.toNat ∧ c.toNat ≤ 57 := by
    simpa [Char.isDigit, UInt32.le_iff_toNat_le] using h
  have hall : ∀ n ∈ List.range' 48 10, isSolid (Char.ofNat n) = true := by decide
  have hc := hall c.toNat (List.mem_range'_1.mpr (by omega))
  rwa [Char.ofNat_toNat] at hc

theorem head?_toDigits_ne {n : Nat} (h : n ≠ 0) : (Nat.toDigits 10 n).head? ≠ some '0' := by
  induction n using Nat.strongRecOn with
  | ind n ih =>
    by_cases hlt : n < 10
    · have hdigits : ∀ m < 10, m ≠ 0 → [m.digitChar].head? ≠ some '0' := by decide
      rw [Nat.toDigits_of_lt_base hlt]
      exact hdigits n hlt h
    · rw [Nat.toDigits_of_base_le (by decide) (Nat.le_of_not_lt hlt),
        List.head?_append_of_ne_nil _ Nat.toDigits_ne_nil]
      exact ih _ (by omega) (by omega)

theorem decimalValue_toDigits (n : Nat) : decimalValue (Nat.toDigits 10 n) = n := by
  have hsame : (fun acc (c : Char) => acc * 10 + (c.toNat - '0'.toNat))
      = fun acc c => 10 * acc + (c.toNat - '0'.toNat) := by
    funext acc c
    rw [Nat.mul_comm]
  rw [decimalValue, hsame]
  exact Nat.ofDigitChars_toDigits (by decide) (by decide)

/-- Where no point and no exponent follows, digits are the whole number. -/
theorem finishDecimal_of_ends {k : Cursor} (hk : EndsNumber k.rest) (n : Nat) :
    finishDecimal n 0 k = .ok (.number (Number.ofDecimal n 0)) k := by
  obtain ⟨rest, offset⟩ := k
  rcases hk.cases with rfl | ⟨c, tail, rfl, hc⟩
  · rfl
  · simp only [List.mem_cons, List.not_mem_nil, or_false] at hc
    rcases hc with rfl | rfl | rfl | rfl | rfl | rfl <;> rfl

/-- A printed number is one token. -/
theorem scans_number {n : Nat} (hn : n < 1000) {rest : List Char} (hrest : EndsNumber rest) :
    Scans ((Number.ofNat n).text ++ rest) (.number (Number.ofNat n)) rest := by
  have hsmall : n < Nat.pow 2 52 := Nat.lt_trans hn (by decide)
  rw [Number.text_ofNat hn, ← Number.ofDecimal_zero hsmall]
  by_cases hpos : n = 0
  · subst hpos
    refine ⟨rfl, fun offset => ⟨⟨rest, offset + 1⟩, rfl, ?_⟩⟩
    show scanNumber ⟨'0' :: rest, offset⟩ = _
    rcases hrest.cases with rfl | ⟨c, tail, rfl, hc⟩
    · rfl
    · simp only [List.mem_cons, List.not_mem_nil, or_false] at hc
      rcases hc with rfl | rfl | rfl | rfl | rfl | rfl <;> rfl
  · obtain ⟨c, ds, hds⟩ := List.exists_cons_of_ne_nil (Nat.toDigits_ne_nil (n := n) (b := 10))
    have hdigits : ∀ x ∈ c :: ds, x.isDigit = true := fun x hx =>
      Nat.isDigit_of_mem_toDigits (by decide) (by decide) (hds ▸ hx)
    have hfirst : c ≠ '0' := by
      rintro rfl
      exact head?_toDigits_ne hpos (by rw [hds]; rfl)
    have hvalue : decimalValue (c :: ds) = n := hds ▸ decimalValue_toDigits n
    rw [hds]
    have hc := hdigits c List.mem_cons_self
    refine ⟨isSolid_of_isDigit hc, fun offset => ?_⟩
    obtain ⟨next, hnext, hrun⟩ := digitRun_eq hdigits (List.cons_ne_nil _ _) hrest offset
    refine ⟨next, hnext, ?_⟩
    have hscan : scanNumber ⟨c :: ds ++ rest, offset⟩
        = finishDecimal (decimalValue (c :: ds)) 0 next := by
      unfold scanNumber
      split
      iterate 7
        · rename_i heq
          exact absurd (List.cons.inj heq).1 hfirst
      · rw [hrun]
        dsimp only
        rw [hnext]
        rcases hrest.cases with rfl | ⟨c, tail, rfl, hc⟩
        · rfl
        · simp only [List.mem_cons, List.not_mem_nil, or_false] at hc
          rcases hc with rfl | rfl | rfl | rfl | rfl | rfl <;> rfl
    have htoken : scanToken ⟨c :: ds ++ rest, offset⟩ = scanNumber ⟨c :: ds ++ rest, offset⟩ := by
      have hslash : (c == '\\') = false := by
        rw [beq_eq_false_iff_ne]
        rintro rfl
        exact absurd hc (by decide)
      unfold scanToken
      dsimp only [List.cons_append]
      rw [isNameStart_of_isDigit hc, hslash, hc]
      rfl
    rw [htoken, hscan, finishDecimal_of_ends (hnext.symm ▸ hrest), hvalue]
    rfl

/-! ## Strings -/

/-- Escapes with one letter, and what they stand for. -/
def shortEscapes : List (Char × Nat) :=
  [('b', 8), ('n', 10), ('v', 11), ('f', 12), ('r', 13), ('"', 34), ('\\', 92), ('/', 47)]

/-- The text stands for these code points inside a string with double quotes. -/
inductive Quotes : List Char → List Nat → Prop
  | nil : Quotes [] []
  | verbatim {c : Char} {x : List Char} {v : List Nat} (hc : isVerbatim c = true)
      (h : Quotes x v) : Quotes (c :: x) (c.toNat :: v)
  | short {e : Char} {n : Nat} {x : List Char} {v : List Nat} (he : (e, n) ∈ shortEscapes)
      (h : Quotes x v) : Quotes ('\\' :: e :: x) (n :: v)
  | zero {x : List Char} {v : List Nat} (hx : x.head?.any Char.isDigit = false)
      (h : Quotes x v) : Quotes ('\\' :: '0' :: x) (0 :: v)
  | byte {a b : Char} {n : Nat} {x : List Char} {v : List Nat} (hn : hexNumber? [a, b] = some n)
      (hdigits : ∀ c ∈ [a, b], isVerbatim c = true ∧ c ≠ '<') (h : Quotes x v) :
      Quotes ('\\' :: 'x' :: a :: b :: x) (n :: v)
  | unit {a b c d : Char} {n : Nat} {x : List Char} {v : List Nat}
      (hn : ∀ tail, unicodeEscape (a :: b :: c :: d :: tail) = some (n, tail)
        ∧ pairedEscape n (a :: b :: c :: d :: tail) tail = (n, tail))
      (hdigits : ∀ z ∈ [a, b, c, d], isVerbatim z = true ∧ z ≠ '<') (h : Quotes x v) :
      Quotes ('\\' :: 'u' :: a :: b :: c :: d :: x) (n :: v)

/-- The text is taken up to the closing quote. -/
theorem Quotes.stringBody_eq {x : List Char} {v : List Nat} (h : Quotes x v) (rest : List Char)
    (offset : Nat) : ∃ offset', stringBody '"' (x ++ '"' :: rest) offset
      = some (x, ⟨rest, offset'⟩) := by
  have hescaped {e : Char} (he : e ≠ '\r') {y x : List Char} (hy : ∀ c ∈ y, isVerbatim c = true)
      (hx : ∀ o, ∃ o', stringBody '"' (x ++ '"' :: rest) o = some (x, ⟨rest, o'⟩)) (offset : Nat) :
      ∃ offset', stringBody '"' ('\\' :: e :: (y ++ (x ++ '"' :: rest))) offset
        = some ('\\' :: e :: (y ++ x), ⟨rest, offset'⟩) := by
    obtain ⟨middle, hverbatim⟩ := stringBody_verbatim hy (x ++ '"' :: rest)
      (offset + 1 + e.utf8Size)
    obtain ⟨offset', hrest⟩ := hx middle
    refine ⟨offset', ?_⟩
    rw [stringBody_backslash he, hverbatim, hrest]
    rfl
  induction h generalizing offset with
  | nil => exact ⟨_, rfl⟩
  | @verbatim c x v hc h ih =>
    obtain ⟨middle, hverbatim⟩ := stringBody_verbatim (List.forall_mem_singleton.mpr hc)
      (x ++ '"' :: rest) offset
    obtain ⟨offset', hrest⟩ := ih middle
    refine ⟨offset', ?_⟩
    rw [← List.singleton_append, List.append_assoc, hverbatim, hrest]
    rfl
  | @short e n x v he h ih =>
    refine hescaped (y := []) ?_ (by simp) ih offset
    rintro rfl
    revert he
    simp [shortEscapes]
  | zero hx h ih => exact hescaped (y := []) (by decide) (by simp) ih offset
  | @byte a b n x v hn hdigits h ih =>
    exact hescaped (y := [a, b]) (by decide) (fun c hc => (hdigits c hc).1) ih offset
  | @unit a b c d n x v hn hdigits h ih =>
    exact hescaped (y := [a, b, c, d]) (by decide) (fun z hz => (hdigits z hz).1) ih offset

/-- The escapes have a meaning, and the text stands for the code points. -/
theorem Quotes.unescape_eq {x : List Char} {v : List Nat} (h : Quotes x v) (fuel : Nat)
    (hfuel : x.length < fuel) : unescape false fuel x = (v, true) := by
  induction h generalizing fuel with
  | nil => cases fuel <;> rfl
  | @verbatim c x v hc h ih =>
    obtain ⟨fuel, rfl⟩ := Nat.exists_eq_add_of_lt (Nat.lt_of_le_of_lt (Nat.zero_le _) hfuel)
    have hslash : c ≠ '\\' := by
      rintro rfl
      cases hc
    rw [List.length_cons] at hfuel
    show (if c != '\\' then _ else _) = _
    rw [if_pos (bne_iff_ne.mpr hslash), ih _ (by omega)]
  | @short e n x v he h ih =>
    obtain ⟨fuel, rfl⟩ := Nat.exists_eq_add_of_lt (Nat.lt_of_le_of_lt (Nat.zero_le _) hfuel)
    simp only [List.length_cons] at hfuel
    have hrest := ih (0 + fuel) (by omega)
    simp only [shortEscapes, List.mem_cons, Prod.mk.injEq, List.not_mem_nil, or_false] at he
    rcases he with ⟨rfl, rfl⟩ | ⟨rfl, rfl⟩ | ⟨rfl, rfl⟩ | ⟨rfl, rfl⟩ | ⟨rfl, rfl⟩ | ⟨rfl, rfl⟩
        | ⟨rfl, rfl⟩ | ⟨rfl, rfl⟩ <;>
      exact congrArg (fun p : List Nat × Bool => (_ :: p.1, p.2)) hrest
  | @zero x v hx h ih =>
    obtain ⟨fuel, rfl⟩ := Nat.exists_eq_add_of_lt (Nat.lt_of_le_of_lt (Nat.zero_le _) hfuel)
    simp only [List.length_cons] at hfuel
    simp [unescape, isLineEnd, hx, ih fuel (by omega)]
  | @byte a b n x v hn hdigits h ih =>
    obtain ⟨fuel, rfl⟩ := Nat.exists_eq_add_of_lt (Nat.lt_of_le_of_lt (Nat.zero_le _) hfuel)
    simp only [List.length_cons] at hfuel
    simp [unescape, isLineEnd, hn, ih fuel (by omega)]
  | @unit a b c d n x v hn hdigits h ih =>
    obtain ⟨fuel, rfl⟩ := Nat.exists_eq_add_of_lt (Nat.lt_of_le_of_lt (Nat.zero_le _) hfuel)
    simp only [List.length_cons] at hfuel
    simp [unescape, isLineEnd, (hn x).1, (hn x).2, ih fuel (by omega)]

/-- Only a tag is guarded. -/
theorem guardClosingTag_cons {c : Char} (hc : c ≠ '<') (x : List Char) :
    guardClosingTag (c :: x) = c :: guardClosingTag x := by
  rw [guardClosingTag]
  exact fun _ h _ => absurd h hc

/-- A guard stands inside the tag. -/
theorem head?_guardClosingTag (x : List Char) : (guardClosingTag x).head? = x.head? := by
  unfold guardClosingTag
  split
  · split <;> rfl
  · rfl
  · rfl

/-- A guarded text stands for the same code points. -/
theorem Quotes.guarded {x : List Char} {v : List Nat} (h : Quotes x v) :
    Quotes (guardClosingTag x) v := by
  induction h with
  | nil => exact .nil
  | @verbatim c x v hc h ih =>
    by_cases htag : ∃ y, c = '<' ∧ x = '/' :: y ∧ startsScript y = true
    · obtain ⟨y, rfl, rfl, hscript⟩ := htag
      rw [guardClosingTag_cons (by decide)] at ih
      have hguard : guardClosingTag ('<' :: '/' :: y)
          = '<' :: '\\' :: '/' :: guardClosingTag y := by
        rw [guardClosingTag, if_pos hscript]
      rw [hguard]
      -- The slash stood for itself, and its escape stands for the same.
      cases ih with
      | verbatim _ ih => exact .verbatim hc (.short (by decide) ih)
    · have hguard : guardClosingTag (c :: x) = c :: guardClosingTag x := by
        by_cases hslash : ∃ y, c = '<' ∧ x = '/' :: y
        · obtain ⟨y, rfl, rfl⟩ := hslash
          rw [guardClosingTag, if_neg fun hscript => htag ⟨y, rfl, rfl, hscript⟩]
        · rw [guardClosingTag]
          exact fun y hopen hx => hslash ⟨y, hopen, hx⟩
      rw [hguard]
      exact .verbatim hc ih
  | @short e n x v he h ih =>
    have hopen : e ≠ '<' := by
      rintro rfl
      revert he
      simp [shortEscapes]
    rw [guardClosingTag_cons (by decide), guardClosingTag_cons hopen]
    exact .short he ih
  | @zero x v hx h ih =>
    rw [guardClosingTag_cons (by decide), guardClosingTag_cons (by decide)]
    exact .zero (by rwa [head?_guardClosingTag]) ih
  | @byte a b n x v hn hdigits h ih =>
    rw [guardClosingTag_cons (by decide), guardClosingTag_cons (by decide),
      guardClosingTag_cons (hdigits a (by simp)).2, guardClosingTag_cons (hdigits b (by simp)).2]
    exact .byte hn hdigits ih
  | @unit a b c d n x v hn hdigits h ih =>
    rw [guardClosingTag_cons (by decide), guardClosingTag_cons (by decide),
      guardClosingTag_cons (hdigits a (by simp)).2, guardClosingTag_cons (hdigits b (by simp)).2,
      guardClosingTag_cons (hdigits c (by simp)).2, guardClosingTag_cons (hdigits d (by simp)).2]
    exact .unit hn hdigits ih

theorem toNat_ofNat {n : Nat} (h : n.isValidChar) : (Char.ofNat n).toNat = n := by
  rw [Char.ofNat, dif_pos h]
  rfl

theorem isVerbatim_ofNat {n : Nat} (hn : n.isValidChar) (h : n ∉ [0x22, 0x5C, 0xA, 0xD]) :
    isVerbatim (Char.ofNat n) = true := by
  have hmarks : '"'.toNat = 0x22 ∧ '\\'.toNat = 0x5C ∧ '\n'.toNat = 0xA ∧ '\r'.toNat = 0xD := by
    decide
  simp only [isVerbatim, Bool.and_eq_true, bne_iff_ne, ne_eq, ← Char.toNat_inj, toNat_ofNat hn,
    hmarks]
  simpa [and_assoc] using h

/-- A character is no half of a pair. -/
theorem not_surrogate {n : Nat} (hn : n.isValidChar) :
    (isHighSurrogate n || isLowSurrogate n) = false := by
  simp only [isHighSurrogate, isLowSurrogate, Bool.or_eq_false_iff, Bool.and_eq_false_iff,
    decide_eq_false_iff_not]
  rcases hn with h | h <;> omega

/-- Where no digit comes first, none is written first. -/
theorem head?_stringText {v : List Nat} (hv : ∀ n ∈ v, n.isValidChar)
    (h : (v.head?.map isDigitCode).getD false = false) :
    (stringText v).head?.any Char.isDigit = false := by
  cases v with
  | nil => rfl
  | cons n v =>
    have hn := hv n List.mem_cons_self
    rw [stringText]
    unfold stringChar
    split
    · split <;> rfl
    iterate 12 rfl
    · have hcode : isDigitCode n = false := h
      rw [← toNat_ofNat hn] at hcode
      rw [not_surrogate hn]
      simpa [Char.isDigit, isDigitCode, UInt32.le_iff_toNat_le] using hcode

theorem quotes_stringText {v : List Nat} (hv : ∀ n ∈ v, n.isValidChar) :
    Quotes (stringText v) v := by
  induction v with
  | nil => exact .nil
  | cons n v ih =>
    have hn := hv n List.mem_cons_self
    have hv' : ∀ m ∈ v, m.isValidChar := fun m hm => hv m (List.mem_cons_of_mem _ hm)
    have hrest := ih hv'
    rw [stringText]
    unfold stringChar
    split
    · split
      · exact .byte rfl (List.all_iff_forall_prop.mp (by decide)) hrest
      · rename_i hdigit
        exact .zero (head?_stringText hv' (Bool.eq_false_iff.mpr hdigit)) hrest
    · exact .byte rfl (List.all_iff_forall_prop.mp (by decide)) hrest
    iterate 5 exact .short (by decide) hrest
    · exact .byte rfl (List.all_iff_forall_prop.mp (by decide)) hrest
    iterate 2 exact .short (by decide) hrest
    · exact .byte rfl (List.all_iff_forall_prop.mp (by decide)) hrest
    iterate 2 exact .unit (fun _ => ⟨rfl, rfl⟩) (List.all_iff_forall_prop.mp (by decide)) hrest
    · rw [not_surrogate hn]
      have hverbatim := isVerbatim_ofNat hn (by
        simp only [List.mem_cons, List.not_mem_nil, or_false, not_or]
        exact ⟨by assumption, by assumption, by assumption, by assumption⟩)
      have hquotes := Quotes.verbatim hverbatim hrest
      rwa [toNat_ofNat hn] at hquotes

/-- A printed string is one token. -/
theorem scans_string {v : List Nat} (hv : ∀ n ∈ v, n.isValidChar) (rest : List Char) :
    Scans ('"' :: (guardClosingTag (stringText v) ++ ['"']) ++ rest) (.string v) rest := by
  have hquotes := (quotes_stringText hv).guarded
  generalize guardClosingTag (stringText v) = x at hquotes
  have htext : '"' :: (x ++ ['"']) ++ rest = '"' :: (x ++ '"' :: rest) := by simp
  rw [htext]
  refine ⟨rfl, fun offset => ?_⟩
  obtain ⟨offset', hbody⟩ := hquotes.stringBody_eq rest (offset + 1)
  refine ⟨⟨rest, offset'⟩, rfl, ?_⟩
  show scanString '"' ⟨x ++ '"' :: rest, offset + 1⟩ = _
  rw [scanString, hbody]
  show Scan.mk (.string (unescape false (x.length + 1) x).1) _ _
    (!(unescape false (x.length + 1) x).2) = _
  rw [hquotes.unescape_eq _ (Nat.lt_succ_self _)]
  rfl

end Reactive.Script
