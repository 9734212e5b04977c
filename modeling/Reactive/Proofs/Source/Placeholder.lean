/-
  Regions come back in place of their placeholders.

  Where the text outside the regions does not hold the opening of a placeholder, the only
  placeholders to be found are those that were put there: one that starts in a stretch would
  need a digit where the next placeholder has none. Putting regions back then fills the cut of
  the markup with whatever texts are given, and a text that looks like a placeholder is not
  looked at again.
-/
import Reactive.Proofs.Source.Cut

namespace Reactive.Source

open Reactive.Text

/-! ## One placeholder -/

/-- The rest behind a part is what the text goes on with. -/
theorem after?_eq_some_iff {part cs rest : List Char} :
    after? part cs = some rest ↔ cs = part ++ rest := by
  fun_induction after? part cs with
  | case1 cs => simp
  | case2 p ps => simp
  | case3 p ps cs ih => simpa using ih
  | case4 p ps c cs hne =>
    simp only [reduceCtorEq, List.cons_append, List.cons.injEq, false_iff, not_and]
    exact fun h => absurd h.symm hne

theorem isDecimalDigit_of_mem_toDigits {n : Nat} {c : Char} (h : c ∈ Nat.toDigits 10 n) :
    isDecimalDigit c = true := by
  have hdigit := Nat.isDigit_of_mem_toDigits (by decide) (by decide) h
  -- Beyond ASCII other characters count as digits as well, but none of them is written here.
  have hascii : c.toNat < 0x80 := by
    simp only [Char.isDigit, Bool.and_eq_true, decide_eq_true_eq] at hdigit
    have : c.val.toNat ≤ (57 : UInt32).toNat := hdigit.2
    exact Nat.lt_of_le_of_lt this (by decide)
  rw [isDecimalDigit, if_pos hascii, hdigit]

/-- A placeholder is found where it stands. -/
theorem placeholderAt?_placeholder (n : Nat) (rest : List Char) :
    placeholderAt? (placeholder n ++ rest) = some (Nat.toDigits 10 n, rest) := by
  have hopening : after? placeholderOpening (placeholder n ++ rest)
      = some (Nat.toDigits 10 n ++ (placeholderClosing ++ rest)) := by
    rw [after?_eq_some_iff, placeholder]
    simp only [List.append_assoc]
  have hdigits : ∀ c ∈ Nat.toDigits 10 n, isDecimalDigit c = true :=
    fun _ => isDecimalDigit_of_mem_toDigits
  -- The closing starts with no digit, so all digits are taken and no more.
  have htake : (placeholderClosing ++ rest).takeWhile isDecimalDigit = [] := rfl
  have hdrop : (placeholderClosing ++ rest).dropWhile isDecimalDigit
      = placeholderClosing ++ rest := rfl
  have hclosing : after? placeholderClosing (placeholderClosing ++ rest) = some rest :=
    after?_eq_some_iff.mpr rfl
  unfold placeholderAt?
  rw [hopening]
  dsimp only [bind, Option.bind]
  rw [List.takeWhile_append_of_pos hdigits, List.dropWhile_append_of_pos hdigits, htake, hdrop,
    List.append_nil, if_neg (by simp [Nat.toDigits_ne_nil]), hclosing]
  rfl

/-- Where a placeholder is found, its opening stands, and a digit behind it. -/
theorem exists_digit_of_placeholderAt? {cs : List Char} {found : List Char × List Char}
    (h : placeholderAt? cs = some found) :
    ∃ d rest, cs = placeholderOpening ++ d :: rest ∧ isDecimalDigit d = true := by
  unfold placeholderAt? at h
  obtain ⟨behind, hbehind, h⟩ := Option.bind_eq_some_iff.mp h
  rw [after?_eq_some_iff] at hbehind
  cases behind with
  | nil => cases h
  | cons d rest =>
    refine ⟨d, rest, hbehind, ?_⟩
    by_contra hd
    rw [List.takeWhile_cons_of_neg hd] at h
    cases h

/-! ## Numbers as keys -/

/-- Under the digits of a number stands the text with that number, and there is nothing else. -/
theorem regionOf?_eq_some_iff {texts : List (List Char)} {digits text : List Char} :
    regionOf? texts digits = some text ↔
      ∃ k, digits = Nat.toDigits 10 k ∧ texts[k]? = some text := by
  have hinj : ∀ {i k : Nat}, Nat.toDigits 10 i = Nat.toDigits 10 k → i = k := by
    intro i k h
    have hvalue := congrArg (Nat.ofDigitChars 10 · 0) h
    simpa [Nat.ofDigitChars_toDigits] using hvalue
  -- Counted from any number on, since the keys behind the first one start later.
  have hcounted : ∀ n : Nat,
      (texts.mapIdx fun i t => (Nat.toDigits 10 (i + n), t)).lookup digits = some text ↔
        ∃ k, digits = Nat.toDigits 10 (k + n) ∧ texts[k]? = some text := by
    induction texts with
    | nil => simp
    | cons t texts ih =>
      intro n
      have hshift : (fun (i : Nat) (u : List Char) => (Nat.toDigits 10 (i + 1 + n), u))
          = fun i u => (Nat.toDigits 10 (i + (n + 1)), u) := by
        funext i u
        rw [Nat.add_assoc, Nat.add_comm 1 n]
      rw [List.mapIdx_cons, hshift, List.lookup_cons]
      by_cases hfirst : digits = Nat.toDigits 10 n
      · subst hfirst
        rw [Nat.zero_add, beq_self_eq_true]
        constructor
        · intro h
          exact ⟨0, by rw [Nat.zero_add], h⟩
        · rintro ⟨k, hk, htext⟩
          obtain rfl : k = 0 := by have := hinj hk; omega
          exact htext
      · rw [Nat.zero_add, beq_false_of_ne hfirst, ih (n + 1)]
        constructor
        · rintro ⟨k, hk, htext⟩
          exact ⟨k + 1, by rw [hk, Nat.add_assoc, Nat.add_comm 1 n], htext⟩
        · rintro ⟨k, hk, htext⟩
          cases k with
          | zero => exact absurd (by rw [hk, Nat.zero_add]) hfirst
          | succ k => exact ⟨k, by rw [hk, Nat.add_assoc, Nat.add_comm 1 n], htext⟩
  simpa [regionOf?] using hcounted 0

/-! ## Stretches -/

/-- The text does not hold the opening of a placeholder. -/
def Plain (text : List Char) : Prop := ¬ placeholderOpening <:+: text

instance (text : List Char) : Decidable (Plain text) := inferInstanceAs (Decidable (¬ _))

/-- No placeholder starts in a plain stretch, also where the text behind it starts with one. -/
theorem placeholderAt?_stretch {stretch behind : List Char} (hplain : Plain stretch)
    (hne : stretch ≠ []) (hbehind : behind = [] ∨ placeholderOpening <+: behind) :
    placeholderAt? (stretch ++ behind) = none := by
  by_contra hsome
  obtain ⟨found, hfound⟩ := Option.ne_none_iff_exists'.mp hsome
  obtain ⟨d, rest, htext, hd⟩ := exists_digit_of_placeholderAt? hfound
  rcases List.append_eq_append_iff.mp htext with ⟨q, hq, hrest⟩ | ⟨q, hq, hrest⟩
  · -- The stretch ends within the opening, and the digit stands in the opening behind it.
    rcases hbehind with rfl | ⟨more, rfl⟩
    · cases q <;> cases hrest
    have hlength : q.length < placeholderOpening.length := by
      rw [hq, List.length_append]
      have := List.length_pos_of_ne_nil hne
      omega
    rcases List.append_eq_append_iff.mp hrest with ⟨a, ha, -⟩ | ⟨a, ha, htail⟩
    · rw [ha, List.length_append] at hlength
      omega
    · cases a with
      | nil =>
        rw [ha, List.append_nil] at hlength
        exact Nat.lt_irrefl _ hlength
      | cons e a =>
        obtain ⟨rfl, -⟩ := List.cons.inj htail
        have hmem : d ∈ placeholderOpening := by rw [ha]; simp
        have hnone : placeholderOpening.all (!isDecimalDigit ·) = true := by decide
        have hdigit := List.all_eq_true.mp hnone d hmem
        rw [hd] at hdigit
        cases hdigit
  · -- The opening stands in the stretch.
    exact hplain ⟨[], q, by rw [hq, List.nil_append]⟩

theorem Plain.tail {c : Char} {text : List Char} (h : Plain (c :: text)) : Plain text :=
  fun hpart => h (hpart.trans (List.suffix_cons c text).isInfix)

/-- A plain stretch is passed over. -/
theorem restoreWithin_stretch {texts : List (List Char)} {stretch behind : List Char}
    (hplain : Plain stretch) (hbehind : behind = [] ∨ placeholderOpening <+: behind) (fuel : Nat) :
    restoreWithin texts (stretch.length + fuel) (stretch ++ behind)
      = stretch ++ restoreWithin texts fuel behind := by
  induction stretch with
  | nil => simp
  | cons c stretch ih =>
    have hnone : placeholderAt? (c :: (stretch ++ behind)) = none :=
      placeholderAt?_stretch hplain (List.cons_ne_nil _ _) hbehind
    rw [List.length_cons, Nat.add_right_comm, List.cons_append, restoreWithin, hnone]
    dsimp only
    rw [ih hplain.tail]
    rfl

/-- A placeholder with a text is replaced by it. -/
theorem restoreWithin_placeholder {texts : List (List Char)} {n : Nat} {text : List Char}
    (htext : texts[n]? = some text) (fuel : Nat) (rest : List Char) :
    restoreWithin texts (fuel + 1) (placeholder n ++ rest)
      = text ++ restoreWithin texts fuel rest := by
  have hfound := placeholderAt?_placeholder n rest
  have hkey : regionOf? texts (Nat.toDigits 10 n) = some text :=
    regionOf?_eq_some_iff.mpr ⟨n, rfl, htext⟩
  -- The reader takes the text apart before it looks for a placeholder.
  obtain ⟨c, cs, hcons⟩ : ∃ c cs, placeholder n ++ rest = c :: cs := ⟨_, _, rfl⟩
  rw [hcons] at hfound ⊢
  rw [restoreWithin, hfound]
  dsimp only
  rw [hkey, Option.getD_some]

/-! ## The whole text -/

/-- A text with placeholders starts with its first stretch, and an opening stands behind that. -/
theorem filled_placeholders (stretch r : List Char) (parts : List (List Char × List Char))
    (last : List Char) (n : Nat) :
    let rest := Cut.filled ⟨parts, last⟩ ((List.range' (n + 1) parts.length).map placeholder)
    Cut.filled ⟨(stretch, r) :: parts, last⟩
        ((List.range' n (parts.length + 1)).map placeholder)
      = stretch ++ (placeholder n ++ rest)
    ∧ placeholderOpening <+: placeholder n ++ rest := by
  refine ⟨?_, ?_⟩
  · rw [List.range'_succ]
    simp [Cut.filled]
  · exact ⟨_, by rw [placeholder, List.append_assoc, List.append_assoc]⟩

/-- With plain stretches, putting texts back fills the cut with them, given that each number from
`n` on has its text. The room needed is at most the length of the text. -/
theorem restoreWithin_filled {all : List (List Char)} {parts : List (List Char × List Char)}
    {last : List Char} (hplain : ∀ stretch ∈ Cut.stretches ⟨parts, last⟩, Plain stretch)
    {n : Nat} {texts : List (List Char)} (hlength : texts.length = parts.length)
    (htexts : ∀ k, k < texts.length → all[n + k]? = texts[k]?) {fuel : Nat}
    (hfuel : (Cut.filled ⟨parts, last⟩
      ((List.range' n parts.length).map placeholder)).length ≤ fuel) :
    restoreWithin all fuel (Cut.filled ⟨parts, last⟩
      ((List.range' n parts.length).map placeholder)) = Cut.filled ⟨parts, last⟩ texts := by
  induction parts generalizing n texts fuel with
  | nil =>
    have hlast : restoreWithin all (last.length + (fuel - last.length)) (last ++ [])
        = last ++ restoreWithin all (fuel - last.length) [] :=
      restoreWithin_stretch (hplain last (by simp [Cut.stretches])) (Or.inl rfl) _
    have hroom : last.length + (fuel - last.length) = fuel := by
      rw [Cut.filled_nil] at hfuel
      omega
    rw [List.append_nil, hroom] at hlast
    rw [Cut.filled_nil, Cut.filled_nil, hlast]
    cases fuel - last.length <;> simp [restoreWithin]
  | cons part parts ih =>
    obtain ⟨stretch, r⟩ := part
    cases texts with
    | nil => exact absurd hlength (by simp)
    | cons text texts =>
      obtain ⟨hsplit, hopening⟩ := filled_placeholders stretch r parts last n
      rw [List.length_cons] at hfuel ⊢
      rw [hsplit] at hfuel ⊢
      rw [List.length_append, List.length_append] at hfuel
      have hpositive : 0 < (placeholder n).length :=
        List.length_pos_of_ne_nil (List.cons_ne_nil _ _)
      -- The stretch takes its length of the room, and the placeholder one step only.
      obtain ⟨room, rfl⟩ : ∃ room, fuel = stretch.length + (room + 1) :=
        ⟨fuel - stretch.length - 1, by omega⟩
      have hstretch : Plain stretch := hplain stretch (by simp [Cut.stretches])
      have hfirst : all[n]? = some text := by simpa using htexts 0 (by simp)
      have hlater (k : Nat) (hk : k < texts.length) : all[n + 1 + k]? = texts[k]? := by
        have := htexts (k + 1) (by simpa using hk)
        rwa [List.getElem?_cons_succ, ← Nat.add_assoc, Nat.add_right_comm] at this
      have hrest : restoreWithin all room (Cut.filled ⟨parts, last⟩
          ((List.range' (n + 1) parts.length).map placeholder)) = Cut.filled ⟨parts, last⟩ texts :=
        ih (fun s hs => hplain s (List.mem_cons_of_mem _ hs)) (by simpa using hlength) hlater
          (by omega)
      rw [restoreWithin_stretch hstretch (Or.inr hopening), restoreWithin_placeholder hfirst, hrest]
      simp [Cut.filled]

/-- Every markup has one cut into stretches and regions. Its regions are what is taken out, in
    order; under the digits of a number, the region with that number is kept, and there are no
    other entries. If no stretch holds the opening of a placeholder, putting the regions back gives
    the markup, and putting any other texts back puts exactly these in the place of the regions,
    whatever they look like. -/
theorem restore_normalize (markup : List Char) :
    let c := cut markup
    (∀ other : Cut, other.Of markup ↔ other = c)
    ∧ c.filled c.regions = markup
    ∧ normalize markup = (c.filled ((List.range c.regions.length).map placeholder), c.regions)
    ∧ (∀ digits text, regionOf? (normalize markup).2 digits = some text ↔
        ∃ k, digits = Nat.toDigits 10 k ∧ c.regions[k]? = some text)
    ∧ ((∀ stretch ∈ c.stretches, Plain stretch) →
        restore (normalize markup).2 (normalize markup).1 = markup
        ∧ ∀ texts : List (List Char), texts.length = c.regions.length →
          restore texts (normalize markup).1 = c.filled texts) := by
  intro c
  have hfilled : c.filled c.regions = markup := (of_cut markup).filled_regions
  have hnormalize : normalize markup
      = (c.filled ((List.range c.regions.length).map placeholder), c.regions) := by
    rw [normalize, normalizeFrom_eq, List.range_eq_range']
  have hrestore : (∀ stretch ∈ c.stretches, Plain stretch) →
      ∀ texts : List (List Char), texts.length = c.regions.length →
        restore texts (normalize markup).1 = c.filled texts := by
    intro hplain texts hlength
    have hparts : c.regions.length = c.parts.length := List.length_map ..
    rw [hnormalize, restore, List.range_eq_range', hparts]
    exact restoreWithin_filled hplain (hlength.trans hparts)
      (fun k _ => by rw [Nat.zero_add]) (Nat.le_refl _)
  refine ⟨fun other => Cut.of_iff, hfilled, hnormalize, ?_, fun hplain => ⟨?_, hrestore hplain⟩⟩
  · intro digits text
    rw [hnormalize]
    exact regionOf?_eq_some_iff
  · have hback := hrestore hplain c.regions rfl
    rw [hfilled] at hback
    rw [hnormalize] at hback ⊢
    exact hback

/-- A stretch that ends like an opening begins, a region that holds the text of the next
placeholder, a region right behind it, digits and underscores behind that, and a brace that is
never closed. -/
theorem restore_normalize_lookalike :
    let markup := "a__MS_EXPR\x7b'__MS_EXPR_1__'\x7d\x7bb\x7d_1__\x7bc".toList
    (∀ stretch ∈ (cut markup).stretches, Plain stretch)
    ∧ normalize markup = ("a__MS_EXPR__MS_EXPR_0____MS_EXPR_1___1__\x7bc".toList,
        ["\x7b'__MS_EXPR_1__'\x7d".toList, "\x7bb\x7d".toList])
    ∧ restore (normalize markup).2 (normalize markup).1 = markup := by
  intro markup
  obtain ⟨hplain, hnormalize⟩ : (∀ stretch ∈ (cut markup).stretches, Plain stretch)
      ∧ normalize markup = ("a__MS_EXPR__MS_EXPR_0____MS_EXPR_1___1__\x7bc".toList,
        ["\x7b'__MS_EXPR_1__'\x7d".toList, "\x7bb\x7d".toList]) := by
    decide +kernel
  exact ⟨hplain, hnormalize, ((restore_normalize markup).2.2.2.2 hplain).1⟩

end Reactive.Source
