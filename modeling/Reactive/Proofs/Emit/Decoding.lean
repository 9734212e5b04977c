/-
  Reading generated text back.

  Names come into compiled code as string literals: alone, in guards and in notifications. A literal
  is read up to its closing quote whatever its string holds, so a list of names is read item by
  item, and what stands between the items is never looked for inside of them.
-/
import Reactive.Proofs.Emit.Statements
import Reactive.Proofs.Json.Reading
import Reactive.Proofs.Source.Placeholder

namespace Reactive.Emit

open Reactive.Source Reactive.Text Reactive.Script.Parser

/-! ## Lists of literals -/

/-- How a list of strings is written: the texts around the list, around each literal, and between
two items. Behind the opening and behind an item, the text tells whether the list ends. -/
structure Spelling where
  opening : List Char
  before : List Char
  after : List Char
  between : List Char
  ending : List Char
  item_ne : ∀ cs, before ++ '"' :: cs ≠ ending
  between_ne : ∀ cs, between ++ cs ≠ ending

namespace Spelling

variable (w : Spelling)

/-- An item as it is written. -/
def item (name : String) : List Char := w.before ++ (Json.quote name).toList ++ w.after

/-- A list as it is written. -/
def write : List String → List Char
  | [] => w.opening ++ w.ending
  | n :: ns => w.opening ++ (w.item n ++ led w.between (ns.map w.item)) ++ w.ending

/-- The item at the front of a text, and the rest. -/
def item? (cs : List Char) : Option (String × List Char) := do
  let literal ← after? (w.before ++ ['"']) cs
  let (name, rest) ← Json.readString? literal
  return (name, ← after? w.after rest)

/-- The items behind an item, up to the end of the list. -/
def further? : Nat → List Char → Option (List String)
  | 0, _ => none
  | fuel + 1, cs =>
    if cs = w.ending then some []
    else do
      let (name, rest) ← w.item? (← after? w.between cs)
      return name :: (← further? fuel rest)

/-- The list that a text spells. -/
def names? (text : String) : Option (List String) := do
  let cs ← after? w.opening text.toList
  if cs = w.ending then return []
  let (name, rest) ← w.item? cs
  return name :: (← w.further? (rest.length + 1) rest)

/-- An item is read up to its end, whatever stands behind it. -/
theorem item?_item (name : String) (rest : List Char) :
    w.item? (w.item name ++ rest) = some (name, rest) := by
  have htext : w.item name ++ rest
      = (w.before ++ ['"']) ++ (Json.escape name.toList ++ '"' :: (w.after ++ rest)) := by
    simp [item, Json.quote, Json.quoteChars]
  have hliteral : after? (w.before ++ ['"']) (w.item name ++ rest)
      = some (Json.escape name.toList ++ '"' :: (w.after ++ rest)) := after?_eq_some_iff.mpr htext
  have hafter : after? w.after (w.after ++ rest) = some rest := after?_eq_some_iff.mpr rfl
  simp [item?, hliteral, Json.readString?_escape, hafter]

theorem further?_led (names : List String) {fuel : Nat} (hfuel : names.length < fuel) :
    w.further? fuel (led w.between (names.map w.item) ++ w.ending) = some names := by
  induction names generalizing fuel with
  | nil =>
    obtain ⟨fuel, rfl⟩ := Nat.exists_eq_succ_of_ne_zero (Nat.ne_of_gt hfuel)
    simp [further?, led]
  | cons n ns ih =>
    obtain ⟨fuel, rfl⟩ := Nat.exists_eq_succ_of_ne_zero (Nat.ne_of_gt (Nat.zero_lt_of_lt hfuel))
    have htext : led w.between ((n :: ns).map w.item) ++ w.ending
        = w.between ++ (w.item n ++ (led w.between (ns.map w.item) ++ w.ending)) := by
      simp [led]
    have hbetween := after?_eq_some_iff.mpr
      (rfl : w.between ++ (w.item n ++ (led w.between (ns.map w.item) ++ w.ending)) = _)
    have hmore := ih (show ns.length < fuel by simpa using hfuel)
    rw [htext, further?, if_neg (w.between_ne _)]
    simp [hbetween, item?_item, hmore]

theorem length_le_length_led (names : List String) :
    names.length ≤ (led w.between (names.map w.item)).length := by
  induction names with
  | nil => exact Nat.zero_le _
  | cons n ns ih =>
    have hitem : 1 ≤ (w.item n).length := by
      simp [item, Json.quote, Json.quoteChars]
      omega
    simp only [led, List.map_cons, List.flatMap_cons, List.length_append, List.length_cons] at ih ⊢
    omega

/-- Every list is read back from the text that spells it. -/
theorem names?_write (names : List String) :
    w.names? (String.ofList (w.write names)) = some names := by
  rw [names?, String.toList_ofList]
  cases names with
  | nil =>
    have hopening := after?_eq_some_iff.mpr (rfl : w.opening ++ w.ending = _)
    simp [write, hopening]
  | cons n ns =>
    have hopening : after? w.opening (w.write (n :: ns))
        = some (w.item n ++ (led w.between (ns.map w.item) ++ w.ending)) :=
      after?_eq_some_iff.mpr (by simp [write])
    have hitem : w.item n ++ (led w.between (ns.map w.item) ++ w.ending) ≠ w.ending := by
      simpa [item, Json.quote, Json.quoteChars] using w.item_ne _
    have hfuel : ns.length < (led w.between (ns.map w.item) ++ w.ending).length + 1 := by
      have := w.length_le_length_led ns
      simp
      omega
    have hfurther := w.further?_led ns hfuel
    simp only [hopening, Option.bind_eq_bind, Option.bind_some, if_neg hitem, item?_item, hfurther]
    rfl

end Spelling

/-! ## Guards and notifications -/

/-- How the condition that one of some names has changed spells them. -/
def guardSpelling : Spelling where
  opening := []
  before := (changedName ++ ".includes(").toList
  after := [')']
  between := " || ".toList
  ending := []
  item_ne := by simp
  between_ne := by simp

/-- How a notification spells the names it is about. -/
def refreshSpelling : Spelling where
  opening := (lifecycleName ++ "." ++ refreshName ++ "([").toList
  before := []
  after := []
  between := ", ".toList
  ending := "])".toList
  item_ne := by simp
  between_ne := by simp

theorem changedGuard_eq (names : List String) :
    changedGuard names = String.ofList (guardSpelling.write names) := by
  have hitem : (String.toList ∘ fun n => changedName ++ ".includes(" ++ Json.quote n ++ ")")
      = guardSpelling.item := by
    funext n
    simp [guardSpelling, Spelling.item]
  rw [changedGuard, ← String.toList_inj, String.toList_ofList]
  cases names with
  | nil => rfl
  | cons n ns =>
    have hopening : guardSpelling.opening = [] := rfl
    have hbetween : guardSpelling.between = " || ".toList := rfl
    have hending : guardSpelling.ending = [] := rfl
    rw [List.map_cons, toList_intercalate_cons, List.map_map, Spelling.write, ← hitem, hopening,
      hbetween, hending, List.nil_append, List.append_nil, Function.comp_apply]

theorem refreshCall_eq (names : List String) :
    refreshCall names = String.ofList (refreshSpelling.write names) := by
  have hitem : String.toList ∘ Json.quote = refreshSpelling.item := by
    funext n
    simp [refreshSpelling, Spelling.item]
  rw [refreshCall, ← String.toList_inj, String.toList_ofList, String.toList_append,
    String.toList_append]
  cases names with
  | nil => rfl
  | cons n ns =>
    rw [List.map_cons, toList_intercalate_cons, List.map_map, Spelling.write, ← hitem]
    rfl

/-! ## Literals on lines -/

theorem parse?_quote (value : String) : Json.parse? (Json.quote value) = some (.string value) := by
  have h := (Json.NumberFree.string value).parse?_pretty "" rfl
  simpa [Json.pretty, Json.prettyChars, Json.quote, Json.depth] using h

/-- A literal stays whole on one of the lines that a text is put on. -/
theorem exists_mem_linesAt (depth : Nat) (before value after : String) :
    ∃ l ∈ Listing.linesAt depth (before ++ Json.quote value ++ after),
      (Json.quote value).toList <:+: l.toList := by
  have hquote : '"' ∈ (Json.quote value).toList := by simp [Json.quote, Json.quoteChars]
  obtain ⟨l, hl, hpart⟩ := exists_line (oneLine_quote value) (List.ne_nil_of_mem hquote)
    before.toList after.toList
  have hblank : allBlank l = false :=
    allBlank_eq_false (hpart.subset hquote) (by decide)
  refine ⟨String.join (List.replicate depth indentation) ++ String.ofList l, ?_, ?_⟩
  · refine List.mem_map_of_mem (List.mem_filter.mpr ⟨List.mem_map.mpr ⟨l, ?_, rfl⟩, ?_⟩)
    · simpa using hl
    · simp [blankString, hblank]
  · rw [String.toList_append, String.toList_ofList]
    exact hpart.trans (List.suffix_append _ l).isInfix

/-- What the compiler writes can be decoded. A literal is read as the string it was made of, holds
    no line end, and stays whole on one line wherever it is put; guards and notifications give the
    names they were made of, so no two lists share one. -/
theorem generated_text_decodes :
    (∀ value : String,
      Json.parse? (Json.quote value) = some (.string value)
        ∧ OneLine (Json.quote value).toList
        ∧ ∀ depth before after, ∃ l ∈ Listing.linesAt depth (before ++ Json.quote value ++ after),
            (Json.quote value).toList <:+: l.toList)
    ∧ (∀ names : List String,
      guardSpelling.names? (changedGuard names) = some names
        ∧ refreshSpelling.names? (refreshCall names) = some names)
    ∧ Function.Injective changedGuard ∧ Function.Injective refreshCall := by
  have hguard (names : List String) :
      guardSpelling.names? (changedGuard names) = some names := by
    rw [changedGuard_eq, Spelling.names?_write]
  have hrefresh (names : List String) :
      refreshSpelling.names? (refreshCall names) = some names := by
    rw [refreshCall_eq, Spelling.names?_write]
  refine ⟨fun value => ⟨parse?_quote value, oneLine_quote value,
    fun depth before after => exists_mem_linesAt depth before value after⟩,
    fun names => ⟨hguard names, hrefresh names⟩, ?_, ?_⟩
  · intro names names' h
    exact Option.some.inj ((hguard names).symm.trans (h ▸ hguard names'))
  · intro names names' h
    exact Option.some.inj ((hrefresh names).symm.trans (h ▸ hrefresh names'))

/-- Names that look like what stands between and behind them. -/
example : guardSpelling.names? (changedGuard ["\") || changed.includes(\"", "\\", "a\nb"])
    = some ["\") || changed.includes(\"", "\\", "a\nb"] := by decide +kernel

end Reactive.Emit
