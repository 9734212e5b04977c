/-
  Values that are written and read again.

  A value without numbers that is written on lines is read back as itself, whatever text follows
  it; as a whole text it is refused only for its depth. Strings come first: each character is
  escaped by itself and read by one step, so a literal is read up to its closing quote. Between the
  tokens stand only line starts, which are blank.
-/
import Reactive.Json.Reader
import Reactive.Json.Writer
import Reactive.Proofs.Json.Escaping

namespace Reactive.Json

/-! ## Strings -/

theorem hexValue?_hexDigit {n : Nat} (h : n < 16) : hexValue? (hexDigit n) = some n := by
  revert n
  decide

/-- The escape by number of a control character. -/
theorem unicodeChar?_control {c : Char} (h : c.toNat < 32) (tail : List Char) :
    unicodeChar? ('0' :: '0' :: hexDigit (c.toNat / 16) :: hexDigit (c.toNat % 16) :: tail)
      = some (c, tail) := by
  have hunit : hexUnit? ('0' :: '0' :: hexDigit (c.toNat / 16) :: hexDigit (c.toNat % 16) :: tail)
      = some (c.toNat, tail) := by
    have hzero : hexValue? '0' = some 0 := by decide
    have hsum : c.toNat / 16 * 16 + c.toNat % 16 = c.toNat := by omega
    simp [hexUnit?, hzero, hexValue?_hexDigit (n := c.toNat / 16) (by omega),
      hexValue?_hexDigit (n := c.toNat % 16) (by omega), hsum]
  have hhigh : ¬ 0xD800 ≤ c.toNat := by omega
  have hlow : ¬ 0xDC00 ≤ c.toNat := by omega
  simp [unicodeChar?, hunit, hhigh, hlow, Char.ofNat_toNat]

/-- The escape of a character is read as that character. -/
theorem stringTail?_escapeChar (fuel : Nat) (c : Char) (tail : List Char) :
    stringTail? (fuel + 1) (escapeChar c ++ tail)
      = (stringTail? fuel tail).bind fun r => some (c :: r.1, r.2) := by
  rcases escapeChar_cases c with ⟨e, he⟩ | ⟨hlow, hc⟩ | ⟨hquote, hslash, hhigh, hc⟩
  · have hshort : ∀ p ∈ shortEscapes, shortEscape? p.2 = some p.1 ∧ p.2 ≠ 'u' := by decide
    obtain ⟨hvalue, hnumber⟩ := hshort _ he
    rw [escapeChar_short he]
    simp [stringTail?, hvalue]
  · rw [hc]
    simp [stringTail?, unicodeChar?_control hlow]
  · have hlow : ¬ c.toNat < 32 := Nat.not_lt_of_le hhigh
    rw [hc]
    simp [stringTail?, hslash, hlow]

/-- A literal is read up to its closing quote. -/
theorem stringTail?_escape (cs rest : List Char) {fuel : Nat} (h : cs.length < fuel) :
    stringTail? fuel (escape cs ++ '"' :: rest) = some (cs, rest) := by
  induction cs generalizing fuel with
  | nil =>
    obtain ⟨fuel, rfl⟩ := Nat.exists_eq_succ_of_ne_zero (Nat.ne_of_gt h)
    rfl
  | cons c cs ih =>
    obtain ⟨fuel, rfl⟩ := Nat.exists_eq_succ_of_ne_zero (Nat.ne_of_gt (Nat.zero_lt_of_lt h))
    rw [escape, List.flatMap_cons, List.append_assoc, stringTail?_escapeChar, ← escape,
      ih (by simpa using h)]
    rfl

theorem length_le_length_escape (cs : List Char) : cs.length ≤ (escape cs).length := by
  have hone : ∀ c, 1 ≤ (escapeChar c).length := by
    intro c
    rcases escapeChar_cases c with ⟨e, he⟩ | ⟨-, hc⟩ | ⟨-, -, -, hc⟩
    · simp [escapeChar_short he]
    · simp [hc]
    · simp [hc]
  induction cs with
  | nil => exact Nat.le_refl _
  | cons c cs ih =>
    have hc := hone c
    rw [escape, List.flatMap_cons, List.length_append, ← escape, List.length_cons]
    omega

theorem readString?_escape (s : String) (rest : List Char) :
    readString? (escape s.toList ++ '"' :: rest) = some (s, rest) := by
  have hlength := length_le_length_escape s.toList
  rw [readString?, stringTail?_escape s.toList rest (by simp; omega)]
  simp [String.ofList_toList]

/-! ## Blanks -/

/-- A token starts here: no blank, and no end of a list. -/
def StartsValue (cs : List Char) : Prop :=
  ∃ c rest, cs = c :: rest ∧ c ∉ [' ', '\n', '\t', '\r', ']']

theorem StartsValue.skipBlanks {cs : List Char} (h : StartsValue cs) : skipBlanks cs = cs := by
  obtain ⟨c, rest, rfl, hc⟩ := h
  simp only [List.mem_cons, List.not_mem_nil, or_false, not_or] at hc
  simp [Json.skipBlanks, hc]

theorem skipBlanks_lineStart (depth : Nat) (cs : List Char) :
    skipBlanks (lineStart depth ++ cs) = skipBlanks cs := by
  have hblanks : ∀ n, skipBlanks (List.replicate n ' ' ++ cs) = skipBlanks cs := by
    intro n
    induction n with
    | zero => rfl
    | succ n ih => simpa [List.replicate_succ, skipBlanks] using ih
  simpa [lineStart, skipBlanks] using hblanks (2 * depth)

/-! ## Values -/

/-- A value in which no number stands. -/
inductive NumberFree : Json → Prop
  | null : NumberFree .null
  | bool (value : Bool) : NumberFree (.bool value)
  | string (value : String) : NumberFree (.string value)
  | array {items : List Json} (h : ∀ v ∈ items, NumberFree v) : NumberFree (.array items)
  | object {fields : List (String × Json)} (h : ∀ f ∈ fields, NumberFree f.2) :
      NumberFree (.object fields)

attribute [simp] NumberFree.null NumberFree.bool NumberFree.string

@[simp] theorem numberFree_array {items : List Json} :
    NumberFree (.array items) ↔ ∀ v ∈ items, NumberFree v :=
  ⟨fun | .array h => h, .array⟩

@[simp] theorem numberFree_object {fields : List (String × Json)} :
    NumberFree (.object fields) ↔ ∀ f ∈ fields, NumberFree f.2 :=
  ⟨fun | .object h => h, .object⟩

theorem NumberFree.startsValue {v : Json} (h : NumberFree v) (depth : Nat) (rest : List Char) :
    StartsValue (prettyChars depth v ++ rest) := by
  cases h with
  | null => exact ⟨'n', _, rfl, by decide⟩
  | bool value =>
    cases value with
    | false => exact ⟨'f', _, rfl, by decide⟩
    | true => exact ⟨'t', _, rfl, by decide⟩
  | string value => exact ⟨'"', _, rfl, by decide⟩
  | @array items _ => cases items <;> exact ⟨'[', _, rfl, by decide⟩
  | @object fields _ => cases fields <;> exact ⟨'\x7b', _, rfl, by decide⟩

/-- With this much fuel the written value is read, up to whatever follows it. -/
def ReadsBack (v : Json) : Prop :=
  ∀ (depth fuel : Nat) (rest : List Char), 2 * (prettyChars depth v).length ≤ fuel →
    value? fuel (prettyChars depth v ++ rest) = some (v, rest)

theorem readsBack_string (s : String) : ReadsBack (.string s) := by
  intro depth fuel rest hfuel
  rw [prettyChars, quoteChars, List.length_cons] at hfuel
  obtain ⟨fuel, rfl⟩ := Nat.exists_eq_succ_of_ne_zero (n := fuel) (by omega)
  have htext : prettyChars depth (.string s) ++ rest
      = '"' :: (escape s.toList ++ '"' :: rest) := by simp [prettyChars, quoteChars]
  rw [htext, value?, readString?_escape]
  rfl

theorem items?_lineStart (fuel depth : Nat) (cs : List Char) :
    items? fuel (lineStart depth ++ cs) = items? fuel cs := by
  cases fuel with
  | zero => rfl
  | succ fuel => rw [items?, items?, skipBlanks_lineStart]

theorem fields?_lineStart (fuel depth : Nat) (cs : List Char) :
    fields? fuel (lineStart depth ++ cs) = fields? fuel cs := by
  cases fuel with
  | zero => rfl
  | succ fuel => rw [fields?, fields?, skipBlanks_lineStart]

/-- Items are read up to the closing bracket. -/
theorem items?_pretty {v : Json} {vs : List Json} (hvs : ∀ w ∈ v :: vs, NumberFree w ∧ ReadsBack w)
    {depth fuel : Nat} (rest : List Char)
    (hfuel : 2 * ((prettyChars (depth + 1) v).length + (prettyItems depth vs).length) ≤ fuel) :
    items? fuel (prettyChars (depth + 1) v ++ (prettyItems depth vs ++ rest))
      = some (v :: vs, rest) := by
  induction vs generalizing v fuel with
  | nil =>
    have hlength : 2 ≤ (prettyItems depth []).length := by simp [prettyItems, lineStart]
    obtain ⟨fuel, rfl⟩ := Nat.exists_eq_succ_of_ne_zero (n := fuel) (by omega)
    have hclose : skipBlanks (prettyItems depth [] ++ rest) = ']' :: rest := by
      rw [prettyItems, List.append_assoc, skipBlanks_lineStart]
      rfl
    obtain ⟨hfree, hread⟩ := hvs v List.mem_cons_self
    rw [items?, (hfree.startsValue _ _).skipBlanks, hread _ _ _ (by omega)]
    simp [hclose]
  | cons w vs ih =>
    have hlength : 2 + (prettyChars (depth + 1) w).length + (prettyItems depth vs).length
        ≤ (prettyItems depth (w :: vs)).length := by
      simp [prettyItems, lineStart]
      omega
    obtain ⟨fuel, rfl⟩ := Nat.exists_eq_succ_of_ne_zero (n := fuel) (by omega)
    have hnext : skipBlanks (prettyItems depth (w :: vs) ++ rest) = ',' :: (lineStart (depth + 1)
        ++ (prettyChars (depth + 1) w ++ (prettyItems depth vs ++ rest))) := by
      simp [prettyItems, skipBlanks]
    obtain ⟨hfree, hread⟩ := hvs v List.mem_cons_self
    have hmore : items? fuel (prettyChars (depth + 1) w ++ (prettyItems depth vs ++ rest))
        = some (w :: vs, rest) := ih (fun u hu => hvs u (List.mem_cons_of_mem _ hu)) (by omega)
    rw [items?, (hfree.startsValue _ _).skipBlanks, hread _ _ _ (by omega)]
    simp [hnext, items?_lineStart, hmore]

/-- One field: its key, its value and what decides whether it is the last one. -/
theorem fields?_step {k : String} {v : Json} (hfree : NumberFree v) (hread : ReadsBack v)
    {depth fuel : Nat} (rest : List Char) (hfuel : 2 * (prettyChars depth v).length ≤ fuel) :
    fields? (fuel + 1) (quoteChars k.toList ++ ':' :: ' ' :: (prettyChars depth v ++ rest))
      = match skipBlanks rest with
        | '\x7d' :: rest => some ([(k, v)], rest)
        | ',' :: rest => (fields? fuel rest).map fun r => ((k, v) :: r.1, r.2)
        | _ => none := by
  have hkey : ∀ cs, skipBlanks (quoteChars k.toList ++ cs)
      = '"' :: (escape k.toList ++ '"' :: cs) := by
    intro cs
    simp [quoteChars, skipBlanks]
  have hcolon : ∀ cs, skipBlanks (':' :: cs) = ':' :: cs := fun cs => by simp [skipBlanks]
  have hvalue : skipBlanks (' ' :: (prettyChars depth v ++ rest)) = prettyChars depth v ++ rest :=
    (hfree.startsValue _ _).skipBlanks
  rw [fields?]
  simp only [hkey, readString?_escape, Option.bind_eq_bind, Option.bind_some, hcolon, hvalue,
    hread _ _ _ hfuel]
  generalize skipBlanks rest = tail
  cases tail with
  | nil => rfl
  | cons c tail =>
    by_cases hlast : c = '\x7d'
    · subst hlast
      rfl
    by_cases hnext : c = ','
    · subst hnext
      cases hfields : fields? fuel tail <;> simp [hfields]
    · simp [hlast, hnext]

/-- Fields are read up to the closing brace. -/
theorem fields?_pretty {k : String} {v : Json} {fs : List (String × Json)}
    (hfs : ∀ f ∈ (k, v) :: fs, NumberFree f.2 ∧ ReadsBack f.2) {depth fuel : Nat}
    (rest : List Char)
    (hfuel : 2 * ((prettyChars (depth + 1) v).length + (prettyFields depth fs).length) ≤ fuel) :
    fields? fuel (quoteChars k.toList ++ ':' :: ' ' :: (prettyChars (depth + 1) v
      ++ (prettyFields depth fs ++ rest))) = some ((k, v) :: fs, rest) := by
  induction fs generalizing k v fuel with
  | nil =>
    have hlength : 2 ≤ (prettyFields depth []).length := by simp [prettyFields, lineStart]
    obtain ⟨fuel, rfl⟩ := Nat.exists_eq_succ_of_ne_zero (n := fuel) (by omega)
    have hclose : skipBlanks (prettyFields depth [] ++ rest) = '\x7d' :: rest := by
      rw [prettyFields, List.append_assoc, skipBlanks_lineStart]
      rfl
    obtain ⟨hfree, hread⟩ : NumberFree v ∧ ReadsBack v := hfs (k, v) List.mem_cons_self
    rw [fields?_step hfree hread _ (by omega), hclose]
    rfl
  | cons f fs ih =>
    obtain ⟨k', w⟩ := f
    have hlength : 2 + (prettyChars (depth + 1) w).length + (prettyFields depth fs).length
        ≤ (prettyFields depth ((k', w) :: fs)).length := by
      simp [prettyFields, lineStart]
      omega
    obtain ⟨fuel, rfl⟩ := Nat.exists_eq_succ_of_ne_zero (n := fuel) (by omega)
    have hnext : skipBlanks (prettyFields depth ((k', w) :: fs) ++ rest)
        = ',' :: (lineStart (depth + 1) ++ (quoteChars k'.toList ++ ':' :: ' ' ::
          (prettyChars (depth + 1) w ++ (prettyFields depth fs ++ rest)))) := by
      simp [prettyFields, skipBlanks]
    obtain ⟨hfree, hread⟩ : NumberFree v ∧ ReadsBack v := hfs (k, v) List.mem_cons_self
    have hmore : fields? fuel (quoteChars k'.toList ++ ':' :: ' ' :: (prettyChars (depth + 1) w
        ++ (prettyFields depth fs ++ rest))) = some ((k', w) :: fs, rest) :=
      ih (fun u hu => hfs u (List.mem_cons_of_mem _ hu)) (by omega)
    rw [fields?_step hfree hread _ (by omega), hnext]
    simp only [fields?_lineStart, hmore, Option.map_some]

theorem readsBack_array {items : List Json} (h : ∀ v ∈ items, NumberFree v ∧ ReadsBack v) :
    ReadsBack (.array items) := by
  intro depth fuel rest hfuel
  cases items with
  | nil =>
    obtain ⟨fuel, rfl⟩ := Nat.exists_eq_succ_of_ne_zero (n := fuel)
      (by simp [prettyChars] at hfuel; omega)
    rfl
  | cons v vs =>
    have hlength : (prettyChars depth (.array (v :: vs))).length
        = 2 + 2 * (depth + 1) + (prettyChars (depth + 1) v).length
          + (prettyItems depth vs).length := by
      simp [prettyChars, lineStart]
      omega
    obtain ⟨fuel, rfl⟩ := Nat.exists_eq_succ_of_ne_zero (n := fuel) (by omega)
    have htext : prettyChars depth (.array (v :: vs)) ++ rest = '[' :: (lineStart (depth + 1)
        ++ (prettyChars (depth + 1) v ++ (prettyItems depth vs ++ rest))) := by
      simp [prettyChars]
    have hstart := (h v List.mem_cons_self).1.startsValue (depth + 1)
      (prettyItems depth vs ++ rest)
    have hitems : items? fuel (prettyChars (depth + 1) v ++ (prettyItems depth vs ++ rest))
        = some (v :: vs, rest) := items?_pretty h rest (by omega)
    obtain ⟨c, cs, hcs, hc⟩ := id hstart
    have hclose : c ≠ ']' := fun heq => hc (by simp [heq])
    rw [htext, value?, skipBlanks_lineStart, hstart.skipBlanks]
    split
    · rename_i heq
      rw [hcs] at heq
      exact absurd (List.cons.inj heq).1 hclose
    · rw [hitems]
      rfl

theorem readsBack_object {fields : List (String × Json)}
    (h : ∀ f ∈ fields, NumberFree f.2 ∧ ReadsBack f.2) : ReadsBack (.object fields) := by
  intro depth fuel rest hfuel
  cases fields with
  | nil =>
    obtain ⟨fuel, rfl⟩ := Nat.exists_eq_succ_of_ne_zero (n := fuel)
      (by simp [prettyChars] at hfuel; omega)
    rfl
  | cons f fs =>
    obtain ⟨k, v⟩ := f
    have hlength : 4 + (prettyChars (depth + 1) v).length + (prettyFields depth fs).length
        ≤ (prettyChars depth (.object ((k, v) :: fs))).length := by
      simp [prettyChars, lineStart]
      omega
    obtain ⟨fuel, rfl⟩ := Nat.exists_eq_succ_of_ne_zero (n := fuel) (by omega)
    have htext : prettyChars depth (.object ((k, v) :: fs)) ++ rest
        = '\x7b' :: (lineStart (depth + 1) ++ (quoteChars k.toList ++ ':' :: ' ' ::
          (prettyChars (depth + 1) v ++ (prettyFields depth fs ++ rest)))) := by
      simp [prettyChars]
    have hfields : fields? fuel (quoteChars k.toList ++ ':' :: ' ' :: (prettyChars (depth + 1) v
        ++ (prettyFields depth fs ++ rest))) = some ((k, v) :: fs, rest) :=
      fields?_pretty h rest (by omega)
    have hkey : ∀ cs, skipBlanks (quoteChars k.toList ++ cs) = quoteChars k.toList ++ cs :=
      fun cs => by simp [quoteChars, skipBlanks]
    rw [htext, value?, skipBlanks_lineStart, hkey]
    split
    · rename_i heq
      cases heq
    · rw [hfields]
      rfl

/-- A value without numbers is read back. -/
theorem NumberFree.readsBack {v : Json} (h : NumberFree v) : ReadsBack v := by
  induction h with
  | null =>
    intro depth fuel rest hfuel
    obtain ⟨fuel, rfl⟩ := Nat.exists_eq_succ_of_ne_zero (n := fuel)
      (by simp [prettyChars] at hfuel; omega)
    rfl
  | bool value =>
    intro depth fuel rest hfuel
    cases value <;>
    · obtain ⟨fuel, rfl⟩ := Nat.exists_eq_succ_of_ne_zero (n := fuel)
        (by simp [prettyChars] at hfuel; omega)
      rfl
  | string value => exact readsBack_string value
  | array h ih => exact readsBack_array fun v hv => ⟨h v hv, ih v hv⟩
  | object h ih => exact readsBack_object fun f hf => ⟨h f hf, ih f hf⟩

/-- The text of a value without numbers, with or without a line end behind it, stands for that
value, unless it has more levels than a text may have. -/
theorem NumberFree.parse?_pretty {v : Json} (h : NumberFree v) (closing : String)
    (hclosing : skipBlanks closing.toList = []) :
    parse? (v.pretty ++ closing) = if v.depth ≤ nestingLimit then some v else none := by
  have htext : (v.pretty ++ closing).toList = prettyChars 0 v ++ closing.toList := by
    simp [pretty, String.toList_append]
  have hread := h.readsBack 0 (2 * (prettyChars 0 v ++ closing.toList).length + 2) closing.toList
    (by simp; omega)
  have hspelled : spelled? (v.pretty ++ closing) = some v := by
    rw [spelled?, htext, (h.startsValue _ _).skipBlanks, hread]
    simp [hclosing]
  rw [parse?, hspelled]
  simp [Option.filter]

end Reactive.Json
