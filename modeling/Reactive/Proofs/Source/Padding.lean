/-
  Blanks inside the braces of a region.

  What the scanner keeps in mind is nested: templates were opened one inside the other, and inside
  the region. So nothing but the braces of the region is open where the region ends, a blank is
  passed wherever it stands, and blanks behind the opening brace or before the closing one have no
  say in whether a text is a region.
-/
import Reactive.Proofs.Source.Region
import Mathlib.Data.Bool.AllAny

namespace Reactive.Source

open Reactive.Text

namespace BraceState

/-- Inside a region: every template was opened inside the region and inside the templates opened
before it, and an open string is open with a quote. -/
structure Nested (s : BraceState) : Prop where
  depth : 1 ≤ s.depth
  within : (s.depth :: s.templates).Pairwise (· ≥ ·)
  opened : ∀ t ∈ s.templates, 1 ≤ t
  quote : ∀ q ∈ s.quote, q = '"' ∨ q = '\''

/-- Behind the opening brace of a region. -/
def opened : BraceState := ⟨1, none, []⟩

theorem nested_opened : opened.Nested :=
  ⟨Nat.le_refl _, List.pairwise_singleton _ _, nofun, nofun⟩

/-! ## The ways to go on -/

/-- A character is taken by an escape, or read by the rule of the place it stands in. -/
theorem move_cases (s : BraceState) (c : Char) (following : Option Char) :
    (s.escapes = true ∧ s.move c following = .passTwo s)
    ∨ (∃ q, s.quote = some q ∧ s.move c following = s.moveInString q c)
    ∨ (s.inTemplate = true ∧ s.move c following = s.moveInTemplate c following)
    ∨ (s.quote = none ∧ s.inTemplate = false ∧ s.move c following = s.moveInCode c) := by
  unfold BraceState.move
  split
  · rename_i hescape
    exact .inl ⟨(Bool.and_eq_true_iff.mp hescape).2, rfl⟩
  · cases hquote : s.quote with
    | some q => exact .inr (.inl ⟨q, rfl, rfl⟩)
    | none =>
      cases hin : s.inTemplate with
      | true => exact .inr (.inr (.inl ⟨rfl, rfl⟩))
      | false => exact .inr (.inr (.inr ⟨rfl, rfl, rfl⟩))

/-- No region ends in the text of a template, and only a hole takes two characters there. -/
theorem moveInTemplate_inv (s : BraceState) (c : Char) (following : Option Char) :
    s.moveInTemplate c following ≠ .close
    ∧ ∀ s', s.moveInTemplate c following = .passTwo s' → following = some '\x7b' := by
  unfold BraceState.moveInTemplate
  split
  · exact ⟨nofun, nofun⟩
  split
  · rename_i hhole
    exact ⟨nofun, fun _ _ => by simpa using (Bool.and_eq_true_iff.mp hhole).2⟩
  · exact ⟨nofun, nofun⟩

/-- Code ends at a closing brace, and is read one character at a time. -/
theorem moveInCode_inv (s : BraceState) (c : Char) :
    (s.moveInCode c = .close → c = '\x7d' ∧ s.depth ≤ 1)
    ∧ ∀ s', s.moveInCode c ≠ .passTwo s' := by
  unfold BraceState.moveInCode
  split
  · exact ⟨nofun, nofun⟩
  split
  · exact ⟨nofun, nofun⟩
  split
  · exact ⟨nofun, nofun⟩
  split
  · rename_i hclose
    split
    · rename_i hdepth
      exact ⟨fun _ => ⟨by simpa using hclose, hdepth⟩, nofun⟩
    · exact ⟨nofun, nofun⟩
  · exact ⟨nofun, nofun⟩

/-! ## One step -/

theorem Nested.moveInString {s s' : BraceState} (h : s.Nested) {quote c : Char}
    (hmove : s.moveInString quote c = .pass s') : s'.Nested := by
  obtain rfl := Move.pass.inj hmove
  split
  · exact ⟨h.depth, h.within, h.opened, nofun⟩
  · exact h

theorem Nested.moveInTemplate {s s' : BraceState} (h : s.Nested) {c : Char}
    {following : Option Char}
    (hmove : s.moveInTemplate c following = .pass s' ∨ s.moveInTemplate c following = .passTwo s') :
    s'.Nested := by
  unfold BraceState.moveInTemplate at hmove
  split at hmove
  · -- The template is closed, and the ones around it are still in order.
    obtain rfl : _ = s' := by simpa using hmove
    refine ⟨h.depth, ?_, fun t ht => h.opened t (List.mem_of_mem_tail ht), h.quote⟩
    exact h.within.sublist ((List.tail_sublist _).cons_cons _)
  · split at hmove
    · obtain rfl : _ = s' := by simpa using hmove
      refine ⟨Nat.le_succ_of_le h.depth, ?_, h.opened, h.quote⟩
      obtain ⟨hdepth, htemplates⟩ := List.pairwise_cons.mp h.within
      exact List.pairwise_cons.mpr ⟨fun t ht => Nat.le_succ_of_le (hdepth t ht), htemplates⟩
    · obtain rfl : _ = s' := by simpa using hmove
      exact h

theorem Nested.moveInCode {s s' : BraceState} (h : s.Nested) (houtside : s.inTemplate = false)
    {c : Char} (hmove : s.moveInCode c = .pass s') : s'.Nested := by
  obtain ⟨hdepth, htemplates⟩ := List.pairwise_cons.mp h.within
  unfold BraceState.moveInCode at hmove
  split at hmove
  · rename_i hquote
    obtain rfl := Move.pass.inj hmove
    refine ⟨h.depth, h.within, h.opened, ?_⟩
    rintro _ ⟨⟩
    simpa using hquote
  split at hmove
  · obtain rfl := Move.pass.inj hmove
    refine ⟨h.depth, List.pairwise_cons.mpr ⟨?_, h.within⟩, ?_, h.quote⟩
    · exact List.forall_mem_cons.mpr ⟨Nat.le_refl _, hdepth⟩
    · exact List.forall_mem_cons.mpr ⟨h.depth, h.opened⟩
  split at hmove
  · obtain rfl := Move.pass.inj hmove
    refine ⟨Nat.le_succ_of_le h.depth, List.pairwise_cons.mpr ⟨?_, htemplates⟩, h.opened, h.quote⟩
    exact fun t ht => Nat.le_succ_of_le (hdepth t ht)
  split at hmove
  · split at hmove
    · cases hmove
    · rename_i hdeep
      obtain rfl := Move.pass.inj hmove
      refine ⟨by dsimp only; omega, List.pairwise_cons.mpr ⟨?_, htemplates⟩, h.opened, h.quote⟩
      -- Outside the text of the latest template, that template was opened at a smaller depth.
      intro t ht
      obtain ⟨latest, earlier, hlist⟩ := List.exists_cons_of_ne_nil (List.ne_nil_of_mem ht)
      rw [hlist] at ht htemplates hdepth
      have hlatest : latest ≠ s.depth := by
        rintro rfl
        rw [inTemplate, hlist] at houtside
        simp at houtside
      have hle : t ≤ latest := by
        rcases List.mem_cons.mp ht with rfl | ht
        · exact Nat.le_refl _
        · exact (List.pairwise_cons.mp htemplates).1 t ht
      have hbound := hdepth latest List.mem_cons_self
      dsimp only
      omega
  · obtain rfl := Move.pass.inj hmove
    exact h

/-- Every step inside a region keeps what is open nested. -/
theorem Nested.move {s s' : BraceState} (h : s.Nested) {c : Char} {following : Option Char}
    (hmove : s.move c following = .pass s' ∨ s.move c following = .passTwo s') : s'.Nested := by
  rcases s.move_cases c following with ⟨-, heq⟩ | ⟨q, -, heq⟩ | ⟨-, heq⟩ | ⟨-, hin, heq⟩
  · obtain rfl : s = s' := by simpa [heq] using hmove
    exact h
  · rw [heq] at hmove
    rcases hmove with hmove | hmove
    · exact h.moveInString hmove
    · cases hmove
  · exact h.moveInTemplate (heq ▸ hmove)
  · rw [heq] at hmove
    rcases hmove with hmove | hmove
    · exact h.moveInCode hin hmove
    · exact absurd hmove ((s.moveInCode_inv c).2 s')

/-! ## Blanks and the end -/

/-- A blank is passed and changes nothing. -/
theorem Nested.move_blank {s : BraceState} (h : s.Nested) {c : Char} (hc : isBlank c = true)
    (following : Option Char) : s.move c following = .pass s := by
  have hsolid : ∀ d ∈ ['\\', '"', '\'', '`', '$', '\x7b', '\x7d'], isBlank d = false :=
    List.all_iff_forall_prop.mp (by decide)
  have hne : ∀ d ∈ ['\\', '"', '\'', '`', '$', '\x7b', '\x7d'], (c == d) = false := by
    intro d hd
    rw [beq_eq_false_iff_ne]
    rintro rfl
    rw [hsolid c hd] at hc
    cases hc
  simp only [List.forall_mem_cons] at hne
  obtain ⟨hback, hdouble, hsingle, htick, hdollar, hopen, hclose, -⟩ := hne
  unfold BraceState.move
  rw [hback, Bool.false_and, if_neg Bool.false_ne_true]
  cases hquote : s.quote with
  | some quote =>
    have hother : (c == quote) = false := by
      rcases h.quote quote hquote with rfl | rfl
      · exact hdouble
      · exact hsingle
    simp [BraceState.moveInString, hother]
  | none =>
    cases hin : s.inTemplate with
    | true => simp [BraceState.moveInTemplate, htick, hdollar]
    | false => simp [BraceState.moveInCode, hdouble, hsingle, htick, hopen, hclose]

/-- A region ends at a closing brace in code. -/
theorem eq_of_move_close {s : BraceState} {c : Char} {following : Option Char}
    (h : s.move c following = .close) :
    c = '\x7d' ∧ s.quote = none ∧ s.inTemplate = false ∧ s.depth ≤ 1 := by
  rcases s.move_cases c following with ⟨-, heq⟩ | ⟨q, -, heq⟩ | ⟨-, heq⟩ | ⟨hquote, hin, heq⟩
  · exact absurd (heq.symm.trans h) nofun
  · exact absurd (heq.symm.trans h) nofun
  · exact absurd (heq.symm.trans h) (s.moveInTemplate_inv c following).1
  · obtain ⟨hc, hdepth⟩ := (s.moveInCode_inv c).1 (heq.symm.trans h)
    exact ⟨hc, hquote, hin, hdepth⟩

/-- Where a region ends, nothing is open but its own braces. -/
theorem Nested.escapes_of_close {s : BraceState} (h : s.Nested) {c : Char}
    {following : Option Char} (hclose : s.move c following = .close) : s.escapes = false := by
  obtain ⟨-, hquote, hin, hdepth⟩ := eq_of_move_close hclose
  cases hlist : s.templates with
  | nil => simp [escapes, hquote, hlist]
  | cons latest earlier =>
    exfalso
    have hfirst := h.opened latest (by simp [hlist])
    have hle := (List.pairwise_cons.mp h.within).1 latest (by simp [hlist])
    have hlatest : latest = s.depth := by omega
    simp [inTemplate, hlist, hlatest] at hin

/-- Only an opening brace makes a difference to the character before it. -/
theorem move_following (s : BraceState) (c : Char) {a b : Option Char} (ha : a ≠ some '\x7b')
    (hb : b ≠ some '\x7b') : s.move c a = s.move c b := by
  have hsame : s.moveInTemplate c a = s.moveInTemplate c b := by
    simp [BraceState.moveInTemplate, ha, hb]
  unfold BraceState.move
  rw [hsame]

/-- Before anything but an opening brace, two characters are passed only by an escape. -/
theorem eq_of_move_passTwo {s s' : BraceState} {c : Char} {following : Option Char}
    (hfollowing : following ≠ some '\x7b') (h : s.move c following = .passTwo s') :
    s' = s ∧ s.escapes = true := by
  rcases s.move_cases c following with ⟨hescapes, heq⟩ | ⟨q, -, heq⟩ | ⟨-, heq⟩ | ⟨-, -, heq⟩
  · exact ⟨(Move.passTwo.inj (heq.symm.trans h)).symm, hescapes⟩
  · exact absurd (heq.symm.trans h) nofun
  · exact absurd ((s.moveInTemplate_inv c following).2 s' (heq.symm.trans h)) hfollowing
  · exact absurd (heq.symm.trans h) ((s.moveInCode_inv c).2 s')

end BraceState

/-! ## Blanks at the ends of a region -/

/-- From a place inside a region, the region ends with the brace behind a text. -/
def Closes (s : BraceState) (x : List Char) : Prop :=
  regionFrom s (x ++ ['\x7d']) = some (x ++ ['\x7d'], [])

section

variable {s s' : BraceState}

theorem closes_nil : Closes s [] ↔ s.move '\x7d' none = .close := by
  unfold Closes
  rw [List.nil_append, regionFrom, List.head?_nil]
  cases s.move '\x7d' none <;> simp [regionFrom]

/-- A character that is passed has no say. -/
theorem closes_pass {c : Char} {x : List Char}
    (h : s.move c (x ++ ['\x7d']).head? = .pass s') : Closes s (c :: x) ↔ Closes s' x := by
  unfold Closes
  rw [List.cons_append, regionFrom, h]
  simp

theorem closes_passTwo {c d : Char} {x : List Char}
    (h : s.move c (some d) = .passTwo s') : Closes s (c :: d :: x) ↔ Closes s' x := by
  unfold Closes
  rw [List.cons_append, List.cons_append, regionFrom, List.head?_cons, h]
  simp

/-- A region that ends earlier does not end with the brace behind the text. -/
theorem not_closes_close {c : Char} {x : List Char}
    (h : s.move c (x ++ ['\x7d']).head? = .close) : ¬Closes s (c :: x) := by
  unfold Closes
  rw [List.cons_append, regionFrom, h]
  simp

/-- Blanks in front make no difference. -/
theorem closes_blank_append (hs : s.Nested) {a : List Char} (ha : allBlank a = true)
    (x : List Char) : Closes s (a ++ x) ↔ Closes s x := by
  induction a with
  | nil => rfl
  | cons c a ih =>
    obtain ⟨hc, ha⟩ := Bool.and_eq_true_iff.mp ha
    rw [List.cons_append, closes_pass (hs.move_blank hc _), ih ha]

end

/-- Neither do blanks behind a text. -/
theorem closes_append_blank {s : BraceState} (hs : s.Nested) (x : List Char) {a : List Char}
    (ha : allBlank a = true) : Closes s (x ++ a) ↔ Closes s x := by
  have hhead : (a ++ ['\x7d']).head? ≠ some '\x7b' := by
    cases a with
    | nil => simp
    | cons c a =>
      have hc := (Bool.and_eq_true_iff.mp ha).1
      rintro ⟨⟩
      exact absurd hc (by decide)
  match x with
  | [] => simpa using closes_blank_append hs ha []
  | [c] =>
    have hmove : s.move c (a ++ ['\x7d']).head? = s.move c ['\x7d'].head? :=
      s.move_following c hhead (by simp)
    rw [List.singleton_append]
    cases hstep : s.move c ['\x7d'].head? with
    | close =>
      exact iff_of_false (not_closes_close (hmove.trans hstep)) (not_closes_close hstep)
    | pass s' =>
      rw [closes_pass (hmove.trans hstep), closes_pass (x := []) hstep]
      simpa using closes_blank_append (hs.move (.inl hstep)) ha []
    | passTwo s' =>
      -- An escape would take the closing brace, and none stands where a region ends.
      obtain ⟨rfl, hescapes⟩ := BraceState.eq_of_move_passTwo (by simp) hstep
      have hopen : ¬Closes s' [c] := by
        unfold Closes
        rw [List.singleton_append, regionFrom, hstep]
        simp [regionFrom]
      refine iff_of_false ?_ hopen
      cases a with
      | nil => exact hopen
      | cons d a =>
        rw [closes_passTwo (hmove.trans hstep),
          ← List.append_nil a, closes_blank_append hs (Bool.and_eq_true_iff.mp ha).2, closes_nil]
        intro hclose
        exact absurd (hs.escapes_of_close hclose) (by simp [hescapes])
  | c :: d :: x =>
    rw [List.cons_append, List.cons_append]
    cases hstep : s.move c (some d) with
    | close =>
      exact iff_of_false (not_closes_close (x := d :: (x ++ a)) hstep)
        (not_closes_close (x := d :: x) hstep)
    | pass s' =>
      rw [closes_pass (x := d :: (x ++ a)) hstep, closes_pass (x := d :: x) hstep]
      exact closes_append_blank (hs.move (.inl hstep)) (d :: x) ha
    | passTwo s' =>
      rw [closes_passTwo hstep, closes_passTwo hstep]
      exact closes_append_blank (hs.move (.inr hstep)) x ha
termination_by x.length

/-- The text is one region. -/
def IsRegion (r : List Char) : Prop := RegionAt r r []

/-- Code in braces, with text before and behind it inside the braces. -/
def braced (before code after : List Char) : List Char :=
  '\x7b' :: (before ++ code ++ after) ++ ['\x7d']

theorem isRegion_braced (before code after : List Char) :
    IsRegion (braced before code after) ↔ Closes .opened (before ++ code ++ after) := by
  unfold IsRegion RegionAt braced region?
  rw [List.cons_append, regionFrom]
  have hopen : BraceState.start.move '\x7b' ((before ++ code ++ after) ++ ['\x7d']).head?
      = .pass .opened := rfl
  rw [hopen]
  simp [Closes]

/-- Blanks inside the braces have no say in whether a text is a region. -/
theorem isRegion_padded {before after : List Char} (hbefore : allBlank before = true)
    (hafter : allBlank after = true) (code : List Char) :
    IsRegion (braced before code after) ↔ IsRegion (braced [] code []) := by
  have hnested := BraceState.nested_opened
  rw [isRegion_braced, isRegion_braced, List.append_assoc, closes_blank_append hnested hbefore,
    closes_append_blank hnested _ hafter]
  simp

/-- A region is its inside in braces. -/
theorem RegionAt.eq_braced {cs r rest : List Char} (h : RegionAt cs r rest) :
    r = braced [] (inside r) [] := by
  have hlast : ∀ {s : BraceState} {cs r rest : List Char}, regionFrom s cs = some (r, rest) →
      ∃ x, r = x ++ ['\x7d'] := by
    intro s cs r rest h
    fun_induction regionFrom s cs generalizing r with
    | case1 => cases h
    | case2 s c cs hmove =>
      obtain ⟨rfl, rfl⟩ := Prod.mk.inj (Option.some.inj h)
      obtain ⟨rfl, -⟩ := BraceState.eq_of_move_close hmove
      exact ⟨[], rfl⟩
    | case3 s c cs s' hmove ih =>
      obtain ⟨⟨q, u⟩, hq, heq⟩ := Option.map_eq_some_iff.mp h
      obtain ⟨rfl, rfl⟩ := Prod.mk.inj heq
      obtain ⟨x, rfl⟩ := ih hq
      exact ⟨c :: x, rfl⟩
    | case4 => cases h
    | case5 s c s' d ds hmove ih =>
      obtain ⟨⟨q, u⟩, hq, heq⟩ := Option.map_eq_some_iff.mp h
      obtain ⟨rfl, rfl⟩ := Prod.mk.inj heq
      obtain ⟨x, rfl⟩ := ih hq
      exact ⟨c :: d :: x, rfl⟩
  obtain ⟨x, hx⟩ := hlast h.2
  obtain ⟨tail, htail⟩ := h.exists_cons
  cases x with
  | nil => simp [hx] at htail
  | cons c x =>
    obtain rfl : c = '\x7b' := by simpa [hx] using (List.cons.inj (hx.symm.trans htail)).1
    simp [hx, braced, inside]

@[simp] theorem inside_braced (before code after : List Char) :
    inside (braced before code after) = before ++ code ++ after := by
  simp [inside, braced]

end Reactive.Source
