/-
  A text cut at its regions.

  Reading from left to right, a text is stretches of other text with regions between them. What
  a cut is can be said without a reader: no region starts in a stretch, and behind each stretch
  but the last one stands a region. Every text has exactly one cut, and putting placeholders for
  regions only replaces the regions of the cut, in order.
-/
import Reactive.Proofs.Source.Region
import Reactive.Source.Placeholder

namespace Reactive.Source

/-! ## Cuts -/

/-- Stretches of text, each with the region behind it, and the stretch behind the last region. -/
structure Cut where
  parts : List (List Char × List Char)
  last : List Char
deriving DecidableEq, Repr

/-- No region starts in a stretch, given the text behind the stretch. -/
def Unopened (stretch behind : List Char) : Prop :=
  ∀ before c after, stretch = before ++ c :: after →
    ¬ ∃ r rest, RegionAt (c :: (after ++ behind)) r rest

namespace Cut

/-- The text outside all regions. -/
def stretches (c : Cut) : List (List Char) := c.parts.map (·.1) ++ [c.last]

/-- The regions from left to right. -/
def regions (c : Cut) : List (List Char) := c.parts.map (·.2)

/-- The text with other texts in place of the regions. -/
def filled (c : Cut) (texts : List (List Char)) : List Char :=
  (c.parts.zip texts).flatMap (fun x => x.1.1 ++ x.2) ++ c.last

/-- The stretches and regions are those of a text. -/
inductive Of : Cut → List Char → Prop
  | last {text : List Char} (h : Unopened text []) : Of ⟨[], text⟩ text
  | region {stretch r rest : List Char} {parts : List (List Char × List Char)} {last : List Char}
      (hstretch : Unopened stretch (r ++ rest)) (hregion : RegionAt (r ++ rest) r rest)
      (hrest : Of ⟨parts, last⟩ rest) :
      Of ⟨(stretch, r) :: parts, last⟩ (stretch ++ (r ++ rest))

/-- Text put in front of the first stretch. -/
def push (text : List Char) : Cut → Cut
  | ⟨[], last⟩ => ⟨[], text ++ last⟩
  | ⟨(stretch, r) :: parts, last⟩ => ⟨(text ++ stretch, r) :: parts, last⟩

/-- A region put in front. -/
def cons (r : List Char) (c : Cut) : Cut := ⟨([], r) :: c.parts, c.last⟩

@[simp] theorem regions_push (text : List Char) (c : Cut) : (c.push text).regions = c.regions := by
  obtain ⟨_ | ⟨p, parts⟩, last⟩ := c <;> rfl

@[simp] theorem regions_cons (r : List Char) (c : Cut) : (c.cons r).regions = r :: c.regions := rfl

@[simp] theorem filled_nil (last : List Char) (texts : List (List Char)) :
    filled ⟨[], last⟩ texts = last := rfl

@[simp] theorem filled_cons (r text : List Char) (c : Cut) (texts : List (List Char)) :
    (c.cons r).filled (text :: texts) = text ++ c.filled texts := by
  simp [cons, filled]

/-- Text in front of the first stretch stays in front, as long as no region lacks a text. -/
theorem filled_push (text : List Char) (c : Cut) {texts : List (List Char)}
    (h : texts.length = c.regions.length) :
    (c.push text).filled texts = text ++ c.filled texts := by
  obtain ⟨_ | ⟨⟨stretch, r⟩, parts⟩, last⟩ := c
  · rfl
  · cases texts with
    | nil => exact absurd h (by simp [regions])
    | cons t texts => simp [push, filled]

/-- A character in front at which no region starts belongs to the first stretch. -/
theorem Of.push {c : Cut} {x : Char} {text : List Char} (h : c.Of text)
    (hx : ¬ ∃ r rest, RegionAt (x :: text) r rest) : (c.push [x]).Of (x :: text) := by
  -- Only the first stretch grows, and the text from it on is the same in both cases.
  have hunopened : ∀ {stretch behind : List Char}, Unopened stretch behind →
      stretch ++ behind = text → Unopened (x :: stretch) behind := by
    rintro stretch behind hstretch rfl before d after heq
    cases before with
    | nil =>
      obtain ⟨rfl, rfl⟩ := List.cons.inj heq
      exact hx
    | cons b before => exact hstretch before d after (List.cons.inj heq).2
  cases h with
  | last hlast => exact .last (hunopened hlast (List.append_nil _))
  | region hstretch hregion hrest => exact .region (hunopened hstretch rfl) hregion hrest

end Cut

/-! ## Cutting -/

/-- The cut of a text. -/
def cut : List Char → Cut
  | [] => ⟨[], []⟩
  | c :: cs =>
    if c = '\x7b' then
      match h : region? (c :: cs) with
      | some (r, rest) =>
        have : rest.length < (c :: cs).length := length_of_regionFrom h
        (cut rest).cons r
      | none => (cut cs).push [c]
    else (cut cs).push [c]
termination_by cs => cs.length
decreasing_by all_goals (simp only [List.length_cons] at *; omega)

/-- Where a region starts, the region is cut off. -/
theorem cut_of_regionAt {text r rest : List Char} (h : RegionAt text r rest) :
    cut text = (cut rest).cons r := by
  obtain ⟨hhead, hregion⟩ := h
  obtain ⟨cs, rfl⟩ := List.head?_eq_some_iff.mp hhead
  rw [cut, if_pos rfl]
  split
  · rename_i r' rest' h'
    obtain ⟨rfl, rfl⟩ := Prod.mk.inj (Option.some.inj (h'.symm.trans hregion))
    rfl
  · rename_i h'
    exact absurd (h'.symm.trans hregion) (by simp)

/-- Where none starts, one character is. -/
theorem cut_of_unopened {c : Char} {cs : List Char} (h : ¬ ∃ r rest, RegionAt (c :: cs) r rest) :
    cut (c :: cs) = (cut cs).push [c] := by
  rw [cut]
  split
  · rename_i hc
    split
    · rename_i r rest hregion
      exact absurd ⟨r, rest, by rw [hc]; rfl, hregion⟩ h
    · rfl
  · rfl

/-- A text is that of its cut. -/
theorem of_cut (text : List Char) : (cut text).Of text := by
  fun_induction cut text with
  | case1 => exact .last (by rintro (_ | ⟨b, before⟩) c after h <;> cases h)
  | case2 cs r rest hregion hlength ih =>
    have hat : RegionAt ('\x7b' :: cs) r rest := ⟨rfl, hregion⟩
    have hnone : Unopened [] (r ++ rest) := by
      rintro (_ | ⟨b, before⟩) c after h <;> cases h
    have hof := Cut.Of.region hnone (hat.append rest) ih
    rw [List.nil_append, ← hat.append_eq] at hof
    exact hof
  | case3 cs hregion ih =>
    exact ih.push (by rintro ⟨r, rest, -, h⟩; exact absurd (hregion.symm.trans h) (by simp))
  | case4 c cs hc ih =>
    exact ih.push (by rintro ⟨r, rest, h, -⟩; exact hc (Option.some.inj h))

/-- A stretch in which no region starts is left whole. -/
theorem cut_append {stretch behind : List Char} (h : Unopened stretch behind) :
    cut (stretch ++ behind) = (cut behind).push stretch := by
  induction stretch with
  | nil =>
    rw [List.nil_append]
    obtain ⟨_ | ⟨p, parts⟩, last⟩ := cut behind <;> rfl
  | cons c stretch ih =>
    have htail : Unopened stretch behind := fun before d after heq =>
      h (c :: before) d after (by rw [heq]; rfl)
    rw [List.cons_append, cut_of_unopened (h [] c stretch rfl), ih htail]
    obtain ⟨_ | ⟨p, parts⟩, last⟩ := cut behind <;> rfl

/-- A text has exactly one cut. -/
theorem Cut.of_iff {c : Cut} {text : List Char} : c.Of text ↔ c = cut text := by
  constructor
  · intro h
    induction h with
    | last h =>
      have := cut_append h
      rw [List.append_nil, cut] at this
      rw [this, Cut.push, List.append_nil]
    -- Cutting passes the stretch, meets the region, and the rest has only one cut.
    | region hstretch hregion hrest ih =>
      rw [cut_append hstretch, cut_of_regionAt hregion, ← ih, Cut.cons, Cut.push, List.append_nil]
  · rintro rfl
    exact of_cut text

/-- The text of a cut is its stretches with its regions between. -/
theorem Cut.Of.filled_regions {c : Cut} {text : List Char} (h : c.Of text) :
    c.filled c.regions = text := by
  induction h with
  | last h => rfl
  | region hstretch hregion hrest ih =>
    rw [← ih]
    simp [filled, regions]

/-! ## Placeholders for regions -/

/-- The regions of a cut are replaced by placeholders, counted on. -/
theorem normalizeFrom_eq (n : Nat) (text : List Char) :
    normalizeFrom n text = ((cut text).filled
      ((List.range' n (cut text).regions.length).map placeholder), (cut text).regions) := by
  fun_induction normalizeFrom n text with
  | case1 => rw [cut]; rfl
  -- A region takes the next number; a character that opens none takes none.
  | case2 n cs r rest text regions heq hregion hlength ih =>
    rw [ih, Prod.mk.injEq] at heq
    rw [cut_of_regionAt ⟨rfl, hregion⟩, Cut.regions_cons, List.length_cons, List.range'_succ,
      List.map_cons, Cut.filled_cons, ← heq.1, ← heq.2]
  | case3 n cs text regions heq hregion ih =>
    rw [ih, Prod.mk.injEq] at heq
    rw [cut_of_unopened (by rintro ⟨r, rest, -, h⟩; exact absurd (hregion.symm.trans h) (by simp)),
      Cut.filled_push _ _ (by simp), Cut.regions_push, ← heq.1, ← heq.2]
    rfl
  | case4 n c cs hc text regions heq ih =>
    rw [ih, Prod.mk.injEq] at heq
    rw [cut_of_unopened (by rintro ⟨r, rest, h, -⟩; exact hc (Option.some.inj h)),
      Cut.filled_push _ _ (by simp), Cut.regions_push, ← heq.1, ← heq.2]
    rfl

/-- The regions of a cut are regions wherever they stand. -/
theorem Cut.Of.regionAt {c : Cut} {text : List Char} (h : c.Of text) {r : List Char}
    (hr : r ∈ c.regions) (other : List Char) : RegionAt (r ++ other) r other := by
  induction h with
  | last h => exact absurd hr List.not_mem_nil
  | region hstretch hregion hrest ih =>
    rcases List.mem_cons.mp hr with rfl | hr
    · exact hregion.append other
    · exact ih hr

end Reactive.Source
