/-
  Lines of a text.

  A text is its first line and the lines behind it, or one line that nothing ends. Texts that are
  put behind each other with a line feed between them have the lines of both; a text of one line
  has neither a line feed nor a carriage return in it.
-/
import Reactive.Text.Lines

namespace Reactive.Text

/-- Induction over the lines of a text. -/
theorem linesInd {motive : List Char → Prop} (last : ∀ l, '\n' ∉ l → motive l)
    (line : ∀ l rest, '\n' ∉ l → motive rest → motive (l ++ '\n' :: rest)) (cs : List Char) :
    motive cs := by
  by_cases h : '\n' ∈ cs
  · obtain ⟨l, rest, rfl, hl⟩ := List.eq_append_cons_of_mem h
    exact line l rest hl (linesInd last line rest)
  · exact last cs h
termination_by cs.length

theorem splitLines_of_not_mem {cs : List Char} (h : '\n' ∉ cs) : splitLines cs = [cs] := by
  induction cs with
  | nil => rfl
  | cons c cs ih =>
    rw [List.mem_cons, not_or] at h
    rw [splitLines, if_neg (Ne.symm h.1), ih h.2]

theorem splitLines_append {l : List Char} (h : '\n' ∉ l) (rest : List Char) :
    splitLines (l ++ '\n' :: rest) = l :: splitLines rest := by
  induction l with
  | nil => rfl
  | cons c l ih =>
    rw [List.mem_cons, not_or] at h
    rw [List.cons_append, splitLines, if_neg (Ne.symm h.1), ih h.2]

theorem splitLines_ne_nil (cs : List Char) : splitLines cs ≠ [] := by
  induction cs using linesInd with
  | last l hl => simp [splitLines_of_not_mem hl]
  | line l rest hl ih => simp [splitLines_append hl]

theorem lines_of_not_mem {cs : List Char} (h : '\n' ∉ cs) (hne : cs ≠ []) : lines cs = [cs] := by
  simp [lines, splitLines_of_not_mem h, hne]

/-- The first line of a text, then the others. -/
theorem lines_append {l : List Char} (h : '\n' ∉ l) (rest : List Char) :
    lines (l ++ '\n' :: rest) = dropFinalReturn l :: lines rest := by
  obtain ⟨x, xs, hrest⟩ := List.exists_cons_of_ne_nil (splitLines_ne_nil rest)
  have hlast : (x :: xs).getLast? = some ((x :: xs).getLast (by simp)) :=
    List.getLast?_eq_some_getLast _
  simp [lines, splitLines_append h, hrest, hlast]

theorem dropFinalReturn_append {l : List Char} (h : '\r' ∉ l) (more : List Char) :
    dropFinalReturn (l ++ more) = l ++ dropFinalReturn more := by
  rcases List.eq_nil_or_concat more with rfl | ⟨more, c, rfl⟩
  · unfold dropFinalReturn
    split
    · rename_i hlast
      exact absurd (List.mem_of_getLast? (by simpa using hlast)) h
    · simp
  · rw [List.concat_eq_append, ← List.append_assoc]
    by_cases hc : c = '\r' <;> simp [dropFinalReturn, hc]

theorem dropFinalReturn_of_getLast? {l : List Char} (h : l.getLast? ≠ some '\r') :
    dropFinalReturn l = l := by
  unfold dropFinalReturn
  split
  · rename_i hlast
    exact absurd hlast h
  · rfl

theorem exists_dropFinalReturn (l : List Char) :
    ∃ returns, (∀ c ∈ returns, c = '\r') ∧ l = dropFinalReturn l ++ returns := by
  unfold dropFinalReturn
  split
  · rename_i hlast
    obtain ⟨x, rfl⟩ := List.getLast?_eq_some_iff.mp hlast
    exact ⟨['\r'], by simp, by simp⟩
  · exact ⟨[], nofun, (List.append_nil l).symm⟩

theorem mem_of_mem_dropFinalReturn {l : List Char} {c : Char} (h : c ∈ dropFinalReturn l) :
    c ∈ l := by
  unfold dropFinalReturn at h
  split at h
  · exact List.dropLast_subset _ h
  · exact h

theorem not_mem_of_mem_lines {cs l : List Char} (h : l ∈ lines cs) : '\n' ∉ l := by
  induction cs using linesInd with
  | last x hx =>
    by_cases hne : x = []
    · simp [hne, lines, splitLines] at h
    · rw [lines_of_not_mem hx hne, List.mem_singleton] at h
      exact h ▸ hx
  | line x rest hx ih =>
    rw [lines_append hx, List.mem_cons] at h
    rcases h with rfl | h
    · exact fun hmem => hx (mem_of_mem_dropFinalReturn hmem)
    · exact ih h

/-- Behind a text that ends in no carriage return, the lines of another one follow its own; only a
blank line can come in between. -/
theorem flatMap_lines_append {α : Type} {g : List Char → List α} (hg : g [] = []) {text : List Char}
    (h : text.getLast? ≠ some '\r') (rest : List Char) :
    (lines (text ++ '\n' :: rest)).flatMap g
      = (lines text).flatMap g ++ (lines rest).flatMap g := by
  induction text using linesInd with
  | last l hl =>
    rw [lines_append hl, dropFinalReturn_of_getLast? h]
    -- An empty text has no line, but with a line feed behind it, it has a blank one.
    by_cases hne : l = []
    · simp [hne, hg, lines, splitLines]
    · simp [lines_of_not_mem hl hne]
  | line l more hl ih =>
    have hlast : more.getLast? ≠ some '\r' := by
      intro heq
      simp [List.getLast?_append, List.getLast?_cons, heq] at h
    rw [List.append_assoc, List.cons_append, lines_append hl, lines_append hl, List.flatMap_cons,
      List.flatMap_cons, ih hlast, List.append_assoc]

theorem getLast?_trim (cs : List Char) : (trim cs).getLast? ≠ some '\r' := by
  intro h
  rw [trim, trimRight, List.getLast?_reverse] at h
  have hblank := List.head?_dropWhile_not isBlank (trimLeft cs).reverse
  rw [h] at hblank
  exact absurd hblank (by decide)

/-- The text stays on one line: it has no character that ends one. -/
def OneLine (cs : List Char) : Prop := ∀ c ∈ cs, c ≠ '\n' ∧ c ≠ '\r'

instance (cs : List Char) : Decidable (OneLine cs) :=
  decidable_of_iff (cs.all fun c => c != '\n' && c != '\r') (by simp [OneLine])

theorem OneLine.not_mem {cs : List Char} (h : OneLine cs) : '\n' ∉ cs ∧ '\r' ∉ cs :=
  ⟨fun hmem => (h _ hmem).1 rfl, fun hmem => (h _ hmem).2 rfl⟩

@[simp] theorem oneLine_append {a b : List Char} : OneLine (a ++ b) ↔ OneLine a ∧ OneLine b := by
  simp only [OneLine, List.forall_mem_append]

@[simp] theorem oneLine_cons {c : Char} {cs : List Char} :
    OneLine (c :: cs) ↔ (c ≠ '\n' ∧ c ≠ '\r') ∧ OneLine cs := by
  simp only [OneLine, List.forall_mem_cons]

@[simp] theorem oneLine_nil : OneLine [] := nofun

/-- The end of a line takes nothing from a part that stays on one line. -/
theorem infix_dropFinalReturn {part : List Char} (hpart : OneLine part) (hne : part ≠ [])
    (before after : List Char) : part <:+: dropFinalReturn (before ++ (part ++ after)) := by
  rcases List.eq_nil_or_concat after with rfl | ⟨after, c, rfl⟩
  · have hlast : (before ++ (part ++ [])).getLast? ≠ some '\r' := by
      rw [List.append_nil, List.getLast?_append, List.getLast?_eq_some_getLast hne, Option.some_or]
      exact fun h => hpart.not_mem.2 (Option.some.inj h ▸ List.getLast_mem hne)
    rw [dropFinalReturn_of_getLast? hlast]
    exact ⟨before, [], by simp⟩
  · have htext : before ++ (part ++ after.concat c) = (before ++ (part ++ after)) ++ [c] := by simp
    rw [htext]
    by_cases hc : c = '\r'
    · exact ⟨before, after, by simp [dropFinalReturn, hc]⟩
    · exact ⟨before, after ++ [c], by simp [dropFinalReturn, hc]⟩

/-- A part of a text that stays on one line is part of one of its lines. -/
theorem exists_line {part : List Char} (hpart : OneLine part) (hne : part ≠ [])
    (before after : List Char) : ∃ l ∈ lines (before ++ (part ++ after)), part <:+: l := by
  induction before using linesInd with
  | last before hbefore =>
    by_cases hafter : '\n' ∈ after
    · obtain ⟨x, rest, rfl, hx⟩ := List.eq_append_cons_of_mem hafter
      have htext : before ++ (part ++ (x ++ '\n' :: rest))
          = (before ++ (part ++ x)) ++ '\n' :: rest := by simp
      have hline : '\n' ∉ before ++ (part ++ x) := by simp [hbefore, hpart.not_mem.1, hx]
      rw [htext, lines_append hline]
      exact ⟨_, List.mem_cons_self, infix_dropFinalReturn hpart hne before x⟩
    · have hline : '\n' ∉ before ++ (part ++ after) := by
        simp [hbefore, hpart.not_mem.1, hafter]
      rw [lines_of_not_mem hline (by simp [hne])]
      exact ⟨_, List.mem_cons_self, before, after, by simp⟩
  | line l rest hl ih =>
    obtain ⟨x, hx, hinfix⟩ := ih
    refine ⟨x, ?_, hinfix⟩
    rw [List.append_assoc, List.cons_append, lines_append hl]
    exact List.mem_cons_of_mem _ hx

/-- A line ends here, or the text does. -/
def Break (cs : List Char) : Prop := ∀ c ∈ cs.head?, c = '\n' ∨ c = '\r'

theorem Break.eq_nil_or {cs : List Char} (h : Break cs) :
    cs = [] ∨ (∃ t, cs = '\n' :: t) ∨ ∃ t, cs = '\r' :: t := by
  cases cs with
  | nil => exact .inl rfl
  | cons c t =>
    rcases h c rfl with rfl | rfl
    · exact .inr (.inl ⟨t, rfl⟩)
    · exact .inr (.inr ⟨t, rfl⟩)

/-- A part of a text that stays on one line is part of the first line. -/
theorem OneLine.append_eq {x rest l r : List Char} (hx : OneLine x) (hr : Break r)
    (h : x ++ rest = l ++ r) : ∃ y, l = x ++ y ∧ rest = y ++ r := by
  rcases List.append_eq_append_iff.mp h with ⟨y, rfl, rfl⟩ | ⟨y, rfl, rfl⟩
  · exact ⟨y, rfl, rfl⟩
  · cases y with
    | nil => exact ⟨[], by simp, by simp⟩
    | cons c y =>
      have hc := hx c (by simp)
      rcases hr c rfl with rfl | rfl
      · exact absurd rfl hc.1
      · exact absurd rfl hc.2

/-- What stands on one line is at the start of a text if it is at the start of the first line. -/
theorem OneLine.isPrefixOf_append {p l r : List Char} (hp : OneLine p) (hr : Break r) :
    p.isPrefixOf (l ++ r) = true ↔ p <+: l := by
  rw [List.isPrefixOf_iff_prefix]
  constructor
  · rintro ⟨t, ht⟩
    obtain ⟨y, hy, -⟩ := hp.append_eq hr ht
    exact ⟨y, hy.symm⟩
  · rintro ⟨y, rfl⟩
    exact ⟨y ++ r, by simp⟩

theorem Break.takeWhile {r : List Char} (hr : Break r) {p : Char → Bool}
    (hp : p '\n' = false ∧ p '\r' = false) : r.takeWhile p = [] ∧ r.dropWhile p = r := by
  rcases hr.eq_nil_or with rfl | ⟨t, rfl⟩ | ⟨t, rfl⟩ <;> simp [hp]

theorem allBlank_eq_false {cs : List Char} {c : Char} (hc : c ∈ cs) (h : isBlank c = false) :
    allBlank cs = false :=
  List.all_eq_false.mpr ⟨c, hc, by simp [h]⟩

@[simp] theorem allBlank_append (a b : List Char) :
    allBlank (a ++ b) = (allBlank a && allBlank b) := List.all_append

end Reactive.Text
