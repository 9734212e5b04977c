/-
  Texts that are laid out anew.

  A text is laid out anew by leaving out and putting in blanks and lines where its lines start.
  Blanks and comments are skipped alike before and after that, and a token that stays on its line
  is read alike: the same characters, a line end before it or not, and the same hints. Only a
  literal that goes over the end of a line can be read otherwise.
-/
import Reactive.Proofs.Script.Scanning

namespace Reactive.Script

open Reactive.Text

/-! ## Layouts -/

/-- A blank or the end of a line. -/
def isVoid (c : Char) : Bool := isSpace c || isLineEnd c

/-- The second text is the first one laid out anew, with `tail` behind it. Behind the end of a line,
where the texts are `fresh`, blanks and lines may be left out, and plain blanks be put in. -/
inductive Relaid (tail : List Char) : Bool → List Char → List Char → Prop
  | same {fresh : Bool} (c : Char) {cs cs' : List Char} (h : Relaid tail false cs cs') :
      Relaid tail fresh (c :: cs) (c :: cs')
  | line {fresh : Bool} {c c' : Char} (hc : c = '\n' ∨ c = '\r') (hc' : c' = '\n' ∨ c' = '\r')
      {cs cs' : List Char} (h : Relaid tail true cs cs') : Relaid tail fresh (c :: cs) (c' :: cs')
  | drop {c : Char} (hc : isVoid c = true) {cs cs' : List Char} (h : Relaid tail true cs cs') :
      Relaid tail true (c :: cs) cs'
  | add {c : Char} (hc : isHintBlank c = true) {cs cs' : List Char} (h : Relaid tail true cs cs') :
      Relaid tail true cs (c :: cs')
  | stop : Relaid tail true [] tail
  | cut : Relaid tail false [] ('\n' :: tail)

theorem isVoid_of_break {c : Char} (h : c = '\n' ∨ c = '\r') : isVoid c = true := by
  rcases h with rfl | rfl <;> decide

theorem isHintBlank_of_break {c : Char} (h : c = '\n' ∨ c = '\r') : isHintBlank c = true := by
  rcases h with rfl | rfl <;> decide

theorem isVoid_of_isHintBlank {c : Char} (h : isHintBlank c = true) : isVoid c = true := by
  simp only [isHintBlank, Bool.or_eq_true, beq_iff_eq] at h
  rcases h with (((rfl | rfl) | rfl) | rfl) | rfl <;> decide

theorem isLineEnd_of_isSpace {c : Char} (h : isSpace c = true) : isLineEnd c = false := by
  have hends : '\n'.toNat = 10 ∧ '\r'.toNat = 13 ∧ '\u2028'.toNat = 0x2028
      ∧ '\u2029'.toNat = 0x2029 := by decide
  simp only [isSpace, isLineEnd, Bool.or_eq_true, Bool.and_eq_true, decide_eq_true_eq, beq_iff_eq,
    Bool.or_eq_false_iff, beq_eq_false_iff_ne, ne_eq, ← Char.toNat_inj] at h ⊢
  omega

namespace Relaid

variable {tail cs cs' : List Char}

/-- The same characters before two texts. -/
theorem append (l : List Char) (h : Relaid tail false cs cs') :
    Relaid tail false (l ++ cs) (l ++ cs') := by
  induction l with
  | nil => exact h
  | cons c l ih => exact .same c ih

/-- What stands on the line stands on it in both texts. -/
theorem of_append {x : List Char} (hx : OneLine x) (h : Relaid tail false (x ++ cs) cs') :
    ∃ y, cs' = x ++ y ∧ Relaid tail false cs y := by
  induction x generalizing cs' with
  | nil => exact ⟨cs', rfl, h⟩
  | cons c x ih =>
    obtain ⟨hc, hx⟩ := oneLine_cons.mp hx
    cases h with
    | same c h =>
      obtain ⟨y, rfl, hy⟩ := ih hx h
      exact ⟨y, rfl, hy⟩
    | line hbreak _ _ => exact absurd hbreak (not_or.mpr hc)

/-- Both texts start with the same character, or both lines end. -/
theorem head?_eq (h : Relaid tail false cs cs') :
    cs'.head? = cs.head? ∨ (Break cs ∧ Break cs') := by
  cases h with
  | same c h => exact .inl rfl
  | line hc hc' h =>
    exact .inr ⟨fun x hx => Option.some.inj hx ▸ hc, fun x hx => Option.some.inj hx ▸ hc'⟩
  | cut => exact .inr ⟨nofun, fun x hx => .inl (Option.some.inj hx).symm⟩

/-- The first lines of both texts. -/
theorem exists_line (h : Relaid tail false cs cs') :
    ∃ l r r', cs = l ++ r ∧ cs' = l ++ r' ∧ OneLine l ∧ Break r ∧ Break r'
      ∧ Relaid tail false r r' := by
  induction cs generalizing cs' with
  | nil =>
    cases h with
    | cut =>
      exact ⟨[], [], _, rfl, rfl, nofun, nofun, fun x hx => .inl (Option.some.inj hx).symm, .cut⟩
  | cons c cs ih =>
    by_cases hc : c = '\n' ∨ c = '\r'
    · refine ⟨[], c :: cs, cs', rfl, rfl, nofun, fun x hx => Option.some.inj hx ▸ hc, ?_, h⟩
      rcases h.head?_eq with hhead | ⟨-, hbreak⟩
      · intro x hx
        rw [hhead] at hx
        exact Option.some.inj hx ▸ hc
      · exact hbreak
    · obtain ⟨y, rfl, hy⟩ := of_append (x := [c]) (by simpa using hc) h
      obtain ⟨l, r, r', rfl, rfl, hl, hr, hr', hrest⟩ := ih hy
      exact ⟨c :: l, r, r', rfl, rfl, oneLine_cons.mpr ⟨not_or.mp hc, hl⟩, hr, hr', hrest⟩

/-- Cursors before such texts are before the same line. -/
theorem exists_beside {k k' : Cursor} (h : Relaid tail false k.rest k'.rest) :
    ∃ r r', Break r ∧ Break r' ∧ Beside r r' k k'
      ∧ ∀ {next next'}, Beside r r' next next' → Relaid tail false next.rest next'.rest := by
  obtain ⟨l, r, r', hk, hk', hl, hr, hr', hrest⟩ := h.exists_line
  refine ⟨r, r', hr, hr', ⟨l, hl, hk, hk'⟩, ?_⟩
  rintro next next' ⟨y, -, hy, hy'⟩
  rw [hy, hy']
  exact hrest.append y

/-- A text on one line is at the start of both texts or of none. -/
theorem isPrefixOf_eq (h : Relaid tail false cs cs') {p : List Char} (hp : OneLine p) :
    p.isPrefixOf cs' = p.isPrefixOf cs := by
  obtain ⟨l, r, r', rfl, rfl, -, hr, hr', -⟩ := h.exists_line
  rw [Bool.eq_iff_iff, hp.isPrefixOf_append hr, hp.isPrefixOf_append hr']

/-- Only blanks are put before a character that is none. -/
theorem exists_solid {fresh : Bool} {c : Char} (hc : isVoid c = false)
    (h : Relaid tail fresh (c :: cs) cs') :
    ∃ blanks y, cs' = blanks ++ c :: y ∧ (∀ x ∈ blanks, isVoid x = true)
      ∧ (fresh = false → blanks = []) ∧ Relaid tail false cs y := by
  generalize heq : c :: cs = text at h
  induction h with
  | same d h _ =>
    cases heq
    exact ⟨[], _, rfl, nofun, fun _ => rfl, h⟩
  | line hd _ _ _ =>
    cases heq
    exact absurd (isVoid_of_break hd) (by simp [hc])
  | drop hd _ _ =>
    cases heq
    exact absurd hd (by simp [hc])
  | add hd _ ih =>
    obtain ⟨blanks, y, rfl, hblanks, -, hy⟩ := ih heq
    exact ⟨_ :: blanks, y, rfl, List.forall_mem_cons.mpr ⟨isVoid_of_isHintBlank hd, hblanks⟩, nofun,
      hy⟩
  | stop => cases heq
  | cut => cases heq

/-- A blank stays a blank or is left out, and a line ends at it before if one ends after. -/
theorem exists_void {fresh : Bool} {c : Char} (hc : isVoid c = true)
    (h : Relaid tail fresh (c :: cs) cs') :
    ∃ blanks y fresh', cs' = blanks ++ y ∧ (∀ x ∈ blanks, isVoid x = true)
      ∧ (fresh = false → blanks.any isLineEnd = isLineEnd c ∧ (fresh' = true → isLineEnd c = true))
      ∧ Relaid tail fresh' cs y := by
  have hends : ∀ {x : Char}, x = '\n' ∨ x = '\r' → isLineEnd x = true := by
    rintro x (rfl | rfl) <;> decide
  generalize heq : c :: cs = text at h
  induction h with
  | same d h _ =>
    cases heq
    exact ⟨[c], _, false, rfl, by simpa using hc, fun _ => ⟨by simp, nofun⟩, h⟩
  | @line _ d d' hd hd' _ _ h _ =>
    cases heq
    refine ⟨[d'], _, true, rfl, by simpa using isVoid_of_break hd',
      fun _ => ⟨?_, fun _ => hends hd⟩, h⟩
    simp [hends hd, hends hd']
  | drop hd h _ =>
    cases heq
    exact ⟨[], _, true, rfl, nofun, nofun, h⟩
  | add hd _ ih =>
    obtain ⟨blanks, y, fresh', rfl, hblanks, -, hy⟩ := ih heq
    exact ⟨_ :: blanks, y, fresh', rfl,
      List.forall_mem_cons.mpr ⟨isVoid_of_isHintBlank hd, hblanks⟩, nofun, hy⟩
  | stop => cases heq
  | cut => cases heq

end Relaid

/-! ## Comments -/

/-- The text of a block comment behind its opening: it ends with the first closing mark. -/
inductive BlockText : List Char → Prop
  | close : BlockText ['*', '/']
  | cons (c : Char) {b : List Char} (hc : c = '*' → b.head? ≠ some '/') (h : BlockText b) :
      BlockText (c :: b)

namespace BlockText

variable {b : List Char}

theorem of_eq_some {cs : List Char} {o : Nat} {k : Cursor}
    (h : blockCommentBody cs o = some (b, k)) : BlockText b ∧ cs = b ++ k.rest := by
  induction cs, o using blockCommentBody.induct generalizing b k with
  | case1 o => cases h
  | case2 cs o =>
    rw [blockCommentBody] at h
    cases h
    exact ⟨.close, rfl⟩
  | case3 c cs o hc ih =>
    rw [blockCommentBody.eq_3 _ _ _ hc] at h
    obtain ⟨⟨b', k'⟩, hb, heq⟩ := Option.map_eq_some_iff.mp h
    cases heq
    obtain ⟨hblock, rfl⟩ := ih hb
    refine ⟨.cons c (fun hstar hslash => ?_) hblock, rfl⟩
    obtain ⟨t, rfl⟩ := List.head?_eq_some_iff.mp hslash
    exact hc _ hstar rfl

theorem eq_some (h : BlockText b) (rest : List Char) (o : Nat) :
    ∃ o', blockCommentBody (b ++ rest) o = some (b, ⟨rest, o'⟩) := by
  induction h generalizing o with
  | close => exact ⟨o + 2, rfl⟩
  | @cons c b hc h ih =>
    have hopen : ∀ t, c = '*' → b ++ rest = '/' :: t → False := by
      intro t hstar hslash
      cases h with
      | close => cases hslash
      | cons d _ _ => exact hc hstar (by rw [(List.cons.inj hslash).1]; rfl)
    obtain ⟨o', ho⟩ := ih (o + c.utf8Size)
    exact ⟨o', by rw [List.cons_append, blockCommentBody.eq_3 _ _ _ hopen, ho]; rfl⟩

theorem star_mem (h : BlockText b) : '*' ∈ b := by
  induction h with
  | close => simp
  | cons c _ _ ih => exact List.mem_cons_of_mem _ ih

theorem isPrefixOf_append (h : BlockText b) {p : List Char} (hp : '*' ∉ p) (rest : List Char) :
    p.isPrefixOf (b ++ rest) = p.isPrefixOf b := by
  rw [Bool.eq_iff_iff, List.isPrefixOf_iff_prefix, List.isPrefixOf_iff_prefix]
  refine ⟨fun hprefix => ?_, fun hprefix => hprefix.trans (List.prefix_append b rest)⟩
  rcases List.prefix_or_prefix_of_prefix hprefix (List.prefix_append b rest) with hshort | hlong
  · exact hshort
  · exact absurd (hlong.subset h.star_mem) hp

end BlockText

/-! ### Hints in comments -/

theorem Hint.ofBlock?_blank {c : Char} (hc : isHintBlank c = true) (b : List Char) :
    Hint.ofComment? ('/' :: '*' :: c :: b) = Hint.ofComment? ('/' :: '*' :: b) := by
  have hdrop : (('/' :: '*' :: c :: b).drop 2).dropWhile isHintBlank
      = (('/' :: '*' :: b).drop 2).dropWhile isHintBlank := List.dropWhile_cons_of_pos hc
  rw [ofComment?, ofComment?, hdrop]

theorem Hint.ofBlock?_mark {c : Char} (hc : c = '@' ∨ c = '#') (b : List Char) :
    Hint.ofComment? ('/' :: '*' :: c :: b)
      = if "__PURE__".toList.isPrefixOf b then some .pureCall
        else if "__NO_SIDE_EFFECTS__".toList.isPrefixOf b then some .quietFunction
        else none := by
  rcases hc with rfl | rfl <;> rfl

theorem Hint.ofBlock?_other {c : Char} (hc : isHintBlank c = false) (hmark : ¬(c = '@' ∨ c = '#'))
    (b : List Char) : Hint.ofComment? ('/' :: '*' :: c :: b) = none := by
  have hdrop : (('/' :: '*' :: c :: b).drop 2).dropWhile isHintBlank = c :: b :=
    List.dropWhile_cons_of_neg (by simp [hc])
  rw [ofComment?, hdrop]
  split
  · rename_i heq
    exact absurd (.inl (List.cons.inj heq).1) hmark
  · rename_i heq
    exact absurd (.inr (List.cons.inj heq).1) hmark
  · rfl

/-- A hint is known from the line it starts on. -/
theorem Hint.ofBlock?_solid {c : Char} (hc : isHintBlank c = false) {b b' : List Char}
    (h : ∀ p, OneLine p → '*' ∉ p → p.isPrefixOf b' = p.isPrefixOf b) :
    Hint.ofComment? ('/' :: '*' :: c :: b') = Hint.ofComment? ('/' :: '*' :: c :: b) := by
  by_cases hmark : c = '@' ∨ c = '#'
  · rw [ofBlock?_mark hmark, ofBlock?_mark hmark, h "__PURE__".toList (by decide) (by decide),
      h "__NO_SIDE_EFFECTS__".toList (by decide) (by decide)]
  · rw [ofBlock?_other hc hmark, ofBlock?_other hc hmark]

/-- The text of a comment starts with plain blanks alone, if with any: whether it is a hint does
not depend on its layout. -/
def StartsPlain (b : List Char) : Prop := ∀ c ∈ (b.dropWhile isHintBlank).head?, isVoid c = false

instance (b : List Char) : Decidable (StartsPlain b) :=
  decidable_of_iff ((b.dropWhile isHintBlank).head?.all (!isVoid ·)) (by
    cases h : (b.dropWhile isHintBlank).head? <;> simp [StartsPlain, h])

/-- A block comment that stays on its line, or starts with plain blanks. -/
def PlainBlock (b : List Char) : Prop := ¬OneLine b → StartsPlain b

theorem startsPlain_blank {c : Char} (hc : isHintBlank c = true) (b : List Char) :
    StartsPlain (c :: b) ↔ StartsPlain b := by
  rw [StartsPlain, StartsPlain, List.dropWhile_cons_of_pos hc]

/-- A block comment that is laid out anew: it ends at the same place, goes over lines if it did, and
is the same hint. -/
theorem BlockText.relaid {tail b rest cs' : List Char} {fresh : Bool} (hb : BlockText b)
    (h : Relaid tail fresh (b ++ rest) cs') :
    ∃ b' y, cs' = b' ++ y ∧ BlockText b' ∧ Relaid tail false rest y
      ∧ (fresh || b'.any isLineEnd) = (fresh || b.any isLineEnd)
      ∧ ((fresh = true ∨ ¬OneLine b → StartsPlain b)
        → Hint.ofComment? ('/' :: '*' :: b') = Hint.ofComment? ('/' :: '*' :: b)) := by
  generalize heq : b ++ rest = text at h
  induction h generalizing b with
  | @same fresh c cs cs' h ih =>
    cases hb with
    | close =>
      cases heq
      obtain ⟨y, rfl, hy⟩ := h.of_append (x := ['/']) (by decide)
      exact ⟨['*', '/'], y, rfl, .close, hy, rfl, fun _ => rfl⟩
    | @cons _ b hc hb =>
      cases heq
      obtain ⟨b', y, rfl, hb', hy, hends, hhint⟩ := ih hb rfl
      have hstar : c = '*' → b'.head? ≠ some '/' := by
        intro hstar hslash
        obtain ⟨t, rfl⟩ := List.head?_eq_some_iff.mp hslash
        rcases h.head?_eq with hhead | ⟨-, hbreak⟩
        · cases hb with
          | close => cases hhead
          | cons d _ _ => exact hc hstar hhead.symm
        · exact absurd (hbreak '/' rfl) (by decide)
      refine ⟨c :: b', y, rfl, .cons c hstar hb', hy, ?_, fun hplain => ?_⟩
      · simp only [Bool.false_or] at hends
        rw [List.any_cons, List.any_cons, hends]
      · by_cases hblank : isHintBlank c = true
        · rw [Hint.ofBlock?_blank hblank, Hint.ofBlock?_blank hblank]
          refine hhint fun hlines => ?_
          rw [← startsPlain_blank hblank b]
          refine hplain (.inr fun hline => ?_)
          exact hlines.elim nofun fun hlines => hlines (oneLine_cons.mp hline).2
        · refine Hint.ofBlock?_solid (by simpa using hblank) fun p hp hstar => ?_
          rw [← hb'.isPrefixOf_append hstar y, ← hb.isPrefixOf_append hstar rest]
          exact h.isPrefixOf_eq hp
  | @line fresh c c' hc hc' cs cs' h ih =>
    cases hb with
    | close =>
      cases heq
      exact absurd hc (by decide)
    | @cons _ b _ hb =>
      cases heq
      obtain ⟨b', y, rfl, hb', hy, hends, hhint⟩ := ih hb rfl
      refine ⟨c' :: b', y, rfl, .cons c' (fun hstar => ?_) hb', hy, ?_, fun hplain => ?_⟩
      · exact absurd hc' (by rw [hstar]; decide)
      · have hend : ∀ {x : Char}, x = '\n' ∨ x = '\r' → isLineEnd x = true := by
          rintro x (rfl | rfl) <;> decide
        simp [hend hc, hend hc']
      · have hblank := isHintBlank_of_break hc
        rw [Hint.ofBlock?_blank hblank, Hint.ofBlock?_blank (isHintBlank_of_break hc')]
        refine hhint fun _ => ?_
        rw [← startsPlain_blank hblank b]
        refine hplain (.inr fun hline => ?_)
        exact absurd hc (not_or.mpr (oneLine_cons.mp hline).1)
  | @drop c hc cs cs' h ih =>
    cases hb with
    | close =>
      cases heq
      exact absurd hc (by decide)
    | @cons _ b _ hb =>
      cases heq
      obtain ⟨b', y, rfl, hb', hy, -, hhint⟩ := ih hb rfl
      refine ⟨b', y, rfl, hb', hy, rfl, fun hplain => ?_⟩
      have hstarts := hplain (.inl rfl)
      by_cases hblank : isHintBlank c = true
      · rw [Hint.ofBlock?_blank hblank]
        exact hhint fun _ => (startsPlain_blank hblank b).mp hstarts
      · rw [StartsPlain, List.dropWhile_cons_of_neg hblank] at hstarts
        exact absurd hc (by simp [hstarts c rfl])
  | @add c hc cs cs' h ih =>
    obtain ⟨b', y, rfl, hb', hy, -, hhint⟩ := ih hb heq
    refine ⟨c :: b', y, rfl, .cons c (fun hstar => ?_) hb', hy, rfl, fun hplain => ?_⟩
    · exact absurd hc (by rw [hstar]; decide)
    · rw [Hint.ofBlock?_blank hc]
      exact hhint fun _ => hplain (.inl rfl)
  | stop => cases hb <;> cases heq
  | cut => cases hb <;> cases heq

/-! ## Gaps -/

/-- A token starts here, or the text ends: no blank and no comment. -/
def Begins (cs : List Char) : Prop :=
  (∀ c ∈ cs.head?, isVoid c = false) ∧ ∀ t, cs ≠ '/' :: '/' :: t ∧ cs ≠ '/' :: '*' :: t

/-- Blanks and comments up to the next token, whether a line ends there, and the hints in the
comments, latest first. The block comments have a property. -/
inductive Skips (P : List Char → Prop) : List Char → List Char → Bool → List Hint → Prop
  | stop {cs : List Char} (h : Begins cs) : Skips P cs cs false []
  | void {c : Char} {cs rest : List Char} {newline : Bool} {hints : List Hint}
      (hc : isVoid c = true) (h : Skips P cs rest newline hints) :
      Skips P (c :: cs) rest (isLineEnd c || newline) hints
  | line {text cs rest : List Char} {newline : Bool} {hints : List Hint}
      (htext : ∀ c ∈ text, isLineEnd c = false) (hcs : ∀ c ∈ cs.head?, isLineEnd c = true)
      (h : Skips P cs rest newline hints) :
      Skips P ('/' :: '/' :: (text ++ cs)) rest true
        (hints ++ (Hint.ofComment? ('/' :: '/' :: text)).toList)
  | block {b cs rest : List Char} {newline : Bool} {hints : List Hint} (hb : BlockText b)
      (hP : P b) (h : Skips P cs rest newline hints) :
      Skips P ('/' :: '*' :: (b ++ cs)) rest (b.any isLineEnd || newline)
        (hints ++ (Hint.ofComment? ('/' :: '*' :: b)).toList)

/-- Every text starts in one of the ways that matter to a gap. -/
theorem gap_cases (cs : List Char) :
    Begins cs ∨ (∃ c t, cs = c :: t ∧ isLineEnd c = true) ∨ (∃ c t, cs = c :: t ∧ isSpace c = true)
      ∨ (∃ t, cs = '/' :: '/' :: t) ∨ ∃ t, cs = '/' :: '*' :: t := by
  by_cases hvoid : ∀ c ∈ cs.head?, isVoid c = false
  · by_cases hline : ∃ t, cs = '/' :: '/' :: t
    · exact .inr (.inr (.inr (.inl hline)))
    · by_cases hblock : ∃ t, cs = '/' :: '*' :: t
      · exact .inr (.inr (.inr (.inr hblock)))
      · exact .inl ⟨hvoid, fun t => ⟨fun h => hline ⟨t, h⟩, fun h => hblock ⟨t, h⟩⟩⟩
  · cases cs with
    | nil => exact absurd nofun hvoid
    | cons c t =>
      have hc : isVoid c = true := by simpa using hvoid
      rw [isVoid, Bool.or_eq_true] at hc
      rcases hc with hspace | hend
      · exact .inr (.inr (.inl ⟨c, t, rfl, hspace⟩))
      · exact .inr (.inl ⟨c, t, rfl, hend⟩)

namespace Skips

variable {P : List Char → Prop} {cs rest : List Char} {newline : Bool} {hints : List Hint}

theorem voids {s : List Char} (hs : ∀ c ∈ s, isVoid c = true) (h : Skips P cs rest newline hints) :
    Skips P (s ++ cs) rest (s.any isLineEnd || newline) hints := by
  induction s with
  | nil => exact h
  | cons c s ih =>
    rw [List.forall_mem_cons] at hs
    rw [List.any_cons, Bool.or_assoc]
    exact .void hs.1 (ih hs.2)

theorem spaces {s : List Char} (hs : ∀ c ∈ s, isSpace c = true)
    (h : Skips P cs rest newline hints) : Skips P (s ++ cs) rest newline hints := by
  have hends : s.any isLineEnd = false :=
    List.any_eq_false.mpr fun c hc => by simp [isLineEnd_of_isSpace (hs c hc)]
  have hall := h.voids (s := s) fun c hc => by rw [isVoid, hs c hc, Bool.true_or]
  rwa [hends, Bool.false_or] at hall

theorem dropSpaces (h : Skips P cs rest newline hints) :
    Skips P (cs.dropWhile isSpace) rest newline hints := by
  induction h with
  | @stop cs h =>
    have hsame : cs.dropWhile isSpace = cs := by
      cases cs with
      | nil => rfl
      | cons c cs =>
        have hc := h.1 c rfl
        rw [isVoid, Bool.or_eq_false_iff] at hc
        exact List.dropWhile_cons_of_neg (by simp [hc.1])
    rw [hsame]
    exact .stop h
  | @void c cs rest newline hints hc h ih =>
    by_cases hspace : isSpace c = true
    · rwa [List.dropWhile_cons_of_pos hspace, isLineEnd_of_isSpace hspace, Bool.false_or]
    · rw [List.dropWhile_cons_of_neg hspace]
      exact .void hc h
  | line htext hcs h ih => exact .line htext hcs h
  | block hb hP h ih => exact .block hb hP h

theorem begins (h : Skips P cs rest newline hints) : Begins rest := by
  induction h with
  | stop h => exact h
  | void _ _ ih => exact ih
  | line _ _ _ ih => exact ih
  | block _ _ _ ih => exact ih

/-- The gap before a token, laid out anew. -/
theorem relaid {tail cs' x : List Char} {fresh : Bool} {c : Char}
    (h : Skips PlainBlock cs (c :: x) newline hints) (hlaid : Relaid tail fresh cs cs') :
    ∃ x' newline', Skips (fun _ => True) cs' (c :: x') newline' hints ∧ Relaid tail false x x'
      ∧ (fresh || newline') = (fresh || newline) := by
  generalize hrest : c :: x = rest at h
  induction h generalizing cs' fresh with
  | stop h =>
    subst hrest
    obtain ⟨blanks, y, rfl, hblanks, hnone, hy⟩ := hlaid.exists_solid (h.1 c rfl)
    have hbegins : Begins (c :: y) := by
      refine ⟨h.1, fun t => ?_⟩
      have hsecond : ∀ {d : Char}, d ≠ '\n' → d ≠ '\r' → c :: y = '/' :: d :: t →
          ∃ t, c :: x = '/' :: d :: t := by
        intro d hfeed hreturn heq
        obtain ⟨rfl, rfl⟩ := List.cons.inj heq
        rcases hy.head?_eq with hhead | ⟨-, hbreak⟩
        · obtain ⟨t, rfl⟩ := List.head?_eq_some_iff.mp hhead.symm
          exact ⟨t, rfl⟩
        · exact absurd (hbreak d rfl) (not_or.mpr ⟨hfeed, hreturn⟩)
      constructor
      · intro heq
        obtain ⟨t, ht⟩ := hsecond (by decide) (by decide) heq
        exact (h.2 t).1 ht
      · intro heq
        obtain ⟨t, ht⟩ := hsecond (by decide) (by decide) heq
        exact (h.2 t).2 ht
    refine ⟨y, _, (Skips.stop hbegins).voids hblanks, hy, ?_⟩
    cases fresh with
    | true => rfl
    | false => rw [hnone rfl]; rfl
  | @void d cs rest newline hints hd h ih =>
    obtain ⟨blanks, y, fresh', rfl, hblanks, hends, hy⟩ := hlaid.exists_void hd
    obtain ⟨x', newline', hskips, hx, hnewline⟩ := ih hy hrest
    refine ⟨x', _, hskips.voids hblanks, hx, ?_⟩
    cases fresh with
    | true => rfl
    | false =>
      obtain ⟨hany, hfresh⟩ := hends rfl
      rw [hany]
      cases fresh' with
      | true => rw [hfresh rfl]; rfl
      | false => exact congrArg (fun b => false || (isLineEnd d || b)) hnewline
  | @line text cs rest newline hints htext hcs h ih =>
    obtain ⟨blanks, y, rfl, hblanks, hnone, hy⟩ := hlaid.exists_solid (by decide)
    have hline : OneLine ('/' :: text) := by
      refine oneLine_cons.mpr ⟨by decide, fun d hd => ?_⟩
      constructor <;>
      · rintro rfl
        exact absurd (htext _ hd) (by decide)
    obtain ⟨z, rfl, hz⟩ := hy.of_append hline
    obtain ⟨x', newline', hskips, hx, -⟩ := ih hz hrest
    have hz : ∀ d ∈ z.head?, isLineEnd d = true := by
      intro d hd
      rcases hz.head?_eq with hhead | ⟨-, hbreak⟩
      · exact hcs d (hhead ▸ hd)
      · rcases hbreak d hd with rfl | rfl <;> decide
    refine ⟨x', _, (Skips.line htext hz hskips).voids hblanks, hx, ?_⟩
    rw [Bool.or_true]
  | @block b cs rest newline hints hb hplain h ih =>
    obtain ⟨blanks, y, rfl, hblanks, hnone, hy⟩ := hlaid.exists_solid (by decide)
    obtain ⟨z, rfl, hz⟩ := hy.of_append (x := ['*']) (by decide)
    obtain ⟨b', w, rfl, hb', hw, hends, hhint⟩ := hb.relaid hz
    obtain ⟨x', newline', hskips, hx, hnewline⟩ := ih hw hrest
    rw [← hhint fun hlines => hplain (hlines.resolve_left nofun)]
    refine ⟨x', _, (Skips.block hb' trivial hskips).voids hblanks, hx, ?_⟩
    rw [Bool.false_or, Bool.false_or] at hends hnewline
    cases fresh with
    | true => rfl
    | false => rw [hnone rfl, hends, hnewline]; rfl

end Skips

/-! ### Comments seen so far -/

/-- All block comments so far stay on their lines, or start with plain blanks. -/
def Trivia.Plain (t : Trivia) : Prop :=
  ∀ c ∈ t.settled ++ t.waiting, ¬OneLine c.text → StartsPlain (c.text.drop 2)

instance (t : Trivia) : Decidable t.Plain := List.decidableBAll _ _

namespace Trivia

variable {t : Trivia}

/-- A comment with this text has been seen. -/
def Saw (t : Trivia) (text : List Char) : Prop := ∃ c ∈ t.settled ++ t.waiting, c.text = text

theorem plain_iff : t.Plain ↔ ∀ x, t.Saw x → ¬OneLine x → StartsPlain (x.drop 2) :=
  ⟨fun h _ ⟨c, hc, hx⟩ => hx ▸ h c hc, fun h c hc => h c.text ⟨c, hc, rfl⟩⟩

theorem saw_addLine (text x : List Char) : (t.addLine text).Saw x ↔ text = x ∨ t.Saw x := by
  unfold addLine
  by_cases htrails : (!(t.addHint text).newline && !(t.addHint text).afterOpener) = true
  · rw [if_pos htrails]
    simp [Saw, addHint]
    grind
  · rw [if_neg htrails]
    simp [Saw, addHint]
    grind

theorem saw_addBlock (kind : CommentKind) (text x : List Char) :
    (t.addBlock kind text).Saw x ↔ text = x ∨ t.Saw x := by
  simp [Saw, addBlock, addHint]
  grind

theorem saw_addNewline (x : List Char) : t.addNewline.Saw x ↔ t.Saw x := by
  unfold addNewline
  split
  · rfl
  · rename_i c cs hwaiting
    dsimp only
    split <;> (simp [Saw, hwaiting]; grind)

theorem saw_addToken (start : Nat) (opener : Bool) (x : List Char) :
    (t.addToken start opener).Saw x ↔ t.Saw x := by
  simp [Saw, addToken]
  grind

@[simp] theorem hints_addLine (text : List Char) :
    (t.addLine text).hints = (Hint.ofComment? text).toList ++ t.hints := by
  unfold addLine
  extract_lets
  split <;> rfl

end Trivia

/-! ### Steps over a gap -/

/-- A run of characters in a class, up to one that is not. -/
theorem Cursor.span_append {p : Char → Bool} {l r : List Char} (hl : ∀ c ∈ l, p c = true)
    (hr : ∀ c ∈ r.head?, p c = false) (o : Nat) :
    ∃ o', Cursor.span p ⟨l ++ r, o⟩ = (l, ⟨r, o'⟩) := by
  have hstop : r.takeWhile p = [] ∧ r.dropWhile p = r := by
    cases r with
    | nil => exact ⟨rfl, rfl⟩
    | cons c r => simp [hr c rfl]
  refine ⟨(Cursor.span p ⟨l ++ r, o⟩).2.offset, Prod.ext ?_ ?_⟩
  · rw [fst_span, List.takeWhile_append_of_pos hl, hstop.1, List.append_nil]
  · have hrest : (Cursor.span p ⟨l ++ r, o⟩).2.rest = r := by
      rw [rest_span, List.dropWhile_append_of_pos hl, hstop.2]
    exact congrArg (Cursor.mk · _) hrest

section

variable {cs : List Char} (fuel o : Nat) (t : Trivia) (newline : Bool)

theorem skipGap_begins (h : Begins cs) :
    skipGap fuel ⟨cs, o⟩ t newline = ⟨⟨cs, o⟩, t, newline, false⟩ := by
  cases fuel with
  | zero => rfl
  | succ fuel =>
    cases cs with
    | nil => rfl
    | cons c cs =>
      have hc := h.1 c rfl
      simp only [isVoid, isLineEnd, Bool.or_eq_false_iff] at hc
      unfold skipGap
      split
      · rfl
      · rename_i heq
        exact absurd heq (h.2 _).1
      · rename_i heq
        exact absurd heq (h.2 _).2
      · rename_i heq
        cases heq
        simp [isLineEnd, hc]

variable (cs) in
/-- The end of a line: it is noted, and no comment is seen. -/
theorem skipGap_lineEnd {c : Char} (hc : isLineEnd c = true) :
    ∃ o' t', t'.hints = t.hints ∧ (∀ x, t'.Saw x ↔ t.Saw x)
      ∧ skipGap (fuel + 1) ⟨c :: cs, o⟩ t newline = skipGap fuel ⟨cs, o'⟩ t' true := by
  have hslash : c ≠ '/' := by
    rintro rfl
    exact absurd hc (by decide)
  by_cases hends : (c == '\n' || c == '\r') = true
  · refine ⟨o + c.utf8Size, t.addNewline, hints_addNewline t, t.saw_addNewline, ?_⟩
    simp [skipGap, hslash, hends, Cursor.skip]
  · refine ⟨o + c.utf8Size, t, rfl, fun _ => Iff.rfl, ?_⟩
    simp [skipGap, hslash, hends, hc, Cursor.skip]

variable (cs) in
theorem skipGap_isSpace {c : Char} (hc : isSpace c = true) :
    ∃ o', skipGap (fuel + 1) ⟨c :: cs, o⟩ t newline
      = skipGap fuel ⟨cs.dropWhile isSpace, o'⟩ t newline := by
  have hslash : c ≠ '/' := by
    rintro rfl
    exact absurd hc (by decide)
  have hend := isLineEnd_of_isSpace hc
  have hends : (c == '\n' || c == '\r') = false := by
    simp only [isLineEnd, Bool.or_eq_false_iff] at hend ⊢
    exact hend.1.1
  have hrest : (Cursor.span isSpace ⟨c :: cs, o⟩).2.rest = cs.dropWhile isSpace := by
    rw [Cursor.rest_span, List.dropWhile_cons_of_pos hc]
  have hstep : skipGap (fuel + 1) ⟨c :: cs, o⟩ t newline
      = skipGap fuel (Cursor.span isSpace ⟨c :: cs, o⟩).2 t newline := by
    simp [skipGap, hslash, hends, hend, hc]
  exact ⟨_, by rw [hstep, ← hrest]⟩

theorem skipGap_line {text : List Char} (htext : ∀ c ∈ text, isLineEnd c = false)
    (hcs : ∀ c ∈ cs.head?, isLineEnd c = true) :
    ∃ o', skipGap (fuel + 1) ⟨'/' :: '/' :: (text ++ cs), o⟩ t newline
      = skipGap fuel ⟨cs, o'⟩ (t.addLine ('/' :: '/' :: text)) true := by
  obtain ⟨o', hspan⟩ := Cursor.span_append (p := fun c => !isLineEnd c) (l := '/' :: '/' :: text)
    (r := cs) (by simpa [show isLineEnd '/' = false by decide] using htext) (by simpa using hcs) o
  refine ⟨o', ?_⟩
  rw [List.cons_append, List.cons_append] at hspan
  rw [skipGap, hspan]
  rfl

variable (cs) in
theorem skipGap_block {b : List Char} (hb : BlockText b) :
    ∃ o' kind, skipGap (fuel + 1) ⟨'/' :: '*' :: (b ++ cs), o⟩ t newline
      = skipGap fuel ⟨cs, o'⟩ (t.addBlock kind ('/' :: '*' :: b)) (newline || b.any isLineEnd) := by
  obtain ⟨o', ho⟩ := hb.eq_some cs (Cursor.skip 2 ⟨'/' :: '*' :: (b ++ cs), o⟩).offset
  refine ⟨o', if b.any fun c => c == '\n' || c == '\r' then .lines else .block, ?_⟩
  rw [skipGap]
  simp only [Cursor.rest_skip, List.drop_succ_cons, List.drop_zero, ho]

end

/-- A line comment goes up to the end of its line. -/
theorem exists_lineEnd (cs : List Char) :
    ∃ text rest, cs = text ++ rest ∧ (∀ c ∈ text, isLineEnd c = false)
      ∧ ∀ c ∈ rest.head?, isLineEnd c = true := by
  refine ⟨cs.takeWhile (!isLineEnd ·), cs.dropWhile (!isLineEnd ·),
    List.takeWhile_append_dropWhile.symm, fun c hc => ?_, fun c hc => ?_⟩
  · simpa using List.all_eq_true.mp List.all_takeWhile c hc
  · have hstop := List.head?_dropWhile_not (!isLineEnd ·) cs
    rw [Option.mem_def.mp hc] at hstop
    simpa using hstop

/-- A block comment in a sound gap is closed. -/
theorem exists_blockText {cs : List Char} (fuel o : Nat) (t : Trivia) (newline : Bool)
    (hsound : (skipGap (fuel + 1) ⟨'/' :: '*' :: cs, o⟩ t newline).flawed = false) :
    ∃ b rest, cs = b ++ rest ∧ BlockText b := by
  rw [skipGap] at hsound
  simp only [Cursor.rest_skip, List.drop_succ_cons, List.drop_zero] at hsound
  split at hsound
  · cases hsound
  · rename_i hbody
    obtain ⟨hb, hcs⟩ := BlockText.of_eq_some hbody
    exact ⟨_, _, hcs, hb⟩

/-- What a whole gap gives is what its steps give. -/
theorem skipGap_of_skips {P : List Char → Prop} {cs rest : List Char} {newline : Bool}
    {hints : List Hint} (h : Skips P cs rest newline hints) {fuel : Nat} (hf : cs.length < fuel)
    (o : Nat) (t : Trivia) (before : Bool) :
    ∃ o' t', skipGap fuel ⟨cs, o⟩ t before = ⟨⟨rest, o'⟩, t', before || newline, false⟩
      ∧ t'.hints = hints ++ t.hints := by
  induction fuel generalizing cs rest newline hints o t before with
  | zero => omega
  | succ fuel ih =>
    cases h with
    | stop h => exact ⟨o, t, by rw [skipGap_begins _ _ _ _ h, Bool.or_false], rfl⟩
    | @void c cs _ newline _ hc h =>
      rw [List.length_cons] at hf
      by_cases hend : isLineEnd c = true
      · obtain ⟨o', t', hhints, -, hstep⟩ := skipGap_lineEnd cs fuel o t before hend
        obtain ⟨o'', t'', hgap, hhints'⟩ := ih h (by omega) o' t' true
        exact ⟨o'', t'', by rw [hstep, hgap, hend]; simp, by rw [hhints', hhints]⟩
      · have hspace : isSpace c = true := by simpa [isVoid, hend] using hc
        obtain ⟨o', hstep⟩ := skipGap_isSpace cs fuel o t before hspace
        have hshort := (List.dropWhile_suffix isSpace (l := cs)).length_le
        obtain ⟨o'', t'', hgap, hhints'⟩ := ih h.dropSpaces (by omega) o' t before
        exact ⟨o'', t'', by rw [hstep, hgap, isLineEnd_of_isSpace hspace, Bool.false_or], hhints'⟩
    | @line text cs _ newline hints htext hcs h =>
      simp only [List.length_cons, List.length_append] at hf
      obtain ⟨o', hstep⟩ := skipGap_line fuel o t before htext hcs
      obtain ⟨o'', t'', hgap, hhints⟩ := ih h (by omega) o' (t.addLine ('/' :: '/' :: text)) true
      exact ⟨o'', t'', by rw [hstep, hgap]; simp, by rw [hhints]; simp⟩
    | @block b cs _ newline hints hb hP h =>
      simp only [List.length_cons, List.length_append] at hf
      obtain ⟨o', kind, hstep⟩ := skipGap_block cs fuel o t before hb
      obtain ⟨o'', t'', hgap, hhints⟩ := ih h (by omega) o' (t.addBlock kind ('/' :: '*' :: b)) _
      exact ⟨o'', t'', by rw [hstep, hgap, Bool.or_assoc],
        by rw [hhints]; simp [Trivia.addBlock, Trivia.addHint]⟩

/-- Every sound gap is made of such steps; comments that were seen stay seen. -/
theorem skips_of_skipGap {fuel : Nat} {cs : List Char} (hf : cs.length < fuel) (o : Nat)
    (t : Trivia) (before : Bool) (hsound : (skipGap fuel ⟨cs, o⟩ t before).flawed = false) :
    (∀ x, t.Saw x → (skipGap fuel ⟨cs, o⟩ t before).trivia.Saw x)
    ∧ ((skipGap fuel ⟨cs, o⟩ t before).trivia.Plain →
      ∃ newline hints,
        Skips PlainBlock cs (skipGap fuel ⟨cs, o⟩ t before).next.rest newline hints) := by
  induction fuel generalizing cs o t before with
  | zero => omega
  | succ fuel ih =>
    rcases gap_cases cs with h | ⟨c, cs, rfl, hc⟩ | ⟨c, cs, rfl, hc⟩ | ⟨cs, rfl⟩ | ⟨cs, rfl⟩
    · rw [skipGap_begins _ _ _ _ h]
      exact ⟨fun _ => id, fun _ => ⟨_, _, .stop h⟩⟩
    · obtain ⟨o', t', -, hsaw, hstep⟩ := skipGap_lineEnd cs fuel o t before hc
      rw [hstep] at hsound ⊢
      obtain ⟨hseen, hskips⟩ := ih (by simpa using hf) o' t' true hsound
      refine ⟨fun x hx => hseen x ((hsaw x).mpr hx), fun hplain => ?_⟩
      obtain ⟨newline, hints, h⟩ := hskips hplain
      exact ⟨_, hints, .void (by rw [isVoid, hc, Bool.or_true]) h⟩
    · obtain ⟨o', hstep⟩ := skipGap_isSpace cs fuel o t before hc
      rw [hstep] at hsound ⊢
      have hshort := (List.dropWhile_suffix isSpace (l := cs)).length_le
      obtain ⟨hseen, hskips⟩ := ih (by rw [List.length_cons] at hf; omega) o' t before hsound
      refine ⟨hseen, fun hplain => ?_⟩
      obtain ⟨newline, hints, h⟩ := hskips hplain
      have hall := h.spaces (s := cs.takeWhile isSpace) fun c hc =>
        List.all_eq_true.mp List.all_takeWhile c hc
      rw [List.takeWhile_append_dropWhile] at hall
      exact ⟨_, hints, .void (by rw [isVoid, hc, Bool.true_or]) hall⟩
    · obtain ⟨text, cs, rfl, htext, hcs⟩ := exists_lineEnd cs
      obtain ⟨o', hstep⟩ := skipGap_line fuel o t before htext hcs
      rw [hstep] at hsound ⊢
      simp only [List.length_cons, List.length_append] at hf
      obtain ⟨hseen, hskips⟩ := ih (by omega) o' _ true hsound
      refine ⟨fun x hx => hseen x ((Trivia.saw_addLine _ x).mpr (.inr hx)), fun hplain => ?_⟩
      obtain ⟨newline, hints, h⟩ := hskips hplain
      exact ⟨_, _, .line htext hcs h⟩
    · obtain ⟨b, cs, rfl, hb⟩ := exists_blockText fuel o t before hsound
      obtain ⟨o', kind, hstep⟩ := skipGap_block cs fuel o t before hb
      rw [hstep] at hsound ⊢
      simp only [List.length_cons, List.length_append] at hf
      obtain ⟨hseen, hskips⟩ := ih (by omega) o' _ _ hsound
      have hsaw := fun x => Trivia.saw_addBlock (t := t) kind ('/' :: '*' :: b) x
      refine ⟨fun x hx => hseen x ((hsaw x).mpr (.inr hx)), fun hplain => ?_⟩
      obtain ⟨newline, hints, h⟩ := hskips hplain
      refine ⟨_, _, .block hb (fun hlines => ?_) h⟩
      exact Trivia.plain_iff.mp hplain _ (hseen _ ((hsaw _).mpr (.inl rfl))) (by simpa using hlines)

/-- The gap before a token is skipped alike in a text and in that text laid out anew. -/
theorem skipGap_relaid {tail cs cs' x : List Char} {o o' : Nat} {t t' : Trivia} {c : Char}
    (hlaid : Relaid tail false cs cs') (hhints : t'.hints = t.hints) {g g' : Gap}
    (hg : skipGap (cs.length + 1) ⟨cs, o⟩ t false = g)
    (hg' : skipGap (cs'.length + 1) ⟨cs', o'⟩ t' false = g')
    (hsound : g.flawed = false) (hplain : g.trivia.Plain) (hrest : g.next.rest = c :: x) :
    isVoid c = false ∧ g'.flawed = false ∧ g'.newline = g.newline
    ∧ g'.trivia.hints = g.trivia.hints
    ∧ ∃ x', g'.next.rest = c :: x' ∧ Relaid tail false x x' := by
  subst hg hg'
  obtain ⟨newline, hints, hskips⟩ :=
    (skips_of_skipGap (Nat.lt_succ_self _) o t false hsound).2 hplain
  obtain ⟨_, _, hgap, htrivia⟩ := skipGap_of_skips hskips (Nat.lt_succ_self _) o t false
  rw [hrest] at hskips hgap
  obtain ⟨x', newline', hskips', hx, hnewline⟩ := hskips.relaid hlaid
  obtain ⟨_, _, hgap', htrivia'⟩ := skipGap_of_skips hskips' (Nat.lt_succ_self _) o' t' false
  rw [hgap, hgap']
  exact ⟨hskips.begins.1 c rfl, rfl, hnewline, by rw [htrivia, htrivia', hhints], x', rfl, hx⟩

end Reactive.Script
