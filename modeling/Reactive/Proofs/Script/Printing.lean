/-
  Plain expressions on the page.

  Printing only ever adds text at the end of the page. Of everything that the page keeps beside its
  text, a plain expression asks for little: that no word runs into the text before it, and that no
  sign stands directly behind an equal one. From there its spelling is what is added.
-/
import Reactive.Proofs.Script.Spelling
import Reactive.Proofs.Script.Literal

namespace Reactive.Script.Printer

open Reactive.Script.Parser

/-! ## Pages -/

/-- The page that a writer leaves. -/
def pageAfter (w : Writer Unit) (p : Page) : Page := (w.run p).2

theorem pageAfter_bind (w : Writer Unit) (f : Unit → Writer Unit) (p : Page) :
    pageAfter (w >>= f) p = pageAfter (f ()) (pageAfter w p) := rfl

/-- After a writer that gives a value, the next one goes on with it. -/
theorem run_bind {α β : Type} {w : Writer α} {p q : Page} {a : α} (h : w.run p = (a, q))
    (f : α → Writer β) : (w >>= f).run p = (f a).run q := by
  show (f (w.run p).1).run (w.run p).2 = _
  rw [h]

theorem pageAfter_run {α : Type} {w : Writer α} {p q : Page} {a : α} (h : w.run p = (a, q))
    (f : α → Writer Unit) : pageAfter (w >>= f) p = pageAfter (f a) q := by
  rw [pageAfter, run_bind h]
  rfl

namespace Page

/-- No comment waits, and no mark lies ahead of the text. -/
structure Clean (p : Page) : Prop where
  comments : p.comments = []
  regex : p.regexEnd = none
  sign : ∀ x ∈ p.signEnd, x.1 ≤ p.size
  integer : ∀ n ∈ p.integerEnd, n ≤ p.size

/-- One page is another one with more text. -/
structure Adds (p q : Page) (x : List Char) : Prop where
  reversed : q.reversed = x.reverse ++ p.reversed
  size : q.size = p.size + x.length
  clean : q.Clean

/-- No number ends here that a dot would continue. -/
def NoInteger (p : Page) : Prop := ∀ n ∈ p.integerEnd, n < p.size

/-- A word can be written here. -/
def Open (p : Page) : Prop := ∀ c ∈ p.reversed.head?, isNamePart c = false

/-- Everything can be written here. -/
structure Fresh (p : Page) : Prop where
  clean : p.Clean
  isOpen : p.Open
  unsigned : ∀ x ∈ p.signEnd, x.1 < p.size

variable {p q r : Page} {x y : List Char}

theorem Clean.adds_nil (h : p.Clean) : p.Adds p [] := ⟨rfl, rfl, h⟩

theorem Adds.trans (h : p.Adds q x) (h' : q.Adds r y) : p.Adds r (x ++ y) := by
  refine ⟨?_, ?_, h'.clean⟩
  · rw [h'.reversed, h.reversed, List.reverse_append, List.append_assoc]
  · rw [h'.size, h.size, List.length_append, Nat.add_assoc]

theorem Clean.chars (h : p.Clean) (x : List Char) : p.Adds (pageAfter (chars x) p) x :=
  ⟨rfl, rfl, h.comments, h.regex, fun m hm => Nat.le_trans (h.sign m hm) (Nat.le_add_right _ _),
    fun n hn => Nat.le_trans (h.integer n hn) (Nat.le_add_right _ _)⟩

theorem Clean.put (h : p.Clean) (s : String) : p.Adds (pageAfter (Printer.put s) p) s.toList :=
  h.chars s.toList

theorem Clean.noInteger_chars (h : p.Clean) (hx : x ≠ []) :
    (pageAfter (Printer.chars x) p).NoInteger :=
  fun n hn => Nat.lt_of_le_of_lt (h.integer n hn)
    (Nat.lt_add_of_pos_right (List.length_pos_iff.mpr hx))

/-- Everything can follow a text that does not end in a word. -/
theorem Clean.fresh_chars (h : p.Clean) {c : Char} (hx : x.getLast? = some c)
    (hc : isNamePart c = false) : (pageAfter (Printer.chars x) p).Fresh := by
  have hne : x ≠ [] := by
    rintro rfl
    cases hx
  refine ⟨(h.chars x).clean, fun c' hc' => ?_, fun m hm => ?_⟩
  · have hhead : (x.reverse ++ p.reversed).head? = some c := by
      rw [List.head?_append_of_ne_nil _ (by simpa using hne), List.head?_reverse, hx]
    rw [show (pageAfter (Printer.chars x) p).reversed = x.reverse ++ p.reversed from rfl,
      hhead] at hc'
    cases hc'
    exact hc
  · exact Nat.lt_of_le_of_lt (h.sign m hm)
      (Nat.lt_add_of_pos_right (List.length_pos_iff.mpr hne))

theorem Clean.fresh_put (h : p.Clean) {s : String} {c : Char} (hs : s.toList.getLast? = some c)
    (hc : isNamePart c = false) : (pageAfter (Printer.put s) p).Fresh :=
  h.fresh_chars hs hc

/-- Where no word and no regular expression ends, nothing is put before a word. -/
theorem Clean.wordBreak (h : p.Clean) (hopen : p.Open) : pageAfter Printer.wordBreak p = p := by
  cases hhead : p.reversed.head? with
  | none =>
    have hrun : (Printer.wordBreak.run p) = pure ((), p) := by simp [Printer.wordBreak, hhead]
    rw [pageAfter, hrun]
    rfl
  | some c =>
    have hrun : (Printer.wordBreak.run p) = pure ((), p) := by
      simp [Printer.wordBreak, hhead, hopen c hhead, h.regex]
    rw [pageAfter, hrun]
    rfl

theorem Clean.word (h : p.Clean) (hopen : p.Open) (s : String) :
    pageAfter (Printer.word s) p = pageAfter (Printer.put s) p := by
  rw [Printer.word, pageAfter_bind, h.wordBreak hopen]

end Page

open Page

variable {p q : Page} {t : Tree}

/-! ## What a plain expression asks for -/

/-- An expression can be written here without parentheses. -/
structure Page.Takes (p : Page) (t : Tree) : Prop where
  clean : p.Clean
  isOpen : p.Open
  sign : ∀ c, p.signEnd = some (p.size, c) →
    Level.exponentiation < t.strength ∧ t.sign? ≠ some c

/-- An expression can be written here at a level. -/
structure Page.TakesAt (p : Page) (t : Tree) (level : Nat) : Prop where
  clean : p.Clean
  isOpen : p.Open
  level_lt : level < Level.member
  sign : ∀ c, p.signEnd = some (p.size, c) →
    Level.exponentiation ≤ level ∧ (level < t.strength → t.sign? ≠ some c)

theorem Page.Fresh.takes (h : p.Fresh) (t : Tree) : p.Takes t :=
  ⟨h.clean, h.isOpen, fun _ hc => absurd (h.unsigned _ hc) (Nat.lt_irrefl _)⟩

theorem Page.Fresh.takesAt (h : p.Fresh) (t : Tree) {level : Nat} (hlevel : level < Level.member) :
    p.TakesAt t level :=
  ⟨h.clean, h.isOpen, hlevel, fun _ hc => absurd (h.unsigned _ hc) (Nat.lt_irrefl _)⟩

theorem Page.TakesAt.takes {level : Nat} (h : p.TakesAt t level) (hlevel : level < t.strength) :
    p.Takes t :=
  ⟨h.clean, h.isOpen, fun c hc =>
    ⟨Nat.lt_of_le_of_lt (h.sign c hc).1 hlevel, (h.sign c hc).2 hlevel⟩⟩

/-- The expression is added to a page. -/
structure Added (t : Tree) (p q : Page) : Prop where
  adds : p.Adds q t.spelling
  noInteger : Level.postfixed < t.strength → t.isNumber = false → q.NoInteger

/-- The expression is added to a page at a level. -/
structure AddedAt (t : Tree) (level : Nat) (p q : Page) : Prop where
  adds : p.Adds q (t.spellingAt level)
  noInteger : Level.postfixed ≤ level → t.isNumber = false → q.NoInteger

/-- Where an expression is too weak for its surroundings, it is wrapped. -/
theorem addedAt_wrapIf {w : Writer Unit} {level : Nat} (h : p.TakesAt t level)
    (hw : ∀ q, q.Takes t → Added t q (pageAfter w q)) :
    AddedAt t level p (pageAfter (wrapIf (decide (t.strength ≤ level)) w) p) := by
  by_cases hstrength : t.strength ≤ level
  · rw [decide_eq_true hstrength]
    have hopened := h.clean.fresh_put (s := "(") rfl (by decide)
    have hinner := (hw _ (hopened.takes t)).adds
    refine ⟨?_, fun _ _ => hinner.clean.noInteger_chars (x := [')']) (by simp)⟩
    rw [Tree.spellingAt_of_le hstrength]
    exact (h.clean.put "(").trans (hinner.trans (hinner.clean.put ")"))
  · rw [decide_eq_false hstrength]
    have hlt := Nat.lt_of_not_le hstrength
    have hinner := hw p (h.takes hlt)
    refine ⟨?_, fun hlevel => hinner.noInteger (Nat.lt_of_le_of_lt hlevel hlt)⟩
    rw [Tree.spellingAt_of_lt hlt]
    exact hinner.adds

/-- An expression that is never too weak is not wrapped. -/
theorem addedAt_of_strong {w : Writer Unit} {level : Nat} (h : p.TakesAt t level)
    (ht : t.strength = Level.member) (hw : ∀ q, q.Takes t → Added t q (pageAfter w q)) :
    AddedAt t level p (pageAfter w p) := by
  have hadded := addedAt_wrapIf h hw
  rwa [decide_eq_false (by rw [ht]; exact Nat.not_le.mpr h.level_lt)] at hadded

/-- A weak expression is not written where a sign ends. -/
theorem Page.Takes.fresh (h : p.Takes t) (ht : t.strength ≤ Level.exponentiation) : p.Fresh := by
  refine ⟨h.clean, h.isOpen, fun x hx => Nat.lt_of_le_of_ne (h.clean.sign x hx) fun heq => ?_⟩
  obtain ⟨hlt, -⟩ := h.sign x.2 (by rw [← heq]; exact hx)
  omega

/-- Wherever the expression can be written at a level, it is added. -/
def Writable (t : Tree) : Prop :=
  ∀ level p, p.TakesAt t level → AddedAt t level p (pageAfter (ofTree t { level := level }) p)

theorem ofTree_node (l : Label) (s : Span) (cs : List Tree) (m : Mode) :
    ofTree (.node l s cs) m = layout l s (cs.map fun t => (t, ofTree t)) m := by
  rw [ofTree, Tree.fold_node]
  rfl

/-- At the lowest level nothing is wrapped. -/
theorem Writable.adds_lowest (h : Writable t) (hp : p.Fresh) :
    p.Adds (pageAfter (ofTree t {}) p) t.spelling := by
  have hadds := (h Level.lowest p (hp.takesAt t (by decide))).adds
  rwa [Tree.spellingAt_of_lt (Label.strength_bounds _).1] at hadds

/-! ## Leaves -/

theorem added_word {s : String} (hspelling : t.spelling = s.toList) (hs : s ≠ "")
    (hp : p.Takes t) : Added t p (pageAfter (word s) p) := by
  rw [hp.clean.word hp.isOpen]
  refine ⟨hspelling ▸ hp.clean.put s, fun _ _ => hp.clean.noInteger_chars ?_⟩
  rwa [Ne, String.toList_eq_nil_iff]

/-- A mark at the end of an integer changes nothing else. -/
theorem Page.Adds.markInteger {x : List Char} (h : p.Adds q x) :
    p.Adds { q with integerEnd := some q.size } x :=
  ⟨h.reversed, h.size, h.clean.comments, h.clean.regex, h.clean.sign,
    by rintro n ⟨⟩; exact Nat.le_refl _⟩

theorem writable_number (v : Number) (s : Span) : Writable (.node (.number v) s []) := by
  intro level p hp
  refine addedAt_of_strong hp rfl fun q hq => ⟨?_, nofun⟩
  have hrun : pageAfter (ofTree (.node (.number v) s []) { level := level }) q
      = pageAfter (if v != .infinite && Number.plainDigits v.text then
          modify fun p => { p with integerEnd := some p.size } else pure ())
        (pageAfter (chars v.text) (pageAfter wordBreak q)) := rfl
  rw [hrun, hq.clean.wordBreak hq.isOpen]
  split
  · exact (hq.clean.chars v.text).markInteger
  · exact hq.clean.chars v.text

theorem writable_string (v : List Nat) (s : Span) : Writable (.node (.string v) s []) := by
  intro level p hp
  refine addedAt_of_strong hp rfl fun q hq => ?_
  exact ⟨hq.clean.chars _, fun _ _ => hq.clean.noInteger_chars (by simp)⟩

/-! ## Members and calls -/

/-- An operand that stands first is written where the whole is. -/
theorem Page.Takes.takesAt_first {o : Tree} {level : Nat} (h : p.Takes t)
    (hlevel : Level.postfixed ≤ level) (hmember : level < Level.member) : p.TakesAt o level :=
  ⟨h.clean, h.isOpen, hmember, fun c _ => ⟨Nat.le_trans (by decide) hlevel, fun hlt => by
    rw [Tree.sign?, Label.sign?_of_strong (Nat.lt_of_le_of_lt hlevel hlt)]
    simp⟩⟩

theorem writable_member {o : Tree} {w : String} {s s' : Span} (ho : Writable o)
    (hnumber : o.isNumber = false) (hw : w ≠ "") :
    Writable (.node (.member false) s [o, .node (.word w) s' []]) := by
  intro level p hp
  refine addedAt_of_strong hp rfl fun q hq => ?_
  obtain ⟨hadds, hinteger⟩ := ho Level.postfixed q (hq.takesAt_first (by decide) (by decide))
  generalize hq₁ : pageAfter (ofTree o { level := Level.postfixed }) q = q₁ at hadds hinteger
  have hrun : pageAfter (ofTree (.node (.member false) s [o, .node (.word w) s' []])
      { level := level }) q = pageAfter (if q₁.integerEnd == some q₁.size then
        put " " >>= fun _ => put "." >>= fun _ => put w else put "." >>= fun _ => put w) q₁ := by
    rw [← hq₁]
    rfl
  have hmark : (q₁.integerEnd == some q₁.size) = false := by
    rw [beq_eq_false_iff_ne]
    exact fun heq => Nat.lt_irrefl _ (hinteger (by decide) hnumber _ heq)
  rw [hrun, hmark]
  have hdot := hadds.clean.put "."
  refine ⟨?_, fun _ _ => hdot.clean.noInteger_chars (by rwa [Ne, String.toList_eq_nil_iff])⟩
  exact hadds.trans (hdot.trans (hdot.clean.put w))

theorem writable_index {o i : Tree} {s : Span} (ho : Writable o) (hi : Writable i)
    (hlet : o.withoutParens.label ≠ .identifier "let") :
    Writable (.node (.index false) s [o, i]) := by
  intro level p hp
  refine addedAt_of_strong hp rfl fun q hq => ?_
  have hadds := (ho Level.postfixed q (hq.takesAt_first (by decide) (by decide))).adds
  have hplain : isLetName o = false := by
    unfold isLetName
    split
    · exact absurd ‹_› hlet
    · rfl
  have hopen := hadds.clean.fresh_put (s := "[") rfl (by decide)
  have hinner := hi.adds_lowest hopen
  have hrun : pageAfter (ofTree (.node (.index false) s [o, i]) { level := level }) q
      = pageAfter (put "]") (pageAfter (ofTree i {}) (pageAfter (put "[") (pageAfter
        (wrapIf (isLetName o) (ofTree o { level := Level.postfixed })) q))) := rfl
  rw [hrun, hplain]
  refine ⟨?_, fun _ _ => hinner.clean.noInteger_chars (x := [']']) (by simp)⟩
  exact hadds.trans ((hadds.clean.put "[").trans (hinner.trans (hinner.clean.put "]")))

/-- Expressions in a row. -/
theorem adds_commas {ts : List Tree} {level : Nat} (hlevel : level < Level.member)
    (h : ∀ t ∈ ts, Writable t) (hp : p.Fresh) :
    p.Adds (pageAfter (commas (ts.map fun t => ofTree t { level := level })) p)
      (itemList (ts.map (·.spellingAt level))) := by
  induction ts generalizing p with
  | nil => exact hp.clean.adds_nil
  | cons t ts ih =>
    have hadds := (h t List.mem_cons_self level p (hp.takesAt t hlevel)).adds
    cases ts with
    | nil =>
      have htext : itemList ([t].map (·.spellingAt level)) = t.spellingAt level := by
        simp [itemList, furtherItems, led]
      rw [htext]
      exact hadds
    | cons t' ts =>
      have hcomma := hadds.clean.fresh_put (s := ", ") rfl (by decide)
      have hrest := ih (fun x hx => h x (List.mem_cons_of_mem _ hx)) hcomma
      have htext : itemList ((t :: t' :: ts).map (·.spellingAt level))
          = t.spellingAt level
            ++ (", ".toList ++ itemList ((t' :: ts).map (·.spellingAt level))) := by
        simp [itemList, furtherItems, led]
      rw [htext]
      exact hadds.trans ((hadds.clean.put ", ").trans hrest)

/-- Where no comment waits, none is found. -/
theorem run_hasComment (hp : p.comments = []) (offset : Nat) :
    (hasComment offset).run p = (false, p) := by
  show (!(leading p.comments offset).isEmpty, p) = _
  rw [hp]
  rfl

theorem run_filterM_hasComment (hp : p.comments = []) (args : List Part) :
    (args.filterM fun a => hasComment a.start).run p = ([], p) := by
  have haux (args acc : List Part) :
      (List.filterAuxM (fun a => hasComment a.start) args acc).run p = (acc, p) := by
    induction args generalizing acc with
    | nil => rfl
    | cons a args ih =>
      rw [List.filterAuxM, run_bind (run_hasComment hp a.start)]
      exact ih acc
  rw [List.filterM, run_bind (haux args [])]
  rfl

/-- The arguments of a call where no comment waits. -/
theorem adds_arguments {args : List Tree} (hargs : ∀ a ∈ args, Writable a) (hp : p.Clean)
    (stop : Nat) : p.Adds (pageAfter (arguments (args.map fun t => (t, ofTree t)) stop) p)
        ('(' :: (itemList (args.map (·.spellingAt Level.comma)) ++ [')']))
      ∧ (pageAfter (arguments (args.map fun t => (t, ofTree t)) stop) p).NoInteger := by
  have hopen := hp.fresh_put (s := "(") rfl (by decide)
  have hitems := adds_commas (show Level.comma < Level.member by decide) hargs hopen
  have hrun : pageAfter (arguments (args.map fun t => (t, ofTree t)) stop) p
      = pageAfter (put ")")
        (pageAfter (commas (args.map fun t => ofTree t { level := Level.comma }))
          (pageAfter (put "(") p)) := by
    have hmap : ((args.map fun t => (t, ofTree t)).map fun a => Part.level a Level.comma)
        = args.map fun t => ofTree t { level := Level.comma } := List.map_map
    rw [arguments, pageAfter_bind, pageAfter_run (run_filterM_hasComment hopen.clean.comments _),
      pageAfter_run (run_hasComment hopen.clean.comments _), hmap]
    rfl
  rw [hrun]
  exact ⟨(hp.put "(").trans (hitems.trans (hitems.clean.put ")")),
    hitems.clean.noInteger_chars (x := [')']) (by simp)⟩

theorem writable_call {f : Tree} {args : List Tree} {s : Span} (hf : Writable f)
    (hargs : ∀ a ∈ args, Writable a) : Writable (.node (.call false false) s (f :: args)) := by
  intro level p hp
  have hrun : pageAfter (ofTree (.node (.call false false) s (f :: args)) { level := level }) p
      = pageAfter (wrapIf (decide (Level.new ≤ level) || false || false) (do
          if p.defaultStart == some p.size then markDefault
          else if p.statementStart == some p.size then markStatement
          ofTree f { level := Level.postfixed }
          arguments (args.map fun t => (t, ofTree t)) s.stop)) p := by
    rw [ofTree_node]
    rfl
  rw [hrun, Bool.or_false, Bool.or_false]
  have htext : (Tree.node (.call false false) s (f :: args)).spelling = f.spellingAt Level.postfixed
      ++ '(' :: (itemList (args.map (·.spellingAt Level.comma)) ++ [')']) := by
    simp only [Tree.spelling_node, List.map_cons, List.map_map, spell]
    rfl
  -- A mark for a statement or an export changes nothing that the callee asks for.
  have hcallee (q : Page) (hq : q.Takes (.node (.call false false) s (f :: args))) :
      Added (.node (.call false false) s (f :: args)) q (pageAfter (do
        ofTree f { level := Level.postfixed }
        arguments (args.map fun t => (t, ofTree t)) s.stop) q) := by
    have hadds := (hf Level.postfixed q (hq.takesAt_first (by decide) (by decide))).adds
    obtain ⟨hlist, hinteger⟩ := adds_arguments hargs hadds.clean s.stop
    refine ⟨?_, fun _ _ => hinteger⟩
    rw [htext]
    exact hadds.trans hlist
  refine addedAt_wrapIf hp fun q hq => ?_
  split
  · obtain ⟨hadds, hinteger⟩ := hcallee { q with defaultStart := some q.size }
      ⟨⟨hq.clean.comments, hq.clean.regex, hq.clean.sign, hq.clean.integer⟩, hq.isOpen, hq.sign⟩
    exact ⟨⟨hadds.reversed, hadds.size, hadds.clean⟩, hinteger⟩
  · split
    · obtain ⟨hadds, hinteger⟩ := hcallee { q with statementStart := some q.size }
        ⟨⟨hq.clean.comments, hq.clean.regex, hq.clean.sign, hq.clean.integer⟩, hq.isOpen, hq.sign⟩
      exact ⟨⟨hadds.reversed, hadds.size, hadds.clean⟩, hinteger⟩
    · exact hcallee q hq

/-! ## Operators -/

/-- Nothing is put before a sign that follows no equal one. -/
theorem signBreak_eq {c : Char} (h : c = '+' ∨ c = '-' → p.signEnd ≠ some (p.size, c)) :
    pageAfter (signBreak c) p = p := by
  show pageAfter (if p.signEnd == some (p.size, c) && (c == '+' || c == '-') then put " "
    else pure ()) p = p
  split
  · rename_i hclash
    simp only [Bool.and_eq_true, Bool.or_eq_true, beq_iff_eq] at hclash
    exact absurd hclash.1 (h hclash.2)
  · rfl

/-- A sign that follows an equal one is set off. -/
theorem signBreak_clash {c : Char} (h : p.signEnd = some (p.size, c)) (hc : c = '+' ∨ c = '-') :
    pageAfter (signBreak c) p = pageAfter (put " ") p := by
  show pageAfter (if p.signEnd == some (p.size, c) && (c == '+' || c == '-') then put " "
    else pure ()) p = _
  rw [if_pos (by rcases hc with rfl | rfl <;> simp [h])]

theorem sign?_cases {c : Char} (h : t.sign? = some c) : c = '+' ∨ c = '-' := by
  unfold Tree.sign? Label.sign? at h
  split at h
  case h_1 => exact .inl (Option.some.inj h).symm
  case h_2 => exact .inr (Option.some.inj h).symm
  case h_3 op _ _ =>
    cases op with
    | increment => exact .inl (Option.some.inj h).symm
    | decrement => exact .inr (Option.some.inj h).symm
  case h_4 => cases h

theorem sign?_strong {c : Char} (h : t.sign? = some c) : Level.exponentiation < t.strength := by
  unfold Tree.sign? Label.sign? at h
  unfold Tree.strength
  split at h
  case h_3 _ before heq => rw [heq]; cases before <;> exact Nat.le_of_ble_eq_true rfl
  case h_4 => cases h
  all_goals (rename_i heq; rw [heq]; decide)

/-- Parentheses of the source are not printed. -/
theorem ofTree_withoutParens (t : Tree) (m : Mode) : ofTree t.withoutParens m = ofTree t m := by
  fun_induction Tree.withoutParens t with
  | case1 s t ih => exact ih
  | case2 => rfl

/-- An expression with a sign starts with a break before it. -/
theorem exists_signBreak {level : Nat} {c : Char} (h : t.sign? = some c)
    (hlevel : level < t.strength) : ∃ w : Writer Unit, ∀ p,
      pageAfter (ofTree t { level := level }) p = pageAfter w (pageAfter (signBreak c) p) := by
  unfold Tree.sign? at h
  unfold Tree.strength at hlevel
  simp only [← ofTree_withoutParens t]
  generalize t.withoutParens = u at h hlevel
  obtain ⟨l, s, cs⟩ := u
  replace h : l.sign? = some c := h
  have hweak : ¬ l.strength ≤ level := Nat.not_le.mpr hlevel
  let first : Part := nth (cs.map fun t => (t, ofTree t)) 0
  have hunwrapped {b : Bool} (hb : b = decide (l.strength ≤ level)) (w : Writer Unit) (p : Page) :
      pageAfter (wrapIf b w) p = pageAfter w p := by
    rw [hb, decide_eq_false hweak]
    rfl
  simp only [ofTree_node]
  unfold Label.sign? at h
  split at h
  case h_1 =>
    cases h
    exact ⟨do put "+"; markSign '+'; first.print { level := Level.exponentiation },
      fun p => hunwrapped rfl _ p⟩
  case h_2 =>
    cases h
    exact ⟨do put "-"; markSign '-'; first.print { level := Level.exponentiation },
      fun p => hunwrapped rfl _ p⟩
  case h_3 _ op before =>
    cases h
    cases before with
    | true => exact ⟨do put op.text; first.print { level := Level.prefixed },
        fun p => hunwrapped rfl _ p⟩
    | false => exact ⟨do first.print { level := Level.postfixed }; put op.text,
        fun p => hunwrapped rfl _ p⟩
  case h_4 => cases h

/-- Behind an equal sign, an expression with a sign is set off. -/
theorem pageAfter_clash {level : Nat} {c : Char} (h : t.sign? = some c)
    (hlevel : level < t.strength) (hp : p.Clean) (hclash : p.signEnd = some (p.size, c)) :
    pageAfter (ofTree t { level := level }) p
      = pageAfter (ofTree t { level := level }) (pageAfter (put " ") p) := by
  obtain ⟨w, hw⟩ := exists_signBreak h hlevel
  have hfresh := hp.fresh_put (s := " ") rfl (by decide)
  rw [hw, hw, signBreak_clash hclash (sign?_cases h),
    signBreak_eq fun _ heq => Nat.lt_irrefl _ (hfresh.unsigned _ heq)]

theorem writable_update {op : UpdateOp} {before : Bool} {t : Tree} {s : Span} (ht : Writable t) :
    Writable (.node (.update op before) s [t]) := by
  intro level p hp
  have hsign (q : Page) (hq : q.Takes (.node (.update op before) s [t])) :
      pageAfter (signBreak op.text.front) q = q :=
    signBreak_eq fun _ heq => (hq.sign _ heq).2 rfl
  cases before with
  | true =>
    refine addedAt_wrapIf (w := do
      signBreak op.text.front; put op.text; ofTree t { level := Level.prefixed }) hp
      fun q hq => ⟨?_, fun h => absurd h (Nat.not_lt.mpr (Nat.le_of_ble_eq_true rfl))⟩
    have hfresh : (pageAfter (put op.text) q).Fresh := by
      cases op <;> exact hq.clean.fresh_put rfl (by decide)
    rw [pageAfter_bind, hsign q hq]
    exact (hq.clean.put op.text).trans (ht Level.prefixed _ (hfresh.takesAt t (by decide))).adds
  | false =>
    refine addedAt_wrapIf (w := do
      signBreak op.text.front; ofTree t { level := Level.postfixed }; put op.text) hp
      fun q hq => ⟨?_, fun h => absurd h (Nat.not_lt.mpr (Nat.le_of_ble_eq_true rfl))⟩
    rw [pageAfter_bind, hsign q hq]
    have hadds := (ht Level.postfixed q (hq.takesAt_first (by decide) (by decide))).adds
    exact hadds.trans (hadds.clean.put op.text)

/-- The operator of a prefix form, up to its operand. -/
def prefixText (op : UnaryOp) : Writer Unit :=
  if op.isWord then do
    word op.text
    put " "
  else do
    signBreak op.text.front
    put op.text
    markSign op.text.front

theorem pageAfter_unary {op : UnaryOp} {t : Tree} {s : Span} (hoverflow : isOverflow t = false)
    (level : Nat) (p : Page) : pageAfter (ofTree (.node (.unary op) s [t]) { level := level }) p
      = pageAfter (wrapIf (decide (Level.prefixed ≤ level)) (do
        prefixText op
        ofTree t { level := Level.exponentiation })) p := by
  have hdelete : (decide (op = .delete) && isOverflow t) = false := by
    rw [hoverflow, Bool.and_false]
  rw [ofTree_node]
  show pageAfter (unaryForm op [(t, ofTree t)] { level := level }) p = _
  unfold unaryForm
  dsimp only
  rw [show (nth [(t, ofTree t)] 0).tree = t from rfl, hdelete]
  cases op <;> rfl

theorem writable_unary {op : UnaryOp} {t : Tree} {s : Span} (ht : Writable t)
    (hoverflow : isOverflow t = false) : Writable (.node (.unary op) s [t]) := by
  intro level p hp
  rw [pageAfter_unary hoverflow]
  refine addedAt_wrapIf hp fun q hq =>
    ⟨?_, fun h => absurd h (Nat.not_lt.mpr (Nat.le_of_ble_eq_true rfl))⟩
  have htext : (Tree.node (.unary op) s [t]).spelling
      = op.text.toList ++ (prefixGap op t ++ t.spellingAt Level.exponentiation) := by
    rw [Tree.spelling_node]
    rfl
  rw [htext, pageAfter_bind]
  by_cases hword : op.isWord = true
  · have hspace := (hq.clean.put op.text).clean.fresh_put (s := " ") rfl (by decide)
    rw [prefixText, if_pos hword, pageAfter_bind, hq.clean.word hq.isOpen, prefixGap, hword]
    exact (hq.clean.put op.text).trans (((hq.clean.put op.text).clean.put " ").trans
      (ht _ _ (hspace.takesAt t (by decide))).adds)
  · have hsign : pageAfter (signBreak op.text.front) q = q := by
      refine signBreak_eq fun hc heq => (hq.sign _ heq).2 ?_
      cases op with
      | plus | minus => rfl
      | not | bitNot => exact absurd hc (by decide)
      | typeof | void | delete => exact absurd rfl hword
    have hput : q.Adds (pageAfter (put op.text) q) op.text.toList := hq.clean.put op.text
    have hfresh : (pageAfter (put op.text) q).Fresh := by
      cases op with
      | plus | minus | not | bitNot => exact hq.clean.fresh_put rfl (by decide)
      | typeof | void | delete => exact absurd rfl hword
    have hmarked : q.Adds (pageAfter (markSign op.text.front) (pageAfter (put op.text) q))
        op.text.toList :=
      ⟨hput.reversed, hput.size, hput.clean.comments, hput.clean.regex,
        by rintro x ⟨⟩; exact Nat.le_refl _, hput.clean.integer⟩
    rw [prefixText, if_neg hword, pageAfter_bind, pageAfter_bind, hsign, prefixGap,
      Bool.eq_false_iff.mpr hword, Bool.false_or]
    by_cases hclash : t.sign? = some op.text.front
    · have hspace := hmarked.clean.fresh_put (s := " ") rfl (by decide)
      rw [pageAfter_clash hclash (sign?_strong hclash) hmarked.clean rfl, hclash, beq_self_eq_true]
      exact hmarked.trans ((hmarked.clean.put " ").trans
        (ht _ _ (hspace.takesAt t (by decide))).adds)
    · have htakes : (pageAfter (markSign op.text.front) (pageAfter (put op.text) q)).TakesAt t
          Level.exponentiation := by
        refine ⟨hmarked.clean, hfresh.isOpen, by decide, fun c hc => ⟨Nat.le_refl _, fun _ => ?_⟩⟩
        obtain rfl : op.text.front = c := (Prod.mk.inj (Option.some.inj hc)).2
        exact hclash
      rw [beq_eq_false_iff_ne.mpr hclash]
      exact hmarked.trans (ht _ _ htakes).adds

/-! ### Between two sides -/

/-- Two sides and what stands between them. -/
theorem adds_sides {a b : Tree} {la lb : Nat} {between : String} (ha : Writable a)
    (hb : Writable b) (hla : la < Level.member) (hlb : lb < Level.member)
    (hbetween : between.toList.getLast? = some ' ') (hp : p.Fresh) :
    p.Adds (pageAfter (do
      ofTree a { level := la }
      put between
      ofTree b { level := lb }) p) (a.spellingAt la ++ (between.toList ++ b.spellingAt lb)) := by
  have hfirst := (ha la p (hp.takesAt a hla)).adds
  have hfresh := hfirst.clean.fresh_put hbetween (by decide)
  exact hfirst.trans ((hfirst.clean.put between).trans (hb lb _ (hfresh.takesAt b hlb)).adds)

theorem infixForm_eq {a b : Tree} (ha : Plain a) (wrapped : Bool) (level : Nat) (op : String)
    (la lb : Nat) : infixForm wrapped { level := level } op (a, ofTree a) (b, ofTree b) la lb
      = wrapIf wrapped (do
        ofTree a { level := la }
        put (" " ++ op ++ " ")
        ofTree b { level := lb }) := by
  have hprivate : isPrivateTest a = false := by
    unfold isPrivateTest
    split
    · exact absurd ‹_› ha.core_label.2.1
    · rfl
  unfold infixForm
  rw [show Part.tree (a, ofTree a) = a from rfl, hprivate]
  rfl

/-- An operator between its sides. -/
theorem adds_operator {a b : Tree} {la lb : Nat} {op : String} (ha : Writable a) (hb : Writable b)
    (hla : la < Level.member) (hlb : lb < Level.member) (hp : p.Fresh) :
    p.Adds (pageAfter (do
      ofTree a { level := la }
      put (" " ++ op ++ " ")
      ofTree b { level := lb }) p) (a.spellingAt la ++ (spaced op ++ b.spellingAt lb)) := by
  have htext : (" " ++ op ++ " ").toList = spaced op := by simp [spaced]
  have hlast : (" " ++ op ++ " ").toList.getLast? = some ' ' := by
    rw [htext, spaced, ← List.cons_append]
    exact List.getLast?_concat
  have hadds := adds_sides ha hb hla hlb hlast hp
  rwa [htext] at hadds

theorem writable_binary {op : BinaryOp} {a b : Tree} {s : Span} (hplain : Plain a)
    (ha : Writable a) (hb : Writable b) : Writable (.node (.binary op) s [a, b]) := by
  intro level p hp
  have hrun : ofTree (.node (.binary op) s [a, b]) { level := level }
      = wrapIf (decide (op.level ≤ level)) (do
        ofTree a { level := binaryLeftLevel op a }
        put (" " ++ op.text ++ " ")
        ofTree b { level := (binarySides op).2 }) := by
    rw [ofTree_node, ← infixForm_eq hplain _ level]
    show infixForm (decide (op.level ≤ level) || (decide (op = .isIn) && false)) _ _ _ _ _ _ = _
    rw [Bool.and_false, Bool.or_false]
    rfl
  have hlevels : binaryLeftLevel op a < Level.member ∧ (binarySides op).2 < Level.member := by
    cases op with
    | exp =>
      unfold binaryLeftLevel
      dsimp only
      split <;> decide
    | _ => exact ⟨Nat.le_of_ble_eq_true rfl, Nat.le_of_ble_eq_true rfl⟩
  have htext : (Tree.node (.binary op) s [a, b]).spelling = a.spellingAt (binaryLeftLevel op a)
      ++ (spaced op.text ++ b.spellingAt (binarySides op).2) := by
    rw [Tree.spelling_node]
    rfl
  have hweak : (Tree.node (.binary op) s [a, b]).strength ≤ Level.exponentiation :=
    op.level_bounds.2
  rw [hrun]
  refine addedAt_wrapIf hp fun q hq =>
    ⟨?_, fun h => absurd (Nat.lt_of_lt_of_le h hweak) (by decide)⟩
  rw [htext]
  exact adds_operator ha hb hlevels.1 hlevels.2 (hq.fresh hweak)

theorem logicalSideLevel_lt (op : LogicalOp) (t : Tree) :
    logicalSideLevel op t < Level.member := by
  have hlevel : op.level - 1 < Level.member := by cases op <;> decide
  unfold logicalSideLevel
  split
  · decide
  · decide
  · exact hlevel

theorem writable_logical {op : LogicalOp} {a b : Tree} {s : Span} (hplain : Plain a)
    (ha : Writable a) (hb : Writable b) : Writable (.node (.logical op) s [a, b]) := by
  intro level p hp
  have hrun : ofTree (.node (.logical op) s [a, b]) { level := level }
      = wrapIf (decide (op.level ≤ level)) (do
        ofTree a { level := logicalSideLevel op a }
        put (" " ++ op.text ++ " ")
        ofTree b { level := logicalSideLevel op b }) := by
    rw [ofTree_node, ← infixForm_eq hplain _ level]
    rfl
  have htext : (Tree.node (.logical op) s [a, b]).spelling = a.spellingAt (logicalSideLevel op a)
      ++ (spaced op.text ++ b.spellingAt (logicalSideLevel op b)) := by
    rw [Tree.spelling_node]
    rfl
  have hweak : (Tree.node (.logical op) s [a, b]).strength ≤ Level.exponentiation :=
    Nat.le_trans op.level_bounds.2 (by decide)
  rw [hrun]
  refine addedAt_wrapIf hp fun q hq =>
    ⟨?_, fun h => absurd (Nat.lt_of_lt_of_le h hweak) (by decide)⟩
  rw [htext]
  exact adds_operator ha hb (logicalSideLevel_lt op a) (logicalSideLevel_lt op b) (hq.fresh hweak)

theorem writable_conditional {a b c : Tree} {s : Span} (ha : Writable a) (hb : Writable b)
    (hc : Writable c) : Writable (.node .conditional s [a, b, c]) := by
  intro level p hp
  have hweak : (Tree.node .conditional s [a, b, c]).strength ≤ Level.exponentiation :=
    Nat.le_of_ble_eq_true rfl
  refine addedAt_wrapIf hp fun q hq =>
    ⟨?_, fun h => absurd (Nat.lt_of_lt_of_le h hweak) (by decide)⟩
  have hfirst := (ha Level.conditional q ((hq.fresh hweak).takesAt a (by decide))).adds
  have hfresh := hfirst.clean.fresh_put (s := " ? ") rfl (by decide)
  have hyield : Level.yield < Level.member := by decide
  have hcolon : " : ".toList.getLast? = some ' ' := rfl
  have hsides := adds_sides hb hc hyield hyield hcolon hfresh
  have htext : (Tree.node .conditional s [a, b, c]).spelling
      = a.spellingAt Level.conditional ++ (spaced "?"
        ++ (b.spellingAt Level.yield ++ (spaced ":" ++ c.spellingAt Level.yield))) := by
    rw [Tree.spelling_node]
    rfl
  rw [htext]
  exact hfirst.trans ((hfirst.clean.put " ? ").trans hsides)

theorem writable_assign {op : AssignOp} {t v : Tree} {s : Span} (ht : Writable t)
    (hv : Writable v) (htarget : t.label.isReference = true) :
    Writable (.node (.assign op) s [t, v]) := by
  intro level p hp
  -- A variable or member is no pattern, so that it does not matter where the assignment stands.
  have hrun : pageAfter (ofTree (.node (.assign op) s [t, v]) { level := level }) p
      = pageAfter (wrapIf (decide (Level.assign ≤ level)) (do
        ofTree t { level := Level.comma }
        put (" " ++ op.text ++ " ")
        ofTree v { level := Level.comma })) p := by
    obtain ⟨l, s', cs⟩ := t
    rw [ofTree_node]
    have hplain : isObjectTarget (.node l s' cs) = false ∧ Part.target (Tree.node l s' cs,
        ofTree (.node l s' cs)) { level := Level.comma }
          = ofTree (.node l s' cs) { level := Level.comma } := by
      obtain ⟨w, rfl⟩ | rfl | rfl := Label.isReference_cases htarget <;> exact ⟨rfl, rfl⟩
    show pageAfter (wrapIf ((_ && isObjectTarget (.node l s' cs)) || decide (Level.assign ≤ level))
      (do
        Part.target (Tree.node l s' cs, ofTree (.node l s' cs)) { level := Level.comma }
        put (" " ++ op.text ++ " ")
        ofTree v { level := Level.comma })) p = _
    rw [hplain.1, hplain.2, Bool.and_false, Bool.false_or]
  have htext : (Tree.node (.assign op) s [t, v]).spelling = t.spellingAt Level.comma
      ++ (spaced op.text ++ v.spellingAt Level.comma) := by
    rw [Tree.spelling_node]
    rfl
  have hweak : (Tree.node (.assign op) s [t, v]).strength ≤ Level.exponentiation :=
    Nat.le_of_ble_eq_true rfl
  rw [hrun]
  refine addedAt_wrapIf hp fun q hq =>
    ⟨?_, fun h => absurd (Nat.lt_of_lt_of_le h hweak) (by decide)⟩
  rw [htext]
  exact adds_operator ht hv (by decide) (by decide) (hq.fresh hweak)

theorem writable_sequence {ts : List Tree} {s : Span} (h : ∀ t ∈ ts, Writable t) :
    Writable (.node .sequence s ts) := by
  intro level p hp
  have hrun : pageAfter (ofTree (.node .sequence s ts) { level := level }) p
      = pageAfter (wrapIf (decide (Level.comma ≤ level))
        (commas (ts.map fun t => ofTree t { level := Level.lowest }))) p := by
    rw [ofTree_node]
    show pageAfter (wrapIf _ (commas ((ts.map fun t => (t, ofTree t)).map _))) p = _
    rw [List.map_map]
    rfl
  have htext : (Tree.node .sequence s ts).spelling
      = itemList (ts.map (·.spellingAt Level.lowest)) := by
    rw [Tree.spelling_node]
    show itemList ((ts.map fun t => (t, t.spelling)).map (·.2)) = _
    rw [List.map_map]
    refine congrArg itemList (List.map_congr_left fun t _ => ?_)
    exact (Tree.spellingAt_of_lt (Label.strength_bounds _).1).symm
  have hweak : (Tree.node .sequence s ts).strength ≤ Level.exponentiation :=
    Nat.le_of_ble_eq_true rfl
  rw [hrun]
  refine addedAt_wrapIf hp fun q hq =>
    ⟨?_, fun h => absurd (Nat.lt_of_lt_of_le h hweak) (by decide)⟩
  rw [htext]
  exact adds_commas (by decide) h (hq.fresh hweak)

/-! ## Plain expressions -/

/-- Plain numbers are small. -/
theorem isOverflow_eq_false {t : Tree} (h : Plain t) : isOverflow t = false := by
  cases h with
  | keyword h =>
    simp only [keywordValues, List.mem_cons, Prod.mk.injEq, List.not_mem_nil, or_false] at h
    rcases h with ⟨rfl, rfl⟩ | ⟨rfl, rfl⟩ | ⟨rfl, rfl⟩ | ⟨rfl, rfl⟩ <;> rfl
  | @number n s h =>
    have hfinite := Number.ofNat_ne_infinite (Nat.lt_trans h (by decide : 1000 < Nat.pow 2 52))
    unfold isOverflow
    split
    · rename_i heq
      exact absurd (Label.number.inj heq) hfinite
    · rfl
  | _ => rfl

/-- Plain expressions are written as they are spelled. -/
theorem writable_of_plain {t : Tree} (h : Plain t) : Writable t := by
  induction h with
  | @name w s hw =>
    intro level p hp
    exact addedAt_of_strong hp rfl fun q hq => added_word (Tree.spelling_node ..) hw.name.2.2 hq
  | @keyword l w s h =>
    intro level p hp
    simp only [keywordValues, List.mem_cons, Prod.mk.injEq, List.not_mem_nil, or_false] at h
    rcases h with ⟨rfl, rfl⟩ | ⟨rfl, rfl⟩ | ⟨rfl, rfl⟩ | ⟨rfl, rfl⟩ <;>
      exact addedAt_of_strong hp rfl fun q hq => added_word (Tree.spelling_node ..) (by decide) hq
  | number h => exact writable_number _ _
  | string h => exact writable_string _ _
  | @paren t s h ih =>
    intro level p hp
    have hsame : ofTree (.node .paren s [t]) = ofTree t := by
      funext m
      rw [ofTree_node]
      rfl
    obtain ⟨hadds, hinteger⟩ :=
      ih level p ⟨hp.clean, hp.isOpen, hp.level_lt, by simpa using hp.sign⟩
    rw [hsame]
    exact ⟨by rwa [Tree.spellingAt_paren], by rwa [Tree.isNumber_paren]⟩
  | member h hnumber hw ih => exact writable_member ih hnumber hw.2.2
  | index h hi ih ihi => exact writable_index ih ihi h.core_label.2.2
  | call h hargs ih ihargs => exact writable_call ih ihargs
  | unary h ih => exact writable_unary ih (isOverflow_eq_false h)
  | update h ht ih => exact writable_update ih
  | binary ha hb iha ihb => exact writable_binary ha iha ihb
  | logical ha hb hright iha ihb => exact writable_logical ha iha ihb
  | conditional ha hb hc iha ihb ihc => exact writable_conditional iha ihb ihc
  | assign ht hv htarget hop iht ihv => exact writable_assign iht ihv htarget
  | sequence h hflat ih => exact writable_sequence ih

/-! ## A program of one expression -/

/-- Where no comment waits, none is printed. -/
theorem pageAfter_commentsAt (hp : p.comments = []) (offset : Nat) :
    pageAfter (commentsAt offset) p = p := by
  obtain ⟨_, _, _, _, _, _, _, _, _, _, comments⟩ := p
  obtain rfl : comments = [] := hp
  rfl

/-- A statement on its own. -/
theorem pageAfter_program {e : Tree} (s s' : Span) (p : Page) :
    pageAfter (ofTree (.node .program s [.node .expressionStatement s' [e]]) {}) p
      = pageAfter (commentsAt s.stop)
        (match stringStatement? (.node .expressionStatement s' [e]) with
        | some v => pageAfter (put ");\n") (pageAfter (string v) (pageAfter (put "(") p))
        | none => pageAfter (put ";\n") (pageAfter (ofTree e {}) (pageAfter markStatement
          (pageAfter indent (pageAfter (commentsAt s'.start) p))))) := by
  have hlist : pageAfter (ofTree (.node .program s [.node .expressionStatement s' [e]]) {}) p
      = pageAfter (commentsAt s.stop)
        (pageAfter (statementList [(.node .expressionStatement s' [e],
          ofTree (.node .expressionStatement s' [e]))] {}) p) := by
    rw [ofTree_node]
    rfl
  rw [hlist]
  unfold statementList
  dsimp only [Part.tree]
  cases stringStatement? (.node .expressionStatement s' [e]) with
  | some v => rfl
  | none =>
    dsimp only [Part.print]
    rw [ofTree_node]
    rfl

theorem text_of_plain {e : Tree} (h : Plain e) (s s' : Span) (flaws : List Nat) :
    (Program.mk (.node .program s [.node .expressionStatement s' [e]]) [] flaws).text
      = e.statementSpelling ++ [';', '\n'] := by
  have hblank : (Page.blank []).Clean := ⟨rfl, rfl, nofun, nofun⟩
  show (pageAfter (ofTree (.node .program s [.node .expressionStatement s' [e]]) {})
    (Page.blank [])).reversed.reverse = _
  rw [pageAfter_program, Tree.statementSpelling]
  -- The page ends with the text, and no comment waits before it or behind it.
  have hdone {q : Page} {x : List Char} (hq : (Page.blank []).Adds q x) :
      (pageAfter (commentsAt s.stop) q).reversed.reverse = x := by
    rw [pageAfter_commentsAt hq.clean.comments, hq.reversed]
    simp [Page.blank]
  rw [show stringStatement? (.node .expressionStatement s' [e]) = e.string? from rfl]
  cases hstring : e.string? with
  | some v =>
    have hopened := hblank.put "("
    have hquoted := hopened.clean.chars ('"' :: (guardClosingTag (stringText v) ++ ['"']))
    refine (hdone (hopened.trans (hquoted.trans (hquoted.clean.put ");\n")))).trans ?_
    simp [Tree.spelling_of_string? hstring, enclosed]
  | none =>
    have hstart : pageAfter markStatement (pageAfter indent (pageAfter (commentsAt s'.start)
        (Page.blank []))) = { Page.blank [] with statementStart := some 0 } := by
      rw [pageAfter_commentsAt rfl]
      rfl
    dsimp only
    rw [hstart]
    have hadds := (writable_of_plain h).adds_lowest
      (p := { Page.blank [] with statementStart := some 0 })
      ⟨⟨rfl, rfl, nofun, nofun⟩, nofun, nofun⟩
    obtain ⟨hreversed, hsize, hclean⟩ := hadds.trans (hadds.clean.put ";\n")
    exact hdone ⟨hreversed, hsize, hclean⟩

end Reactive.Script.Printer
