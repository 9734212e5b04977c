/-
  Expressions put into other texts.

  The compiled component holds expressions where a value is asked for, as arguments of calls. An
  expression that is printed anew is one value there, whatever its form: a sequence and a string of
  their own get parentheses, and nothing else ends before its text does. Text that is not printed
  anew stands for itself, and then a comma in it separates arguments.
-/
import Reactive.Proofs.Script.Body
import Reactive.Proofs.Script.Moved
import Reactive.Proofs.Script.Printing
import Reactive.Proofs.Script.Rereading
import Reactive.Proofs.Source.Splitting
import Reactive.Script.Snippet

namespace Reactive.Script

open Reactive.Script.Parser Reactive.Script.Printer Reactive.Text

/-! ## The printed text -/

/-- What is no blank for the parser is none for trimming. -/
theorem isBlank_of_isSolid {c : Char} (h : isSolid c = true) : isBlank c = false := by
  cases hblank : isBlank c with
  | false => rfl
  | true =>
    exfalso
    simp only [isBlank, Bool.or_eq_true, Bool.and_eq_true, decide_eq_true_eq, beq_iff_eq] at hblank
    simp only [isSolid, isSpace, isLineEnd, Bool.and_eq_true, Bool.not_eq_true',
      Bool.or_eq_false_iff, Bool.and_eq_false_iff, decide_eq_false_iff_not, beq_eq_false_iff_ne,
      ne_eq, ← Char.toNat_inj] at h
    have hchars : '\n'.toNat = 10 ∧ '\r'.toNat = 13 ∧ '\u2028'.toNat = 0x2028
        ∧ '\u2029'.toNat = 0x2029 := by decide
    omega

/-- The text of an expression where it is put as one value. -/
def Tree.inserted (e : Tree) : List Char :=
  if isSequence e then enclosed e.statementSpelling else e.statementSpelling

/-- The text of an expression starts with no blank. -/
theorem head_statementSpelling {e : Tree} (he : Plain e) :
    ∀ c ∈ (e.statementSpelling ++ [';']).head?, isBlank c = false := by
  unfold Tree.statementSpelling
  split
  · rintro _ ⟨⟩
    decide
  · obtain ⟨p, ps, hspelling, hps, -⟩ := (readable_of_plain he).listed
    obtain ⟨k, -, hbehind⟩ := behind_furtherItems (ps.map (·.1)) []
    obtain ⟨k₁, behind, hscans, -⟩ := ((hps p List.mem_cons_self).leads _ k hbehind).first
    have hsolid := hscans.solid
    rw [← List.append_assoc] at hsolid
    rw [hspelling]
    change ∀ c ∈ ((p.1 ++ furtherItems (ps.map (·.1))) ++ [';']).head?, isBlank c = false
    cases htext : p.1 ++ furtherItems (ps.map (·.1)) with
    | nil =>
      rintro _ ⟨⟩
      decide
    | cons c cs =>
      rw [htext] at hsolid
      rintro _ ⟨⟩
      exact isBlank_of_isSolid hsolid

/-- The line end behind a statement is trimmed away, and its semicolon is dropped. -/
theorem dropSemicolon_trim {x : List Char} (hx : ∀ c ∈ (x ++ [';']).head?, isBlank c = false) :
    dropSemicolon (trim (x ++ [';', '\n'])) = x := by
  have htrim : trim (x ++ [';']) = x ++ [';'] := by
    refine trim_eq_self hx ?_
    rw [List.getLast?_concat]
    rintro _ ⟨⟩
    decide
  have hline : trim ([] ++ (x ++ [';']) ++ ['\n']) = x ++ [';'] :=
    trim_padded rfl rfl htrim (by simp)
  rw [List.nil_append, List.append_assoc] at hline
  rw [show [';', '\n'] = [';'] ++ ['\n'] from rfl, hline, dropSemicolon, List.getLast?_concat]
  exact List.dropLast_concat

/-- The program is one expression without comments. -/
structure Program.Holds (p : Program) (e : Tree) : Prop where
  tree : ∃ s s', p.tree = .node .program s [.node .expressionStatement s' [e]]
  comments : p.comments = []

theorem printExpression_of_plain {code : String} {p : Program} {e : Tree}
    (hcode : sound? code.toList = some p) (hp : p.Holds e) (he : Plain e) :
    printExpression code = String.ofList e.inserted := by
  obtain ⟨tree, comments, flaws⟩ := p
  obtain ⟨⟨s, s', rfl⟩, rfl⟩ := hp
  have hsole :
      (Program.mk (.node .program s [.node .expressionStatement s' [e]]) [] flaws).soleExpression?
        = some e := rfl
  rw [printExpression, hcode]
  dsimp only
  rw [hsole]
  dsimp only
  rw [text_of_plain he, dropSemicolon_trim (head_statementSpelling he), Tree.inserted, enclosed]
  rfl

theorem isSequence_iff (e : Tree) : isSequence e = true ↔ e.withoutParens.label = .sequence := by
  unfold isSequence
  split <;> simp_all

/-- What is inserted is printed as if something around it bound with a level: a string on its own as
if nothing bound stronger, everything else as if commas stood around it. -/
theorem inserted_eq (e : Tree) :
    ∃ level, Level.comma ≤ level ∧ e.inserted = e.spellingAt level := by
  unfold Tree.inserted Tree.statementSpelling
  by_cases hsequence : isSequence e = true
  · have hlabel := (isSequence_iff e).mp hsequence
    have hstring : e.string? = none := by rw [Tree.string?, hlabel]
    have hstrength : e.strength = Level.comma := by rw [Tree.strength, hlabel]; rfl
    rw [if_pos hsequence, hstring, if_neg (by decide)]
    exact ⟨Level.comma, Nat.le_refl _, (Tree.spellingAt_of_le (Nat.le_of_eq hstrength)).symm⟩
  · rw [if_neg hsequence]
    split
    · exact ⟨Level.member, by decide, (Tree.spellingAt_of_le (Label.strength_bounds _).2).symm⟩
    · refine ⟨Level.comma, Nat.le_refl _, (Tree.spellingAt_of_lt ?_).symm⟩
      exact Label.comma_lt_strength fun h => hsequence ((isSequence_iff e).mpr h)

/-- What is inserted is read as one value, the expression it was printed from. -/
theorem fits_inserted {e : Tree} (he : Plain e) :
    Entry.Fits (e.inserted, fun t => t.bare = e.bare) := by
  obtain ⟨level, hlevel, htext⟩ := inserted_eq e
  rw [htext]
  exact ((readable_of_plain he).fitsAt level hlevel).entry.mono fun _ h => h.1

/-! ## Calls as programs -/

/-- The end of the text ends a statement. -/
theorem reads_endStatement_end : Reads endStatement .module [] [] fun _ => True := by
  have hend : Reads canEnd .module [] [] (· = true) := by
    refine .bind (.token behind_end.opens) fun t ht => ?_
    rw [ht]
    exact .pure rfl
  refine .bind (.eatPunct_other behind_end.opens (by decide)) ?_
  rintro _ rfl
  refine .bind hend ?_
  rintro _ rfl
  exact .pure trivial

/-- A call at the end of the text is a statement. -/
theorem reads_callStatement {b d : Nat} {w : String} {tail : List Char} {Q : Tree → Prop}
    (hw : IsVariable w) (htail : EndsName tail) (h : Entry.Fits (w.toList ++ tail, Q))
    (hQ : ∀ t, Q t → t.label = .call false false) (hb : (w.toList ++ tail).length < b)
    (hd : (w.toList ++ tail).length ≤ d) :
    Reads (statementRule (rules b d) .list) .module (w.toList ++ tail) []
      fun t => ∃ s t', Q t' ∧ t = .node .expressionStatement s [t'] := by
  have hstarts := (scans_name hw.name tail htail).starts [] (by simp)
  have htext : itemList [w.toList ++ tail] = w.toList ++ tail := by
    simp [itemList, furtherItems, led]
  have hfits : ∀ q ∈ [(w.toList ++ tail, Q)], Entry.Fits q := by simpa using h
  have hexpression := reads_list hfits (by simpa [htext] using hb) (by simpa [htext] using hd)
    (List.forall_mem_nil _) behind_end (by decide) (by decide)
  rw [List.map_cons, List.map_nil, htext, List.append_nil, List.nil_append] at hexpression
  refine reads_statement hstarts (reads_plainStatement_word hw hstarts.opens ?_)
  refine .start_bind fun begin => .bind hexpression ?_
  rintro _ ⟨s', ts, hts, rfl⟩
  obtain _ | ⟨ht, ⟨⟩⟩ := hts
  rename_i t
  have hlabel := hQ t ht
  have hdone : Reads (expressionEnd begin t) .module [] []
      fun t => ∃ s t', Q t' ∧ t = .node .expressionStatement s [t'] := by
    refine .bind reads_endStatement_end fun _ _ => (Reads.node _ _ _).mono ?_
    rintro _ ⟨s, rfl⟩
    exact ⟨s, t, ht, rfl⟩
  -- A call is no label of a statement.
  obtain ⟨l, s₁, cs⟩ := t
  obtain rfl : l = .call false false := hlabel
  exact hdone

/-- A text that is a call is a program of that call. -/
theorem soundModule_of_call {w : String} {tail : List Char} {Q : Tree → Prop} (hw : IsVariable w)
    (htail : EndsName tail) (h : Entry.Fits (w.toList ++ tail, Q))
    (hQ : ∀ t, Q t → t.label = .call false false) :
    ∃ p t, soundModule (w.toList ++ tail) = .ok p ∧ p.soleExpression? = some t ∧ Q t := by
  have hstarts : Starts (w.toList ++ tail) (.word w) tail :=
    (scans_name hw.name tail htail).starts [] (by simp)
  have hsource : hashbangAt ⟨w.toList ++ tail, 0⟩ = none := by
    obtain ⟨c, cs, hcs, hfirst, -⟩ := hw.name.exists_cons
    rw [hcs]
    unfold hashbangAt
    split
    · rename_i heq
      have hc : c = '#' := by simpa using congrArg List.head? heq
      rw [hc] at hfirst
      exact absurd hfirst (by decide)
    · rfl
  obtain ⟨bound, hbound⟩ : ∃ bound, (w.toList ++ tail).length + 16 = bound + 2 :=
    ⟨(w.toList ++ tail).length + 14, rfl⟩
  have hstatement := reads_callStatement (b := bound + 2) (d := bound + 1) hw htail h hQ (by omega)
    (by omega)
  have hend : Reads (statementsUntil (rules (bound + 2) (bound + 2)) atEnd (bound + 1) false)
      .module [] [] (· = []) := by
    refine .bind (.atEnd behind_end.opens) ?_
    rintro _ rfl
    exact .pure rfl
  have hstatements : Reads (statementsUntil (rulesFor (w.toList ++ tail)) atEnd
      (rulesFor (w.toList ++ tail)).bound true) .module (w.toList ++ tail) []
      fun ts => repeatedExports ts = [] ∧ ∃ s t, Q t ∧ ts = [.node .expressionStatement s [t]] := by
    rw [rulesFor, hbound, bound_rules]
    refine .bind (.atEnd hstarts.opens) ?_
    rintro _ rfl
    refine .bind .get fun _ _ => .bind hstatement ?_
    rintro _ ⟨s, ⟨l, span, children⟩, ht, rfl⟩
    obtain rfl : l = .call false false := hQ _ ht
    refine .bind hend ?_
    rintro _ rfl
    exact .pure ⟨rfl, s, _, ht, rfl⟩
  obtain ⟨p, hp, s, t, ht, hchildren⟩ := soundModule_of_reads [] hstarts.opens hsource hstatements
  refine ⟨p, t, hp, ?_, ht⟩
  rw [Program.soleExpression?, Program.statements, hchildren]
  rfl

end Reactive.Script
