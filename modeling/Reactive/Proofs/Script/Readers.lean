/-
  Readers of laid out texts.

  Whatever reads a script sees it through the lexer: it asks for the next token, or for the regular
  expression or the piece of a template that the current token starts, looks at what it got, and
  goes on from there or from an earlier place. If each answer is sound and on one line, every such
  reader gets the same answers from a text and from the text laid out anew: one step keeps the
  places related, and so does a whole run.
-/
import Reactive.Proofs.Script.Reading
import Reactive.Proofs.Script.Relaid

namespace Reactive.Script

open Reactive.Text

/-! ## Places -/

/-- A place between two tokens: the token before it, what stands behind that, and the comments. -/
structure Spot where
  here : Cursor
  next : Cursor
  trivia : Trivia

/-- The place before a text that starts on a line of its own. -/
def Spot.before (text : List Char) : Spot := ⟨⟨[], 0⟩, ⟨'\n' :: text, 0⟩, .start⟩

/-- What a reader can ask for. -/
inductive Ask where
  /-- The next token. -/
  | token
  /-- The regular expression that starts with the current token. -/
  | regex
  /-- The piece of a template behind the current token. -/
  | piece
deriving DecidableEq, Repr

/-- What a reader gets to know about an answer. -/
inductive Content where
  | token (kind : TokenKind) (newlineBefore escaped : Bool) (hints : List Hint)
  | regex (pattern flags : String)
  | piece (kind : TokenKind)
deriving DecidableEq, Repr

/-- An answer: its characters, what they are, and whether they are flawed. -/
structure Lexeme where
  text : List Char
  content : Content
  flawed : Bool
deriving DecidableEq, Repr

/-- The answer at a place, and the place behind it. -/
def Spot.ask (s : Spot) : Ask → Lexeme × Spot
  | .token =>
    let n := nextToken s.next s.trivia
    let content := .token n.token.kind n.token.newlineBefore n.token.escaped n.token.hints
    (⟨n.here.upTo n.next, content, n.flawed⟩, ⟨n.here, n.next, n.trivia⟩)
  | .regex =>
    let r := scanRegex s.here
    (⟨s.here.upTo r.next, .regex r.pattern r.flags, r.flawed⟩, { s with next := r.next })
  | .piece =>
    let p := scanTemplatePiece (s.here.skip 1)
    (⟨s.here.upTo p.next, .piece p.kind, p.flawed⟩, { s with next := p.next })

/-- The text has ended. -/
def Content.isEnd : Content → Bool
  | .token .endOfInput .. => true
  | _ => false

/-- An answer that is sound, is not the end of the text, and stays on one line, as do the comments
before it unless they start with plain blanks. -/
def Steady (answer : Lexeme × Spot) : Prop :=
  answer.1.flawed = false ∧ answer.1.content.isEnd = false ∧ OneLine answer.1.text
    ∧ answer.2.trivia.Plain

instance (answer : Lexeme × Spot) : Decidable (Steady answer) := inferInstanceAs (Decidable (_ ∧ _))

/-- Places in a text and in that text laid out anew: the same token stands before them, if one does
in the first text. -/
structure Matches (tail : List Char) (s s' : Spot) : Prop where
  next : Relaid tail false s.next.rest s'.next.rest
  here : s.here.rest = [] ∨ (¬Break s.here.rest ∧ Relaid tail false s.here.rest s'.here.rest)
  hints : s'.trivia.hints = s.trivia.hints

/-! ## One step -/

section

variable {tail : List Char} {s s' : Spot}

/-- The next token is read alike. -/
theorem ask_token (h : Matches tail s s') (hsteady : Steady (s.ask .token)) :
    (s'.ask .token).1 = (s.ask .token).1
    ∧ Matches tail (s.ask .token).2 (s'.ask .token).2 := by
  obtain ⟨hsound, hmore, hline, hplain⟩ := hsteady
  obtain ⟨_, ⟨cs, o⟩, t⟩ := s
  obtain ⟨_, ⟨cs', o'⟩, t'⟩ := s'
  generalize hg : skipGap (cs.length + 1) ⟨cs, o⟩ t false = g
  generalize hg' : skipGap (cs'.length + 1) ⟨cs', o'⟩ t' false = g'
  simp only [Spot.ask, nextToken, hg, hg'] at hsound hmore hline hplain ⊢
  obtain ⟨hgap, hscan⟩ := Bool.or_eq_false_iff.mp hsound
  obtain ⟨c, x, hrest⟩ : ∃ c x, g.next.rest = c :: x := by
    refine List.exists_cons_of_ne_nil fun hnil => ?_
    rw [scanToken, hnil] at hmore
    cases hmore
  have hplain : g.trivia.Plain := by
    rw [Trivia.plain_iff] at hplain ⊢
    exact fun y hy => hplain y ((Trivia.saw_addToken _ _ y).mpr hy)
  obtain ⟨hc, hgap', hnewline, hhints, x', hrest', hx⟩ :=
    skipGap_relaid h.next h.hints hg hg' hgap hplain hrest
  have hlaid : Relaid tail false g.next.rest g'.next.rest := by
    rw [hrest, hrest']
    exact .same c hx
  have hstart : ¬Break g.next.rest := by
    intro hbreak
    rw [isVoid_of_break (hbreak c (by rw [hrest]; rfl))] at hc
    cases hc
  obtain ⟨r, r', hr, hr', hbeside, hafter⟩ := hlaid.exists_beside
  obtain ⟨hkind, hescaped, hscan', hnext⟩ :=
    scanToken_alike hr hr' hbeside hstart hline hscan
  refine ⟨?_, hafter hnext, .inr ⟨hstart, hlaid⟩, rfl⟩
  rw [hbeside.upTo_eq hnext, hkind, hescaped, hscan', hnewline, hhints, hgap', hgap, hscan]

/-- Every answer is the same. -/
theorem ask_eq (h : Matches tail s s') (ask : Ask) (hsteady : Steady (s.ask ask)) :
    (s'.ask ask).1 = (s.ask ask).1 ∧ Matches tail (s.ask ask).2 (s'.ask ask).2 := by
  cases ask with
  | token => exact ask_token h hsteady
  | regex =>
    obtain ⟨hsound, -, hline, -⟩ := hsteady
    rcases h.here with hnil | ⟨hstart, hhere⟩
    · simp [Spot.ask, scanRegex, Cursor.rest_skip, hnil, regexBody] at hsound
    · have hne : s.here.rest ≠ [] := fun hnil => hstart (by simp [hnil, Break])
      obtain ⟨r, r', hr, hr', hbeside, hafter⟩ := hhere.exists_beside
      obtain ⟨hpattern, hflags, hsound', hnext⟩ := scanRegex_alike hr hr' hbeside hne hsound hline
      refine ⟨?_, hafter hnext, .inr ⟨hstart, hhere⟩, h.hints⟩
      simp only [Spot.ask, hpattern, hflags, hsound', hbeside.upTo_eq hnext]
      exact congrArg _ hsound.symm
  | piece =>
    obtain ⟨hsound, -, hline, -⟩ := hsteady
    rcases h.here with hnil | ⟨hstart, hhere⟩
    · simp [Spot.ask, scanTemplatePiece, Cursor.rest_skip, hnil, templateBody, Scan.bad] at hsound
    · have hne : s.here.rest ≠ [] := fun hnil => hstart (by simp [hnil, Break])
      obtain ⟨r, r', hr, hr', hbeside, hafter⟩ := hhere.exists_beside
      obtain ⟨hkind, -, hsound', hnext⟩ := scanTemplatePiece_alike hr hbeside hne hline hsound
      refine ⟨?_, hafter hnext, .inr ⟨hstart, hhere⟩, h.hints⟩
      simp only [Spot.ask, hkind, hsound', hbeside.upTo_eq hnext]
      exact congrArg _ hsound.symm

end

/-! ## Whole runs -/

/-- A reader: by the answers so far it chooses one of the places it has been at, counted from the
start, and what to ask for there; or it is done. -/
def Reader := List Lexeme → Option (Nat × Ask)

namespace Reader

/-- The answers a reader gets in so many steps, each with the place behind it. -/
def run (r : Reader) (start : Spot) : Nat → List (Lexeme × Spot)
  | 0 => []
  | n + 1 =>
    let past := r.run start n
    match r (past.map Prod.fst) with
    | none => past
    | some (i, ask) =>
      match (start :: past.map Prod.snd)[i]? with
      | none => past
      | some s => past ++ [s.ask ask]

/-- The answers alone. -/
def answers (r : Reader) (start : Spot) (n : Nat) : List Lexeme := (r.run start n).map Prod.fst

/-- The places that a reader has been at. -/
def spots (r : Reader) (start : Spot) (n : Nat) : List Spot :=
  start :: (r.run start n).map Prod.snd

/-- The reader that asks for some things, one after the other. -/
def asking (asks : List Ask) : Reader := fun past =>
  asks[past.length]?.map fun ask => (past.length, ask)

section

variable (r : Reader) {s : Spot} {n : Nat}

theorem length_spots : (r.spots s n).length = (r.answers s n).length + 1 := by
  simp [spots, answers]

/-- A reader that is done, or chooses no place it has been at, gets nothing more. -/
theorem run_done (h : (r (r.answers s n)).bind (fun c => (r.spots s n)[c.1]?) = none) :
    r.run s (n + 1) = r.run s n := by
  rw [run]
  change (match r (r.answers s n) with
    | none => _
    | some (i, ask) => match (r.spots s n)[i]? with
      | none => _
      | some x => _) = _
  split
  · rfl
  · rename_i hchoice
    rw [hchoice, Option.bind_some] at h
    rw [h]

theorem run_step {i : Nat} {ask : Ask} {x : Spot} (h : r (r.answers s n) = some (i, ask))
    (hx : (r.spots s n)[i]? = some x) : r.run s (n + 1) = r.run s n ++ [x.ask ask] := by
  rw [run]
  change (match r (r.answers s n) with
    | none => _
    | some (i, ask) => match (r.spots s n)[i]? with
      | none => _
      | some x => _) = _
  rw [h]
  dsimp only
  rw [hx]

end

/-- A run keeps the places related: step by step the answers are the same. -/
theorem run_matches (r : Reader) {tail : List Char} {s s' : Spot} (h : Matches tail s s') {n : Nat}
    (hsteady : ∀ answer ∈ r.run s n, Steady answer) :
    r.answers s' n = r.answers s n
    ∧ ∀ (i : Nat) (x : Spot), (r.spots s n)[i]? = some x →
        ∃ x', (r.spots s' n)[i]? = some x' ∧ Matches tail x x' := by
  induction n with
  | zero =>
    refine ⟨rfl, fun i x hx => ?_⟩
    cases i with
    | zero => exact ⟨s', rfl, Option.some.inj hx ▸ h⟩
    | succ i => cases hx
  | succ n ih =>
    cases hstep : (r (r.answers s n)).bind (fun c => (r.spots s n)[c.1]?) with
    | none =>
      have hrun := r.run_done hstep
      obtain ⟨hanswers, hspots⟩ := ih (hrun ▸ hsteady)
      have hrun' : r.run s' (n + 1) = r.run s' n := by
        refine r.run_done ?_
        rw [Option.bind_eq_none_iff] at hstep ⊢
        intro c hc
        have hbound := hstep c (hanswers ▸ hc)
        rw [List.getElem?_eq_none_iff, length_spots] at hbound ⊢
        rwa [hanswers]
      rw [answers, answers, spots, spots, hrun, hrun']
      exact ⟨hanswers, hspots⟩
    | some x =>
      obtain ⟨⟨i, ask⟩, hchoice, hx⟩ := Option.bind_eq_some_iff.mp hstep
      have hrun := r.run_step hchoice hx
      rw [hrun, List.forall_mem_append, List.forall_mem_singleton] at hsteady
      obtain ⟨hanswers, hspots⟩ := ih hsteady.1
      obtain ⟨x', hx', hmatch⟩ := hspots i x hx
      have hrun' := r.run_step (hanswers ▸ hchoice) hx'
      obtain ⟨hanswer, hnext⟩ := ask_eq hmatch ask hsteady.2
      have hlength : (r.spots s' n).length = (r.spots s n).length := by
        rw [length_spots, length_spots, hanswers]
      constructor
      · rw [answers, answers, hrun, hrun', List.map_append, List.map_append, ← answers, ← answers,
          hanswers, List.map_singleton, List.map_singleton, hanswer]
      · intro j y hy
        -- The new place stands behind the others in both runs.
        rw [spots, hrun, List.map_append, ← List.cons_append, ← spots, List.getElem?_append] at hy
        rw [spots, hrun', List.map_append, ← List.cons_append, ← spots, List.getElem?_append,
          hlength]
        by_cases hj : j < (r.spots s n).length
        · rw [if_pos hj] at hy ⊢
          exact hspots j y hy
        · rw [if_neg hj] at hy ⊢
          rw [List.map_singleton, List.getElem?_singleton] at hy ⊢
          obtain ⟨hj, hy⟩ := Option.ite_none_right_eq_some.mp hy
          exact ⟨_, by rw [if_pos hj], Option.some.inj hy ▸ hnext⟩

end Reader

/-- From every place behind which a text stands, a reader gets the answers that it gets from another
text alone, as long as they are steady there. -/
def ReadAlike (text place : List Char) : Prop :=
  ∀ (r : Reader) (n : Nat), (∀ answer ∈ r.run (.before text) n, Steady answer) →
    ∀ s : Spot, s.next.rest = place → s.trivia.hints = [] →
      r.answers s n = r.answers (.before text) n

/-- A text laid out anew is read alike. -/
theorem Relaid.readAlike {tail text place : List Char}
    (h : Relaid tail false ('\n' :: text) place) : ReadAlike text place := by
  intro r n hsteady s hnext hhints
  have hmatches : Matches tail (.before text) s := ⟨hnext ▸ h, .inl rfl, hhints⟩
  exact (r.run_matches hmatches hsteady).1

end Reactive.Script
