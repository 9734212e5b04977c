/-
  Reading known text.

  A parser `Reads` a text up to a rest if it succeeds wherever that text stands, without a flaw,
  and leaves the state before the rest. Everything about the grammar is put together from a few
  rules: what a reader that looks at the current token sees, what one that goes on leaves, and one
  reader after another.
-/
import Reactive.Proofs.Script.Opening
import Reactive.Script.Parse

namespace Reactive.Script.Parser

/-! ## States and texts -/

/-- The state stands before a text: its token is the first one of the text, and sound. -/
def State.At (s : State) (text : List Char) : Prop :=
  ∃ offset trivia, trivia.hints = []
    ∧ (nextToken ⟨text, offset⟩ trivia).flawed = false
    ∧ s.token = (nextToken ⟨text, offset⟩ trivia).token
    ∧ s.next = (nextToken ⟨text, offset⟩ trivia).next
    ∧ s.trivia = (nextToken ⟨text, offset⟩ trivia).trivia

/-- From one state another one is reached that stands before a text; no flaw was noted, and what the
place allows is the same. -/
structure State.Reaches (s s' : State) (rest : List Char) : Prop where
  at_rest : s'.At rest
  context : s'.context = s.context
  flaws : s'.flaws = s.flaws
  defaults : s'.defaults = s.defaults

theorem State.At.reaches_self {s : State} {text : List Char} (h : s.At text) : s.Reaches s text :=
  ⟨h, rfl, rfl, rfl⟩

theorem State.Reaches.trans {s s' s'' : State} {middle rest : List Char}
    (h : s.Reaches s' middle) (h' : s'.Reaches s'' rest) : s.Reaches s'' rest :=
  ⟨h'.at_rest, h'.context.trans h.context, h'.flaws.trans h.flaws,
    h'.defaults.trans h.defaults⟩

theorem State.At.kind_eq {s : State} {text : List Char} {k : TokenKind} (h : s.At text)
    (hk : Opens text k) : s.token.kind = k := by
  obtain ⟨offset, trivia, hhints, -, htoken, -⟩ := h
  rw [htoken]
  exact (hk offset trivia hhints).1

/-- A state before a text whose first token is known. -/
theorem State.At.starts {s : State} {text rest : List Char} {k : TokenKind} (h : s.At text)
    (hk : Starts text k rest) :
    s.token.escaped = false ∧ s.token.hints = [] ∧ s.next.rest = rest ∧ s.trivia.hints = [] := by
  obtain ⟨offset, trivia, hhints, -, htoken, hnext, htrivia⟩ := h
  obtain ⟨hplain, hhinted⟩ := hk.plain offset trivia hhints
  refine ⟨?_, ?_, ?_, ?_⟩
  · rw [htoken, hplain]
  · rw [htoken, hhinted]
  · rw [hnext, hk.rest_eq]
  · rw [htrivia]
    rfl

/-- Going on from a known token. -/
theorem State.At.advance {s : State} {text rest : List Char} {k k' : TokenKind} (h : s.At text)
    (hk : Starts text k rest) (hrest : Opens rest k') :
    ∃ s', advance s = .ok () s' ∧ s.Reaches s' rest := by
  obtain ⟨-, -, hnext, hhints⟩ := h.starts hk
  have hcursor : s.next = ⟨rest, s.next.offset⟩ := by rw [← hnext]
  -- Going on reads the next token from the text behind the current one.
  have hsound := (hrest s.next.offset s.trivia hhints).2
  rw [← hcursor] at hsound
  refine ⟨_, rfl, ⟨⟨s.next.offset, s.trivia, hhints, ?_, ?_, ?_, ?_⟩, rfl, ?_, rfl⟩⟩
  · rw [← hcursor]
    exact hsound
  · rw [← hcursor]
  · rw [← hcursor]
  · rw [← hcursor]
  · show (if (nextToken s.next s.trivia).flawed then _ else s.flaws) = s.flaws
    rw [hsound]
    rfl

/-! ## Readers -/

/-- After a reader that succeeds, the next one goes on from the state it leaves. -/
theorem run_bind {α β : Type} {p : Parser α} {s s' : State} {a : α} (h : p s = .ok a s')
    (f : α → Parser β) : (p >>= f) s = f a s' := by
  show EStateM.bind p f s = _
  rw [EStateM.bind, h]

/-- The reader succeeds wherever the text stands, and stops before the rest. -/
def Reads {α : Type} (p : Parser α) (c : Context) (text rest : List Char) (Q : α → Prop) : Prop :=
  ∀ s : State, s.At text → s.context = c →
    ∃ a s', p s = .ok a s' ∧ s.Reaches s' rest ∧ Q a

namespace Reads

variable {α β : Type} {p : Parser α} {c : Context} {text middle rest : List Char}
  {Q : α → Prop} {k k' : TokenKind}

theorem mono {Q' : α → Prop} (h : Reads p c text rest Q) (hQ : ∀ a, Q a → Q' a) :
    Reads p c text rest Q' := fun s hs hc => by
  obtain ⟨a, s', hrun, hreach, ha⟩ := h s hs hc
  exact ⟨a, s', hrun, hreach, hQ a ha⟩

theorem pure {a : α} (ha : Q a) : Reads (pure a) c text text Q := fun s hs _ =>
  ⟨a, s, rfl, hs.reaches_self, ha⟩

/-- One reader after another. -/
theorem bind {f : α → Parser β} {R : β → Prop} (h : Reads p c text middle Q)
    (hf : ∀ a, Q a → Reads (f a) c middle rest R) : Reads (p >>= f) c text rest R :=
  fun s hs hc => by
    obtain ⟨a, s', hrun, hreach, ha⟩ := h s hs hc
    obtain ⟨b, s'', hrun', hreach', hb⟩ := hf a ha s' hreach.at_rest (hreach.context.trans hc)
    exact ⟨b, s'', (run_bind hrun f).trans hrun', hreach.trans hreach', hb⟩

/-- A reader in a changed context. -/
theorem within {change : Context → Context} (h : Reads p (change c) text rest Q) :
    Reads (within change p) c text rest Q := fun s hs hc => by
  obtain ⟨a, s', hrun, hreach, ha⟩ := h { s with context := change s.context } hs (by rw [hc])
  exact ⟨a, { s' with context := s.context },
    run_bind hrun fun a s' => .ok a { s' with context := s.context },
    ⟨hreach.at_rest, rfl, hreach.flaws, hreach.defaults⟩, ha⟩

/-- A look ahead changes nothing. -/
theorem lookahead (h : Reads p c text rest Q) : Reads (lookahead p) c text text Q :=
  fun s hs hc => by
    obtain ⟨a, s', hrun, -, ha⟩ := h s hs hc
    exact ⟨a, s, run_bind hrun fun a _ => .ok a s, hs.reaches_self, ha⟩

/-! ### Going on -/

/-- The current token is passed. -/
theorem advance (h : Starts text k rest) (hrest : Opens rest k') :
    Reads advance c text rest fun _ => True := fun s hs _ => by
  obtain ⟨s', hrun, hreach⟩ := hs.advance h hrest
  exact ⟨(), s', hrun, hreach, trivial⟩

/-! ### Looking at the current token -/

theorem start : Reads start c text text fun _ => True := fun s hs _ =>
  ⟨s.token.start, s, rfl, hs.reaches_self, trivial⟩

theorem get : Reads get c text text fun _ => True := fun s hs _ =>
  ⟨s, s, rfl, hs.reaches_self, trivial⟩

theorem context : Reads context c text text (· = c) := fun s hs hc =>
  ⟨s.context, s, rfl, hs.reaches_self, hc⟩

theorem kind (h : Opens text k) : Reads kind c text text (· = k) := fun s hs _ =>
  ⟨s.token.kind, s, rfl, hs.reaches_self, hs.kind_eq h⟩

/-- A reader that goes on by the start of the current token. -/
theorem start_bind {f : Nat → Parser β} {R : β → Prop} (hf : ∀ b, Reads (f b) c text rest R) :
    Reads (Parser.start >>= f) c text rest R := bind start fun b _ => hf b

/-- A reader that goes on by the kind of the current token. -/
theorem kind_bind {f : TokenKind → Parser β} {R : β → Prop} (h : Opens text k)
    (hf : Reads (f k) c text rest R) : Reads (Parser.kind >>= f) c text rest R :=
  bind (kind h) fun _ hk => hk ▸ hf

theorem token (h : Opens text k) : Reads token c text text (·.kind = k) := fun s hs _ =>
  ⟨s.token, s, rfl, hs.reaches_self, hs.kind_eq h⟩

/-- The token behind the current one. -/
theorem following (h : Starts text k rest) (hrest : Opens rest k') :
    Reads following c text text (·.kind = k') :=
  lookahead (bind (advance h hrest) fun _ _ => token hrest)

/-- A node is made of what has been read. -/
theorem node (label : Label) ( begin : Nat) (children : List Tree) :
    Reads (node label begin children) c text text fun t => ∃ span, t = .node label span children :=
  fun s hs _ => ⟨_, s, rfl, hs.reaches_self, _, rfl⟩

theorem flawIf_false : Reads (flawIf false) c text text fun _ => True := pure trivial

theorem atPunct (h : Opens text k) (p : String) :
    Reads (atPunct p) c text text (· = decide (k = .punct p)) := by
  refine bind (kind h) fun k' hk => ?_
  subst hk
  cases k' with
  | punct q => exact pure (by simp [eq_comm, Bool.beq_eq_decide_eq])
  | _ => exact pure (by simp)

theorem atWord (h : Opens text k) (w : String) :
    Reads (atWord w) c text text (· = decide (k = .word w)) := by
  refine bind (kind h) fun k' hk => ?_
  subst hk
  cases k' with
  | word q => exact pure (by simp [eq_comm, Bool.beq_eq_decide_eq])
  | _ => exact pure (by simp)

theorem atEnd (h : Opens text k) : Reads atEnd c text text (· = decide (k = .endOfInput)) := by
  refine bind (kind h) fun k' hk => ?_
  subst hk
  cases k' <;> exact pure (by simp)

/-- A known token has neither escapes nor hints. -/
theorem plainToken (h : Starts text k rest) : Reads Parser.token c text text
    fun t => t.kind = k ∧ t.escaped = false ∧ t.hints = [] := fun s hs _ =>
  ⟨s.token, s, rfl, hs.reaches_self, hs.kind_eq h.opens, (hs.starts h).1, (hs.starts h).2.1⟩

/-- A statement does not end before a word on the same line. -/
theorem canEnd_word {w : String} (h : Opens text (.word w))
    (hline : ∀ offset t, (nextToken ⟨text, offset⟩ t).token.newlineBefore = false) :
    Reads canEnd c text text (· = false) := by
  have hsame : Reads Parser.token c text text
      fun t => t.kind = .word w ∧ t.newlineBefore = false := fun s hs _ => by
    have hkind := hs.kind_eq h
    obtain ⟨offset, t, -, -, htoken, -⟩ := id hs
    exact ⟨s.token, s, rfl, hs.reaches_self, hkind, by rw [htoken, hline]⟩
  refine bind hsame fun t ht => ?_
  rw [ht.1, ht.2]
  exact pure rfl

/-! ### Expected tokens -/

theorem advanceKeyword (h : Starts text k rest) (hrest : Opens rest k') :
    Reads advanceKeyword c text rest fun _ => True := by
  refine bind (plainToken h) fun t ht => ?_
  rw [ht.2.1]
  exact bind flawIf_false fun _ _ => advance h hrest

theorem eatPunct {p : String} (h : Starts text (.punct p) rest) (hrest : Opens rest k') :
    Reads (eatPunct p) c text rest (· = true) := by
  refine bind (atPunct h.opens p) fun b hb => ?_
  rw [hb, decide_eq_true rfl, if_pos rfl]
  exact bind (advance h hrest) fun _ _ => pure rfl

theorem eatPunct_other {p : String} (h : Opens text k) (hk : k ≠ .punct p) :
    Reads (Parser.eatPunct p) c text text (· = false) := by
  refine bind (atPunct h p) fun b hb => ?_
  rw [hb, decide_eq_false hk, if_neg Bool.false_ne_true]
  exact pure rfl

theorem eatWord {w : String} (h : Starts text (.word w) rest) (hrest : Opens rest k') :
    Reads (eatWord w) c text rest (· = true) := by
  refine bind (atWord h.opens w) fun b hb => ?_
  rw [hb, decide_eq_true rfl, if_pos rfl]
  exact bind (advanceKeyword h hrest) fun _ _ => pure rfl

theorem eatWord_other {w : String} (h : Opens text k) (hk : k ≠ .word w) :
    Reads (Parser.eatWord w) c text text (· = false) := by
  refine bind (atWord h w) fun b hb => ?_
  rw [hb, decide_eq_false hk, if_neg Bool.false_ne_true]
  exact pure rfl

theorem expectPunct {p : String} (h : Starts text (.punct p) rest) (hrest : Opens rest k') :
    Reads (expectPunct p) c text rest fun _ => True := by
  refine bind (eatPunct h hrest) fun b hb => ?_
  rw [hb]
  exact pure trivial

theorem expectWord {w : String} (h : Starts text (.word w) rest) (hrest : Opens rest k') :
    Reads (expectWord w) c text rest fun _ => True := by
  refine bind (eatWord h hrest) fun b hb => ?_
  rw [hb]
  exact pure trivial

/-- A semicolon ends a statement. -/
theorem endStatement (h : Starts text (.punct ";") rest) (hrest : Opens rest k') :
    Reads endStatement c text rest fun _ => True := by
  refine bind (eatPunct h hrest) fun b hb => ?_
  rw [hb]
  exact pure trivial

end Reads

end Reactive.Script.Parser
